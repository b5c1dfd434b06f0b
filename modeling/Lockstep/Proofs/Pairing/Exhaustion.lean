import Lockstep.Proofs.Pairing.Course
import Lockstep.Proofs.Report.Counting

/-! How a reference ends.

Along a run a reference is first *supplied*, then ends at one instruction, and is *spent* from
then on (`course_phases`): the follower is flagged exactly if the reference is spent, which is
the invariant that the induction carries. An end is the only place for the flag of a finding
and for a way back that is not found, so there is at most one of either (`Final`). -/
namespace Lockstep
open Reference (Queue Record)

/-- A row with nothing of a reference in it. -/
def Row.Bare (row : Row) : Prop := row = .unlisted ∨ ∃ text, row = .paired .mismatching text none

namespace Moment

/-- The instruction faces a record. -/
structure Supplied (moment : Moment) : Prop where
  faced : moment.faced ≠ []
  row : ∀ verdict text reference,
    moment.finding.row = .paired verdict text reference → reference.isSome = true
  detour : ∀ detour, moment.finding.detour = some detour → detour.found = true
  quiet : moment.finding.exhausted = false

/-- The instruction is the first to face no record. -/
structure Ends (moment : Moment) : Prop where
  faced : moment.faced = []
  row : moment.finding.row.Bare
  flagged : moment.finding.exhausted = true
  after : moment.after = []

/-- The instruction comes after the end. -/
structure Spent (moment : Moment) : Prop where
  before : moment.before = []
  row : moment.finding.row.Bare
  detour : moment.finding.detour = none
  quiet : moment.finding.exhausted = false
  after : moment.after = []

end Moment

/-- The moments of a run along which the reference ends once or not at all. -/
inductive Phases : List Moment → Prop where
  | lasting {moments : List Moment} : (∀ moment ∈ moments, moment.Supplied) → Phases moments
  | ending {front back : List Moment} {last : Moment} : (∀ moment ∈ front, moment.Supplied) →
      last.Ends → (∀ moment ∈ back, moment.Spent) → Phases (front ++ last :: back)

theorem Phases.cons {moment : Moment} {moments : List Moment} (hmoment : moment.Supplied)
    (h : Phases moments) : Phases (moment :: moments) := by
  cases h with
  | lasting hmoments => exact .lasting (List.forall_mem_cons.mpr ⟨hmoment, hmoments⟩)
  | @ending front back last hfront hlast hback =>
    show Phases ((moment :: front) ++ last :: back)
    exact .ending (List.forall_mem_cons.mpr ⟨hmoment, hfront⟩) hlast hback

namespace Follower

theorem pairedRow_none_bare (index : Listing.Index) (address : Address) :
    (pairedRow index address none).Bare := by
  unfold pairedRow
  cases index.instruction? address with
  | none => exact .inl rfl
  | some known => exact .inr ⟨known.text, rfl⟩

theorem isSome_of_pairedRow_some {index : Listing.Index} {address : Address} {head : Record}
    {verdict : Verdict} {text : Text} {reference : Option Record}
    (h : pairedRow index address (some head) = .paired verdict text reference) :
    reference.isSome = true := by
  unfold pairedRow at h
  split at h <;> cases h
  rfl

/-- Before its end a reference is supplied once more, or ends. -/
theorem supplied_or_ends (index : Listing.Index) (queue : Queue) (record : Trace.Executed) :
    ((moment index ⟨some queue, false⟩ record).Supplied ∧
      ∃ rest, (step index ⟨some queue, false⟩ record).1 = ⟨some rest, false⟩) ∨
    ((moment index ⟨some queue, false⟩ record).Ends ∧
      (step index ⟨some queue, false⟩ record).1 = ⟨some [], true⟩) := by
  have hfinding : (moment index ⟨some queue, false⟩ record).finding =
      (step index ⟨some queue, false⟩ record).2 := rfl
  have hafter : (moment index ⟨some queue, false⟩ record).after =
      (step index ⟨some queue, false⟩ record).1.queue := rfl
  rw [step_some] at hfinding hafter ⊢
  cases hfaced : (queue.passTrap record.address).2 with
  | nil =>
    rw [hfaced] at hfinding hafter
    refine .inr ⟨⟨hfaced, ?_, ?_, hafter⟩, rfl⟩
    · rw [hfinding]
      exact pairedRow_none_bare index record.address
    · rw [hfinding]
      rfl
  | cons head rest =>
    rw [hfaced] at hfinding
    refine .inl ⟨⟨?_, ?_, ?_, ?_⟩, rest, rfl⟩
    · rw [Moment.faced]
      exact hfaced ▸ List.cons_ne_nil head rest
    · intro verdict text reference h
      rw [hfinding] at h
      exact isSome_of_pairedRow_some h
    · intro detour h
      rw [hfinding] at h
      rw [Queue.found_of_passTrap h, hfaced]
      rfl
    · rw [hfinding]
      rfl

/-- After its end a reference stays spent. -/
theorem spent_course (index : Listing.Index) (records : List Trace.Executed) :
    ∀ moment ∈ course index ⟨some [], true⟩ records, moment.Spent := by
  induction records with
  | nil => simp [course]
  | cons record records ih =>
    refine List.forall_mem_cons.mpr ⟨⟨rfl, ?_, rfl, rfl, rfl⟩, ih⟩
    exact pairedRow_none_bare index record.address

theorem course_phases (index : Listing.Index) (queue : Queue) (records : List Trace.Executed) :
    Phases (course index (beside queue) records) := by
  induction records generalizing queue with
  | nil => exact .lasting (by simp [course])
  | cons record records ih =>
    rcases supplied_or_ends index queue record with ⟨hsupplied, rest, hnext⟩ | ⟨hends, hnext⟩
    · have hrest := ih rest
      rw [beside, ← hnext] at hrest
      exact hrest.cons hsupplied
    · have hspent := spent_course index records
      rw [← hnext] at hspent
      show Phases ([] ++ _ :: _)
      exact .ending (List.forall_mem_nil _) hends hspent

/-- What is left after a run is what is left after its last moment. -/
theorem queue_history (index : Listing.Index) (follower : Follower)
    (records : List Trace.Executed) :
    (history (step index) follower records).1.queue =
      ((course index follower records).getLast?.map Moment.after).getD follower.queue := by
  induction records generalizing follower with
  | nil => rfl
  | cons record records ih =>
    rw [history_cons, course, List.getLast?_cons, ih]
    cases (course index (follower.step index record).1 records).getLast? <;> rfl

end Follower

/-! ### What the findings tell of an end -/

/-- Findings with one end at most, and what is left of the reference behind them. -/
structure Final (findings : List Finding) (left : Nat) : Prop where
  once : findings.countP (·.exhausted) ≤ 1
  lost : ∀ finding ∈ findings, finding.isLost = true → finding.exhausted = true
  faulty : ∀ finding ∈ findings, finding.exhausted = true →
    finding.row.isUnlisted = true ∨ finding.row.isMismatching = true
  left : (∃ finding ∈ findings, finding.exhausted = true) → left = 0

theorem Final.lost_once {findings : List Finding} {left : Nat} (h : Final findings left) :
    findings.countP Finding.isLost ≤ 1 :=
  Nat.le_trans (List.countP_mono_left h.lost) h.once

theorem Moment.Supplied.not_lost {moment : Moment} (h : moment.Supplied) :
    moment.finding.isLost = false := by
  unfold Finding.isLost
  cases hdetour : moment.finding.detour with
  | none => rfl
  | some detour => simp [h.detour detour hdetour]

theorem Moment.Spent.not_lost {moment : Moment} (h : moment.Spent) :
    moment.finding.isLost = false := by
  rw [Finding.isLost, h.detour]
  rfl

theorem Row.Bare.faulty {row : Row} (h : row.Bare) :
    row.isUnlisted = true ∨ row.isMismatching = true := by
  rcases h with rfl | ⟨text, rfl⟩
  · exact .inl rfl
  · exact .inr rfl

theorem Phases.mem {moments : List Moment} (h : Phases moments) {moment : Moment}
    (hmoment : moment ∈ moments) : moment.Supplied ∨ moment.Ends ∨ moment.Spent := by
  cases h with
  | lasting hmoments => exact .inl (hmoments moment hmoment)
  | ending hfront hlast hback =>
    rcases List.mem_append.mp hmoment with hmoment | hmoment
    · exact .inl (hfront moment hmoment)
    · rcases List.mem_cons.mp hmoment with rfl | hmoment
      · exact .inr (.inl hlast)
      · exact .inr (.inr (hback moment hmoment))

theorem countP_exhausted_eq_zero {moments : List Moment}
    (h : ∀ moment ∈ moments, moment.finding.exhausted = false) :
    moments.countP (·.finding.exhausted) = 0 := by
  rw [List.countP_eq_zero]
  intro moment hmoment
  simp [h moment hmoment]

theorem Phases.once {moments : List Moment} (h : Phases moments) :
    moments.countP (·.finding.exhausted) ≤ 1 := by
  cases h with
  | lasting hmoments =>
    rw [countP_exhausted_eq_zero fun moment hmoment => (hmoments moment hmoment).quiet]
    exact Nat.zero_le 1
  | ending hfront hlast hback =>
    rw [List.countP_append, List.countP_cons,
      countP_exhausted_eq_zero fun moment hmoment => (hfront moment hmoment).quiet,
      countP_exhausted_eq_zero fun moment hmoment => (hback moment hmoment).quiet]
    split <;> omega

/-- Where a moment is flagged, the last one leaves nothing. -/
theorem Phases.last_after {moments : List Moment} (h : Phases moments)
    (hflagged : ∃ moment ∈ moments, moment.finding.exhausted = true) :
    ∃ last ∈ moments.getLast?, last.after = [] := by
  cases h with
  | lasting hmoments =>
    obtain ⟨moment, hmoment, hflag⟩ := hflagged
    rw [(hmoments moment hmoment).quiet] at hflag
    cases hflag
  | @ending front back last _ hlast hback =>
    have hafter : ∀ moment ∈ last :: back, moment.after = [] :=
      List.forall_mem_cons.mpr ⟨hlast.after, fun moment hmoment => (hback moment hmoment).after⟩
    refine ⟨(last :: back).getLast (List.cons_ne_nil last back), ?_,
      hafter _ (List.getLast_mem (List.cons_ne_nil last back))⟩
    rw [List.getLast?_append, List.getLast?_eq_some_getLast (List.cons_ne_nil last back)]
    rfl

namespace Follower

theorem final_beside (index : Listing.Index) (queue : Queue)
    (records : List Trace.Executed) :
    Final (history (step index) (beside queue) records).2
      (history (step index) (beside queue) records).1.left := by
  have hphases := course_phases index queue records
  rw [← map_finding_course, left_eq_length_queue, queue_history]
  refine ⟨?_, ?_, ?_, ?_⟩
  · rw [List.countP_map]
    exact hphases.once
  · refine List.forall_mem_map.mpr fun moment hmoment hlost => ?_
    rcases hphases.mem hmoment with h | h | h
    · rw [h.not_lost] at hlost
      cases hlost
    · exact h.flagged
    · rw [h.not_lost] at hlost
      cases hlost
  · refine List.forall_mem_map.mpr fun moment hmoment hflagged => ?_
    rcases hphases.mem hmoment with h | h | h
    · rw [h.quiet] at hflagged
      cases hflagged
    · exact h.row.faulty
    · exact h.row.faulty
  · intro h
    obtain ⟨finding, hfinding, hflagged⟩ := h
    obtain ⟨moment, hmoment, rfl⟩ := List.mem_map.mp hfinding
    obtain ⟨last, hlast, hafter⟩ := hphases.last_after ⟨moment, hmoment, hflagged⟩
    rw [Option.mem_def.mp hlast, Option.map_some, hafter]
    rfl

theorem quiet_of_static (index : Listing.Index) (records : List Trace.Executed) :
    ∀ finding ∈ (history (step index) {} records).2,
      finding.exhausted = false ∧ finding.isLost = false := by
  rw [history_static]
  exact List.forall_mem_map.mpr fun _ _ => ⟨rfl, rfl⟩

/-- With a reference or without one. -/
theorem final_history (index : Listing.Index) (reference : Option Queue)
    (records : List Trace.Executed) :
    Final (history (step index) { reference } records).2
      (history (step index) { reference } records).1.left := by
  cases reference with
  | some queue => exact final_beside index queue records
  | none =>
    have hquiet := quiet_of_static index records
    have hflag : ∀ finding ∈ (history (step index) {} records).2, ¬ finding.exhausted = true := by
      intro finding hfinding
      simp [(hquiet finding hfinding).1]
    refine ⟨?_, ?_, ?_, ?_⟩
    · rw [List.countP_eq_zero.mpr hflag]
      exact Nat.zero_le 1
    · intro finding hfinding hlost
      rw [(hquiet finding hfinding).2] at hlost
      cases hlost
    · exact fun finding hfinding h => absurd h (hflag finding hfinding)
    · intro h
      obtain ⟨finding, hfinding, h⟩ := h
      exact absurd h (hflag finding hfinding)

end Follower

end Lockstep
