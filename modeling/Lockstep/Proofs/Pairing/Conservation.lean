import Mathlib.Algebra.GroupWithZero.Nat
import Lockstep.Proofs.Pairing.Course

/-! Nothing of a reference is lost or used twice.

What the moments of a run took, one after the other, and what is left are the reference again
(`reference_conserved`). Of what a moment took, its detour is as long as the detour counts, and
the record beside the instruction is the row's: it is used up even where the listing does not
have the instruction, so that the two traces stay in step. -/
namespace Lockstep
open Reference (Queue Record)

/-- How many records a finding says were dropped. -/
def Finding.discarded (finding : Finding) : Nat := (finding.detour.map (·.discarded)).getD 0

namespace Moment

/-- What a moment owes to the reference. -/
structure Accounts (moment : Moment) : Prop where
  /-- All that is gone was taken. -/
  took : moment.before = moment.taken ++ moment.after
  /-- The records dropped are those that the finding counts. -/
  counted : moment.dropped.length = moment.finding.discarded
  /-- A row shows the record that was used up. -/
  shown : ∀ verdict text reference,
    moment.finding.row = .paired verdict text reference → reference = moment.head?
  /-- The record in front is used up, with a row or without one. -/
  used : moment.after = moment.faced.tail
  /-- A reference does not stay as it is. -/
  shrinks : moment.before ≠ [] → moment.after.length < moment.before.length

end Moment

namespace Follower

/-- A passage in three parts: what was dropped, the record used up, and what is left. -/
theorem Passage.parts {index : Listing.Index} {address : Address} {exhausted : Bool}
    {queue : Queue} {finding : Finding} {next : Follower}
    (h : Passage index address exhausted queue finding next) :
    ∃ dropped faced, queue = dropped ++ faced ∧ (queue.passTrap address).2 = faced ∧
      dropped.length = finding.discarded ∧
      finding.row = pairedRow index address faced.head? ∧ next.queue = faced.tail := by
  cases h with
  | @paired head rest hhead =>
    refine ⟨[], head :: rest, rfl, ?_, rfl, rfl, rfl⟩
    rw [Queue.passTrap_of_not_isException (by simpa using hhead)]
  | @resumed head dropped rest hdrops =>
    refine ⟨dropped, head :: rest, rfl, ?_, rfl, rfl, rfl⟩
    rw [Queue.passTrap_of_drops hdrops]
  | lost hdrops =>
    have hpass := Queue.passTrap_of_drops hdrops
    rw [List.append_nil] at hpass
    exact ⟨queue, [], (List.append_nil queue).symm, by rw [hpass], rfl, rfl, rfl⟩
  | dry => exact ⟨[], [], rfl, rfl, rfl, rfl, rfl⟩

theorem accounts_moment (index : Listing.Index) (queue : Queue) (exhausted : Bool)
    (record : Trace.Executed) : (moment index ⟨some queue, exhausted⟩ record).Accounts := by
  obtain ⟨dropped, faced, hqueue, hfaced, hcount, hrow, hnext⟩ :=
    (step_passage index queue exhausted record).parts
  have hfaced : (moment index ⟨some queue, exhausted⟩ record).faced = faced := hfaced
  have hdropped : (moment index ⟨some queue, exhausted⟩ record).dropped = dropped := by
    rw [Moment.dropped, hfaced]
    show queue.take (queue.length - faced.length) = dropped
    rw [hqueue, List.length_append, Nat.add_sub_cancel, List.take_left]
  have hafter : (moment index ⟨some queue, exhausted⟩ record).after = faced.tail := hnext
  have hbefore : (moment index ⟨some queue, exhausted⟩ record).before = dropped ++ faced := hqueue
  refine ⟨?_, ?_, ?_, ?_, ?_⟩
  · rw [Moment.taken, Moment.head?, hfaced, hdropped, hafter, hbefore, List.append_assoc]
    cases faced <;> rfl
  · rw [hdropped]
    exact hcount
  · intro verdict text reference h
    have h : pairedRow index record.address faced.head? = .paired verdict text reference :=
      hrow.symm.trans h
    rw [Moment.head?, hfaced]
    unfold pairedRow at h
    split at h
    · cases h
      rfl
    · cases h
  · rw [hafter, hfaced]
  · rw [hafter, hbefore]
    intro hne
    have hpos := List.length_pos_iff.mpr hne
    rw [List.length_append] at hpos ⊢
    rw [List.length_tail]
    omega

/-- What is taken along a run and what is left make up the reference. -/
theorem queue_eq_taken_append (index : Listing.Index) (queue : Queue) (exhausted : Bool)
    (records : List Trace.Executed) :
    queue = (course index ⟨some queue, exhausted⟩ records).flatMap Moment.taken ++
      (history (step index) ⟨some queue, exhausted⟩ records).1.queue := by
  induction records generalizing queue exhausted with
  | nil => rfl
  | cons record records ih =>
    have htook := (accounts_moment index queue exhausted record).took
    obtain ⟨rest, exhausted', hnext⟩ := (step_passage index queue exhausted record).exists_some
    have hafter : (moment index ⟨some queue, exhausted⟩ record).after = rest := by
      show (step index ⟨some queue, exhausted⟩ record).1.queue = rest
      rw [hnext]
      rfl
    rw [course, history_cons, hnext, List.flatMap_cons, List.append_assoc, ← ih rest exhausted',
      ← hafter]
    exact htook

/-- The lengths of what accounted moments took. -/
theorem length_flatMap_taken {moments : List Moment}
    (h : ∀ moment ∈ moments, moment.Accounts) :
    (moments.flatMap Moment.taken).length =
      (moments.map (·.finding.discarded)).sum + moments.countP (·.head?.isSome) := by
  induction moments with
  | nil => rfl
  | cons moment moments ih =>
    obtain ⟨hmoment, hmoments⟩ := List.forall_mem_cons.mp h
    have htaken : moment.taken.length =
        moment.finding.discarded + (if moment.head?.isSome then 1 else 0) := by
      rw [Moment.taken, List.length_append, hmoment.counted]
      cases moment.head? <;> rfl
    rw [List.flatMap_cons, List.length_append, ih hmoments, htaken, List.map_cons, List.sum_cons,
      List.countP_cons]
    omega

/-- **Records of a reference are only ever taken from the front, each once.** The reference is
what the moments of a run took, in order, and what is left; the counts of the findings and of
the records used up, and what is left, add up to its length. -/
theorem reference_conserved (index : Listing.Index) (queue : Queue)
    (records : List Trace.Executed) :
    let run := history (step index) (beside queue) records
    let moments := course index (beside queue) records
    moments.map Moment.finding = run.2 ∧
    queue = moments.flatMap Moment.taken ++ run.1.queue ∧
    (∀ moment ∈ moments, moment.Accounts) ∧
    queue.length = run.1.left + (run.2.map Finding.discarded).sum +
      moments.countP (·.head?.isSome) := by
  intro run moments
  have haccounts : ∀ moment ∈ moments, moment.Accounts := by
    intro m hm
    obtain ⟨before, exhausted, record, rfl⟩ := exists_of_mem_course hm
    exact accounts_moment index before exhausted record
  have hfindings : moments.map Moment.finding = run.2 :=
    map_finding_course index (beside queue) records
  have hqueue : queue = moments.flatMap Moment.taken ++ run.1.queue :=
    queue_eq_taken_append index queue false records
  refine ⟨hfindings, hqueue, haccounts, ?_⟩
  calc queue.length = (moments.flatMap Moment.taken).length + run.1.queue.length := by
        rw [← List.length_append, ← hqueue]
    _ = (moments.map (·.finding.discarded)).sum + moments.countP (·.head?.isSome) +
          run.1.left := by
        rw [length_flatMap_taken haccounts, left_eq_length_queue]
    _ = run.1.left + (run.2.map Finding.discarded).sum + moments.countP (·.head?.isSome) := by
        rw [← hfindings, List.map_map]
        simp only [Function.comp_def]
        omega

end Follower

end Lockstep
