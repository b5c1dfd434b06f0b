import Lockstep.Proofs.Report.Counting
import Lockstep.Proofs.Run.Completed

/-! The steps of a check, as findings beside a reference.

The lines of a log that hold no record do not move the machine, so its follower runs over the
executed instructions alone (`history_follower`), and so does its watch (`history_watch`). Each
counter of a check counts a class of their findings (`tallyOf_eq`). -/
namespace Lockstep.Check

/-- The record of a line, if it has one and nothing is wrong with it. -/
def record? (line : Text) : Option Trace.Executed := (Trace.Executed.read line).toOption.join

def executed (lines : List Text) : List Trace.Executed := lines.filterMap record?

namespace Step

def finding? : Step → Option Finding
  | executed _ _ finding _ => some finding
  | _ => none

def movement? : Step → Option Movement
  | executed _ _ _ movement => some movement
  | _ => none

def finds (counts : Finding → Bool) (step : Step) : Bool := step.finding?.any counts

def isMalformed : Step → Bool
  | malformed _ => true
  | _ => false

def snapshot? (step : Step) : Option Snapshot := step.movement?.bind (·.snapshot)

/-- **Each counter counts its own class of steps.** -/
theorem count_eq (tally : Report.Tally) (step : Step) :
    step.count tally =
      { tally with
        records := tally.records + step.finding?.isSome.toNat
        rows := tally.rows + (step.finds (!·.row.isUnlisted)).toNat
        matched := tally.matched + (step.finds (·.row.isMatching)).toNat
        mismatched := tally.mismatched + (step.finds (·.row.isMismatching)).toNat
        unlisted := tally.unlisted + (step.finds (·.row.isUnlisted)).toNat
        trapsPassed := tally.trapsPassed + (step.finds Finding.isResumed).toNat
        trapsLost := tally.trapsLost + (step.finds Finding.isLost).toNat
        malformed := tally.malformed + step.isMalformed.toNat
        stackShown := tally.stackShown || step.snapshot?.isSome } := by
  cases step with
  | foreign => simp [count, finds, finding?, isMalformed, snapshot?, movement?]
  | malformed cause => simp [count, finds, finding?, isMalformed, snapshot?, movement?]
  | executed line record finding movement =>
    rw [count, Report.Tally.countFinding_eq]
    rfl

end Step

theorem countP_finds (counts : Finding → Bool) (steps : List Step) :
    steps.countP (Step.finds counts) = (steps.filterMap Step.finding?).countP counts := by
  rw [List.countP_filterMap]
  congr
  funext step
  unfold Step.finds
  cases step.finding? <;> rfl

theorem foldl_count (steps : List Step) (tally : Report.Tally) :
    steps.foldl Step.count tally =
      { tally with
        records := tally.records + steps.countP (·.finding?.isSome)
        rows := tally.rows + steps.countP (Step.finds (!·.row.isUnlisted))
        matched := tally.matched + steps.countP (Step.finds (·.row.isMatching))
        mismatched := tally.mismatched + steps.countP (Step.finds (·.row.isMismatching))
        unlisted := tally.unlisted + steps.countP (Step.finds (·.row.isUnlisted))
        trapsPassed := tally.trapsPassed + steps.countP (Step.finds Finding.isResumed)
        trapsLost := tally.trapsLost + steps.countP (Step.finds Finding.isLost)
        malformed := tally.malformed + steps.countP Step.isMalformed
        stackShown := tally.stackShown || steps.any (·.snapshot?.isSome) } := by
  induction steps generalizing tally with
  | nil => simp
  | cons step steps ih =>
    rw [List.foldl_cons, ih, Step.count_eq]
    simp only [countP_cons_toNat, List.any_cons, Nat.add_assoc, Bool.or_assoc]

/-- **The counters of a check count its findings.** -/
theorem tallyOf_eq (steps : List Step) (machine : Machine) :
    let findings := steps.filterMap Step.finding?
    tallyOf steps machine =
      { records := findings.length
        rows := findings.countP (!·.row.isUnlisted)
        matched := findings.countP (·.row.isMatching)
        mismatched := findings.countP (·.row.isMismatching)
        unlisted := findings.countP (·.row.isUnlisted)
        trapsPassed := findings.countP Finding.isResumed
        trapsLost := findings.countP Finding.isLost
        malformed := steps.countP Step.isMalformed
        stackShown := steps.any (·.snapshot?.isSome)
        referenceLeft := machine.follower.left } := by
  simp only [tallyOf, foldl_count, Nat.zero_add, Bool.false_or, ← countP_finds,
    List.length_filterMap_eq_countP]

theorem trapsLost_tallyOf (steps : List Step) (machine : Machine) :
    (tallyOf steps machine).trapsLost = (steps.filterMap Step.finding?).countP Finding.isLost := by
  rw [tallyOf_eq]

theorem mismatched_tallyOf (steps : List Step) (machine : Machine) :
    (tallyOf steps machine).mismatched =
      (steps.filterMap Step.finding?).countP (·.row.isMismatching) := by
  rw [tallyOf_eq]

theorem unlisted_tallyOf (steps : List Step) (machine : Machine) :
    (tallyOf steps machine).unlisted =
      (steps.filterMap Step.finding?).countP (·.row.isUnlisted) := by
  rw [tallyOf_eq]

theorem step_of_record?_eq_none (index : Listing.Index) (machine : Machine) {line : Text}
    (h : record? line = none) : (machine.step index line).1 = machine ∧
      (machine.step index line).2.finding? = none ∧
      (machine.step index line).2.movement? = none := by
  unfold record? at h
  unfold Machine.step
  cases hread : Trace.Executed.read line with
  | error cause => exact ⟨rfl, rfl, rfl⟩
  | ok found =>
    rw [hread] at h
    obtain rfl : found = none := h
    exact ⟨rfl, rfl, rfl⟩

theorem step_of_record?_eq_some (index : Listing.Index) (machine : Machine) {line : Text}
    {record : Trace.Executed} (h : record? line = some record) :
    machine.step index line =
      (⟨(machine.follower.step index record).1, (machine.watch.step index record).1⟩,
        .executed line record (machine.follower.step index record).2
          (machine.watch.step index record).2) := by
  unfold record? at h
  unfold Machine.step
  cases hread : Trace.Executed.read line with
  | error cause =>
    rw [hread] at h
    cases h
  | ok found =>
    rw [hread] at h
    obtain rfl : found = some record := h
    rfl

/-- A machine's follower runs over the executed instructions. -/
theorem history_follower (index : Listing.Index) (machine : Machine) (lines : List Text) :
    (history (Machine.step index) machine lines).1.follower =
        (history (Follower.step index) machine.follower (executed lines)).1 ∧
      (history (Machine.step index) machine lines).2.filterMap Step.finding? =
        (history (Follower.step index) machine.follower (executed lines)).2 := by
  refine history_part Machine.follower record? Step.finding? ?_ ?_ machine lines
  · intro machine line hline
    obtain ⟨hmachine, hfinding, _⟩ := step_of_record?_eq_none index machine hline
    exact ⟨by rw [hmachine], hfinding⟩
  · intro machine line record hline
    rw [step_of_record?_eq_some index machine hline]
    exact ⟨rfl, rfl⟩

/-- So does its watch. -/
theorem history_watch (index : Listing.Index) (machine : Machine) (lines : List Text) :
    (history (Machine.step index) machine lines).1.watch =
        (history (Watch.step index) machine.watch (executed lines)).1 ∧
      (history (Machine.step index) machine lines).2.filterMap Step.movement? =
        (history (Watch.step index) machine.watch (executed lines)).2 := by
  refine history_part Machine.watch record? Step.movement? ?_ ?_ machine lines
  · intro machine line hline
    obtain ⟨hmachine, _, hmovement⟩ := step_of_record?_eq_none index machine hline
    exact ⟨by rw [hmachine], hmovement⟩
  · intro machine line record hline
    rw [step_of_record?_eq_some index machine hline]
    exact ⟨rfl, rfl⟩

end Lockstep.Check
