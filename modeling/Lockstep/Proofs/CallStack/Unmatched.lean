import Mathlib.Data.List.Basic
import Lockstep.Proofs.CallStack.Query

/-! The stack as the function entries that nothing matched.

An entry is gone if some later return pops it: the returns up to there are then more than the
entries before it (`Popped`). Returns with nothing above the root match no entry, so which entries
are left can be told from the addresses behind each entry alone. The induction is over the
addresses from any stack; what carries it is how much of that stack they take away (`removed`),
which is the same count with the frames begun along the way set against the returns. -/
namespace Lockstep.Watch

section
variable (index : Listing.Index)

def pops (address : Address) : Bool := (index.return? address).isSome

def pushes (address : Address) : Bool := (index.start? address).isSome

/-- Whether a frame is popped along the addresses that follow its entry. -/
def Popped (later : List Address) : Prop :=
  ∃ j < later.length,
    (later.take j).countP (pushes index) < (later.take (j + 1)).countP (pops index)

instance (later : List Address) : Decidable (Popped index later) :=
  inferInstanceAs (Decidable (∃ j < later.length, _))

/-- The labels of the entries that are not popped, in the order of the addresses. -/
def unmatched : List Address → List Text
  | [] => []
  | address :: later =>
    (if Popped index later then [] else ((index.start? address).map (·.label)).toList) ++
      unmatched later

/-- How many frames of a stack are gone after some addresses, if it has as many. -/
def removed : List Address → Nat
  | [] => 0
  | address :: later =>
    (pops index address).toNat + (removed later - (pushes index address).toNat)

/-- More frames than `k` are gone exactly if somewhere the returns outnumber the entries before
them by more than `k`. -/
theorem lt_removed_iff (addresses : List Address) (k : Nat) :
    k < removed index addresses ↔ ∃ j < addresses.length,
      (addresses.take j).countP (pushes index) + k <
        (addresses.take (j + 1)).countP (pops index) := by
  induction addresses generalizing k with
  | nil => simp [removed]
  | cons address later ih =>
    have htoNat : ∀ b : Bool, (if b = true then 1 else 0) = b.toNat := by decide
    simp only [removed, List.length_cons, Nat.exists_lt_succ_left, List.take_succ_cons,
      List.take_zero, List.countP_cons, List.countP_nil, htoNat]
    generalize (pops index address).toNat = popped
    generalize (pushes index address).toNat = pushed
    by_cases hk : k < popped
    · exact ⟨fun _ => .inl (by omega), fun _ => by omega⟩
    · -- The returns that are left to outnumber start behind this address.
      have hlater := ih (k - popped + pushed)
      constructor
      · intro h
        obtain ⟨j, hj, hcount⟩ := hlater.mp (by omega)
        exact .inr ⟨j, hj, by omega⟩
      · intro h
        rcases h with h | ⟨j, hj, hcount⟩
        · omega
        · have := hlater.mpr ⟨j, hj, by omega⟩
          omega

theorem popped_iff (later : List Address) : Popped index later ↔ 0 < removed index later := by
  rw [lt_removed_iff]
  rfl

theorem root_move (address : Address) (stack : CallStack) :
    (move index address stack).root = stack.root := by
  unfold move enter leave
  split <;> split <;> rfl

theorem above_move (address : Address) (stack : CallStack) :
    (move index address stack).above = ((index.start? address).map (·.label)).toList ++
      stack.above.drop (pops index address).toNat := by
  unfold move enter leave pops
  cases index.start? address <;> cases index.return? address <;>
    simp [CallStack.push, CallStack.pop]

/-- **A run leaves what it does not take of a stack, below its own unmatched entries.** -/
theorem stackAfter_eq (addresses : List Address) (stack : CallStack) :
    stackAfter index stack addresses =
      { stack with above := (unmatched index addresses).reverse ++
          stack.above.drop (removed index addresses) } := by
  induction addresses generalizing stack with
  | nil => rfl
  | cons address later ih =>
    show stackAfter index (move index address stack) later = _
    rw [ih, root_move, above_move, unmatched, removed, pushes]
    cases hremoved : removed index later with
    | zero =>
      have hlasts : ¬ Popped index later := by
        rw [popped_iff, hremoved]
        exact Nat.lt_irrefl 0
      rw [if_neg hlasts]
      cases index.start? address <;> simp
    | succ n =>
      have hpopped : Popped index later := by
        rw [popped_iff, hremoved]
        exact Nat.succ_pos n
      rw [if_pos hpopped]
      cases index.start? address <;> simp [Nat.add_comm, Nat.add_assoc]

end

/-- **The stack is the root and the entries that nothing matched, and the query is answered once,
by the stack that the first record with its tick leaves.** -/
theorem stack_eq_unmatched (index : Listing.Index) (root : Text) (query : Option Tick)
    (records : List Trace.Executed) :
    let run := history (step index) (rooted root query) records
    run.1.stack.labels = root :: unmatched index (records.map (·.address)) ∧
    (∀ i, (run.2[i]?).map (·.snapshot) = records[i]?.map fun record =>
      if records.findIdx? (carries query) = some i then
        record.tick.map fun tick => ⟨tick, record.address,
          root :: unmatched index ((records.take (i + 1)).map (·.address))⟩
      else none) ∧
    ∀ n, (history (step index) (rooted root query) (records.take n)).1.answered = true ↔
      ∃ i < n, records.findIdx? (carries query) = some i := by
  intro run
  have hlabels : ∀ addresses, (stackAfter index { root } addresses).labels =
      root :: unmatched index addresses := by
    intro addresses
    rw [stackAfter_eq, CallStack.labels, List.drop_nil, List.append_nil, List.reverse_reverse]
  refine ⟨?_, ?_, answered_history_take index root query records⟩
  · rw [stack_history]
    exact hlabels _
  · intro i
    rw [snapshot_history]
    simp only [hlabels]

end Lockstep.Watch
