import Mathlib.Algebra.GroupWithZero.Nat
import Lockstep.CommandLine.Program

/-! What the counters of a check count.

A counter that goes up by one at the items of a class, and at no others, counts the items of
that class (`foldl_eq_countP`). Each counter of a tally is one of these, over findings and
over the steps of a check alike. -/
namespace Lockstep

section
variable {ι : Type}

theorem countP_cons_toNat (counts : ι → Bool) (item : ι) (items : List ι) :
    (item :: items).countP counts = (counts item).toNat + items.countP counts := by
  rw [List.countP_cons, Nat.add_comm]
  cases counts item <;> rfl

/-- A fold that counts the items of a class counts as many as there are. -/
theorem foldl_eq_countP {σ : Type} (step : σ → ι → σ) (counter : σ → Nat) (counts : ι → Bool)
    (h : ∀ state item, counter (step state item) = counter state + (counts item).toNat)
    (items : List ι) (state : σ) :
    counter (items.foldl step state) = counter state + items.countP counts := by
  induction items generalizing state with
  | nil => rfl
  | cons item items ih => rw [List.foldl_cons, ih, h, countP_cons_toNat, Nat.add_assoc]

/-- A class in two parts has as many items as both. -/
theorem countP_eq_add {whole left right : ι → Bool} {items : List ι}
    (h : ∀ item ∈ items, (whole item).toNat = (left item).toNat + (right item).toNat) :
    items.countP whole = items.countP left + items.countP right := by
  induction items with
  | nil => rfl
  | cons item items ih =>
    obtain ⟨hitem, hitems⟩ := List.forall_mem_cons.mp h
    simp only [countP_cons_toNat, ih hitems, hitem]
    omega

/-- Of a class with one item at most there is one or none. -/
theorem countP_eq_toNat_any {counts : ι → Bool} {items : List ι} (h : items.countP counts ≤ 1) :
    items.countP counts = (items.any counts).toNat := by
  cases hany : items.any counts with
  | false =>
    rw [List.any_eq_false] at hany
    exact List.countP_eq_zero.mpr hany
  | true =>
    exact Nat.le_antisymm h (List.countP_pos_iff.mpr (List.any_eq_true.mp hany))

theorem countP_and_left (flag : Bool) (counts : ι → Bool) (items : List ι) :
    items.countP (fun item => flag && counts item) = if flag then items.countP counts else 0 := by
  cases flag <;> simp

/-- The sum over one item at most is over the first one. -/
theorem sum_map_of_length_le_one (size : ι → Nat) {items : List ι} (h : items.length ≤ 1) :
    (items.map size).sum = items.head?.elim 0 size := by
  cases items with
  | nil => rfl
  | cons item rest =>
    obtain rfl : rest = [] := List.eq_nil_of_length_eq_zero (by simpa using h)
    simp

end

/-! ### Classes of findings -/

namespace Row

def isMatching : Row → Bool
  | paired .matching _ _ => true
  | _ => false

/-- The reference is at another address, or at its end. -/
def isMismatching : Row → Bool
  | paired .mismatching _ _ => true
  | _ => false

def isUnlisted : Row → Bool
  | unlisted => true
  | _ => false

end Row

namespace Finding

def isResumed (finding : Finding) : Bool := finding.detour.any (·.found)

/-- The way back after a trap was not found. -/
def isLost (finding : Finding) : Bool := finding.detour.any (!·.found)

/-- A detour leads to its address or is lost. -/
theorem isSome_detour (finding : Finding) :
    finding.detour.isSome.toNat = finding.isResumed.toNat + finding.isLost.toNat := by
  obtain ⟨row, detour, exhausted⟩ := finding
  rcases detour with _ | ⟨discarded, _ | _⟩ <;> rfl

end Finding

namespace Report.Tally

/-- **Each counter counts its own class of findings.** -/
theorem countFinding_eq (tally : Tally) (finding : Finding) :
    tally.countFinding finding =
      { tally with
        rows := tally.rows + (!finding.row.isUnlisted).toNat
        matched := tally.matched + finding.row.isMatching.toNat
        mismatched := tally.mismatched + finding.row.isMismatching.toNat
        unlisted := tally.unlisted + finding.row.isUnlisted.toNat
        trapsPassed := tally.trapsPassed + finding.isResumed.toNat
        trapsLost := tally.trapsLost + finding.isLost.toNat } := by
  obtain ⟨row, detour, exhausted⟩ := finding
  rcases row with text | ⟨_ | _, text, reference⟩ | _ <;>
    rcases detour with _ | ⟨discarded, _ | _⟩ <;> rfl

/-- The findings of a tally that shows a clean headline. -/
theorem isClean_foldl_countFinding (findings : List Finding) :
    CommandLine.isClean (findings.foldl countFinding {}) = true ↔
      ∀ finding ∈ findings, finding.row.isUnlisted = false ∧ finding.row.isMismatching = false := by
  have hunlisted := foldl_eq_countP countFinding unlisted (·.row.isUnlisted)
    (fun tally finding => by rw [countFinding_eq]) findings {}
  have hmismatched := foldl_eq_countP countFinding mismatched (·.row.isMismatching)
    (fun tally finding => by rw [countFinding_eq]) findings {}
  simp only [CommandLine.isClean, hunlisted, hmismatched, Bool.and_eq_true, beq_iff_eq,
    Nat.zero_add, List.countP_eq_zero, Bool.not_eq_true, forall_and]

end Report.Tally

end Lockstep
