import Lockstep.Text.Basic

/-! A list cut at the elements of a class.

`cut` gives the pieces that an element of the class ends, and the rest that none ends.
It is the one rule behind lines (cut at line feeds), words (cut at blanks) and the
components of a path (cut at slashes). -/
namespace Lockstep

/-- The pieces that a separator ends, in order, and what follows the last separator. -/
def cut {α : Type} (separates : α → Bool) (items : List α) : List (List α) × List α :=
  items.foldr (fun a (pieces, rest) =>
    if separates a then ([] :: pieces, rest)
    else match pieces with
      | [] => ([], a :: rest)
      | piece :: pieces => ((a :: piece) :: pieces, rest)) ([], [])

/-- All pieces, the last one with no separator behind it. -/
def pieces {α : Type} (separates : α → Bool) (items : List α) : List (List α) :=
  let (ended, rest) := cut separates items
  ended ++ [rest]

variable {α : Type} {separates : α → Bool}

@[simp]
theorem cut_nil : cut separates ([] : List α) = ([], []) := rfl

theorem cut_cons_of_separates {a : α} (h : separates a = true) (items : List α) :
    cut separates (a :: items) = ([] :: (cut separates items).1, (cut separates items).2) := by
  simp [cut, h]

theorem cut_cons_of_not_separates {a : α} (h : separates a = false) (items : List α) :
    cut separates (a :: items) =
      match (cut separates items).1 with
      | [] => ([], a :: (cut separates items).2)
      | piece :: pieces => ((a :: piece) :: pieces, (cut separates items).2) := by
  simp [cut, h]

/-- A piece without a separator, closed by one, is the first piece. -/
theorem cut_append_of_separates {piece : List α} (hp : ∀ a ∈ piece, separates a = false) {s : α}
    (hs : separates s = true) (items : List α) :
    cut separates (piece ++ s :: items) =
      (piece :: (cut separates items).1, (cut separates items).2) := by
  induction piece with
  | nil => exact cut_cons_of_separates hs items
  | cons a piece ih =>
    have ha : separates a = false := hp a (by simp)
    rw [List.cons_append, cut_cons_of_not_separates ha, ih fun b hb => hp b (by simp [hb])]

/-- Without a separator there is one piece, and nothing ends it. -/
theorem cut_of_forall_not_separates {items : List α} (h : ∀ a ∈ items, separates a = false) :
    cut separates items = ([], items) := by
  induction items with
  | nil => rfl
  | cons a items ih =>
    have ha : separates a = false := h a (by simp)
    rw [cut_cons_of_not_separates ha, ih fun b hb => h b (by simp [hb])]

end Lockstep
