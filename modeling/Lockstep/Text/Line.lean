import Lockstep.Text.Pieces

/-! Lines: the pieces that line feeds end.

The rule is the same for bytes and for characters, so it is stated over both: a carriage
return directly before a line feed belongs to it, and only that one. Characters after the
last line feed are a line too, if there are any. -/
namespace Lockstep

variable {α : Type} [BEq α]

/-- A piece without the carriage return at its end. -/
def dropReturn (cr : α) (piece : List α) : List α :=
  if piece.getLast? == some cr then piece.dropLast else piece

/-- The lines that a line feed ends. -/
def endedLines (lf cr : α) (items : List α) : List (List α) :=
  (cut (· == lf) items).1.map (dropReturn cr)

/-- What follows the last line feed. -/
def openLine (lf : α) (items : List α) : List α := (cut (· == lf) items).2

/-- All lines: those that a line feed ends, and what follows if it is not empty. -/
def lines (lf cr : α) (items : List α) : List (List α) :=
  endedLines lf cr items ++ if (openLine lf items).isEmpty then [] else [openLine lf items]

/-- The lines of a text. -/
def Text.lines (text : Text) : List Text := Lockstep.lines '\n' '\r' text

theorem dropReturn_concat [LawfulBEq α] (cr : α) (piece : List α) :
    dropReturn cr (piece ++ [cr]) = piece := by
  simp [dropReturn]

theorem dropReturn_of_ne [LawfulBEq α] {cr : α} {piece : List α} (h : piece.getLast? ≠ some cr) :
    dropReturn cr piece = piece := by
  simp [dropReturn, h]

end Lockstep
