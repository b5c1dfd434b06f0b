import Lockstep.Text.Pieces

/-! The characters with Unicode's `White_Space` property, and what is done with them:
a text is trimmed at both ends, or read as the words between them. -/
namespace Lockstep.Text

/-- Unicode's `White_Space`. Information separators (U+001C to U+001F), the zero width
space and the byte order mark do not have the property. -/
def isBlank (c : Char) : Bool :=
  let n := c.toNat
  (0x9 ≤ n && n ≤ 0xD) || n == 0x20 || n == 0x85 || n == 0xA0 || n == 0x1680 ||
    (0x2000 ≤ n && n ≤ 0x200A) || n == 0x2028 || n == 0x2029 || n == 0x202F || n == 0x205F ||
    n == 0x3000

/-- The text without the blanks at its start. -/
def trimLeft (text : Text) : Text := text.dropWhile isBlank

/-- The text without the blanks at its end. -/
def trimRight (text : Text) : Text := (text.reverse.dropWhile isBlank).reverse

/-- The text without the blanks at both ends. -/
def trim (text : Text) : Text := trimRight (trimLeft text)

/-- The longest runs of characters that are not blank, in order. -/
def words (text : Text) : List Text := (pieces isBlank text).filter (!·.isEmpty)

theorem isBlank_of_isWhitespace {c : Char} (h : c.isWhitespace = true) : isBlank c = true := by
  simp only [Char.isWhitespace, Bool.or_eq_true, decide_eq_true_eq] at h
  rcases h with ((rfl | rfl) | rfl) | rfl <;> rfl

end Lockstep.Text
