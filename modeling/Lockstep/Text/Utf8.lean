import Lockstep.History
import Lockstep.Text.Basic

/-! Bytes as text, whatever the bytes are.

A reader takes one byte at a time and knows only how far into a character it is
(`State`). A byte that cannot go on with the character begun ends it: one replacement
character stands for the bytes of it that were read, and the byte is looked at afresh. So
each longest part of the bytes that begins a character and cannot end it becomes one
replacement character, and so does each byte that cannot begin one. The bytes of a
character in UTF-8 become that character. -/
namespace Lockstep.Utf8

/-- Stands for bytes that are no character. -/
def replacement : Char := '\uFFFD'

/-- Where the reader is between two bytes. -/
inductive State where
  /-- Between two characters. -/
  | between
  /-- Inside a character: its bits so far, the number of bytes it still needs, and the
  range its next byte must be in. -/
  | inside (bits owed : Nat) (low high : UInt8)
  deriving DecidableEq, Repr

/-- The reader after a first byte, and what it writes. Overlong forms, surrogates and
numbers past U+10FFFF are kept out by the range of the second byte. -/
def lead (b : UInt8) : State × Text :=
  if b < 0x80 then (.between, [Char.ofNat b.toNat])
  else if 0xC2 ≤ b && b ≤ 0xDF then (.inside (b.toNat % 0x20) 1 0x80 0xBF, [])
  else if b == 0xE0 then (.inside 0x0 2 0xA0 0xBF, [])
  else if b == 0xED then (.inside 0xD 2 0x80 0x9F, [])
  else if 0xE1 ≤ b && b ≤ 0xEF then (.inside (b.toNat % 0x10) 2 0x80 0xBF, [])
  else if b == 0xF0 then (.inside 0x0 3 0x90 0xBF, [])
  else if b == 0xF4 then (.inside 0x4 3 0x80 0x8F, [])
  else if 0xF1 ≤ b && b ≤ 0xF3 then (.inside (b.toNat % 0x08) 3 0x80 0xBF, [])
  else (.between, [replacement])

/-- The reader after a byte, and what it writes. -/
def State.step : State → UInt8 → State × Text
  | .between, b => lead b
  | .inside bits owed low high, b =>
    if low ≤ b && b ≤ high then
      let bits := bits * 0x40 + b.toNat % 0x40
      if owed ≤ 1 then (.between, [Char.ofNat bits])
      else (.inside bits (owed - 1) 0x80 0xBF, [])
    else
      let (state, written) := lead b
      (state, replacement :: written)

/-- What the reader writes when the bytes end. -/
def State.finish : State → Text
  | .between => []
  | .inside .. => [replacement]

/-- The text that a reader makes of the bytes to come. -/
def State.read : State → List UInt8 → Text
  | state, [] => state.finish
  | state, b :: bytes => (state.step b).2 ++ (state.step b).1.read bytes

/-- The text of some bytes. -/
def decode (bytes : List UInt8) : Text :=
  let (state, written) := history State.step .between bytes
  written.flatten ++ state.finish

theorem read_eq_history (state : State) (bytes : List UInt8) :
    state.read bytes =
      (history State.step state bytes).2.flatten ++ (history State.step state bytes).1.finish := by
  induction bytes generalizing state with
  | nil => rfl
  | cons b bytes ih => simp [State.read, history_cons, ih]

/-- The reader starts between two characters. -/
theorem decode_eq_read (bytes : List UInt8) : decode bytes = State.between.read bytes :=
  (read_eq_history .between bytes).symm

end Lockstep.Utf8
