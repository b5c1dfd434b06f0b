import Lockstep.Address

/-! The lines of a disassembly listing.

A listing names a function on a line of its own, with the name between angle brackets and
a colon at the end, and gives an instruction on each line that begins with an address and a
colon. Blanks around a line do not matter, and every other line says nothing. A line that
ends as a label does is a label whatever it begins with. -/
namespace Lockstep.Listing

inductive Line where
  /-- A function begins. -/
  | label (name : Text)
  /-- An instruction, with the whole line as its text. -/
  | instruction (address : Address) (text : Text)
  /-- Anything else. -/
  | noise
  deriving DecidableEq, Repr

namespace Line

/-- The name on a label line: all between the first opening bracket and the closing
bracket and colon at the very end. Names hold brackets and colons of their own, but no line
feed, so only brackets after the last line feed count; and a name is not empty. -/
def labelName? (text : Text) : Option Text :=
  match text.reverse with
  | ':' :: '>' :: front =>
    match Text.after? ['<'] (front.takeWhile (· != '\n')).reverse with
    | some [] => none
    | name => name
  | _ => none

/-- The address before the first colon. -/
def address? (text : Text) : Option Address := (Text.before? [':'] text).bind Address.read?

/-- What a line says. -/
def read (line : Text) : Line :=
  let text := line.trim
  match labelName? text with
  | some name => label name
  | none =>
    match address? text with
    | some address => instruction address text
    | none => noise

/-- The address of an instruction line. -/
def instructionAddress? : Line → Option Address
  | instruction address _ => some address
  | _ => none

/-- The name on a label line. -/
def label? : Line → Option Text
  | label name => some name
  | _ => none

end Line

end Lockstep.Listing
