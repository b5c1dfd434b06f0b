import Lockstep.Address
import Lockstep.Malformed

/-! The lines of a reference trace.

A line of five words or more is a record, and its third word says of what: an executed
instruction by its address, or a trap. Shorter lines, such as the detail line that follows
a trap's, are no records. -/
namespace Lockstep.Reference

inductive Kind where
  /-- The instruction at an address was executed. -/
  | instruction (address : Address)
  | exception
  deriving DecidableEq, Repr

structure Record where
  kind : Kind
  /-- The line without blanks around it. -/
  raw : Text
  deriving DecidableEq, Repr

namespace Record

def address? (record : Record) : Option Address :=
  match record.kind with
  | .instruction address => some address
  | .exception => none

/-- Whether the record marks a trap. -/
def isException (record : Record) : Bool := record.kind == .exception

/-- Stands in the third word of a trap's line. -/
def exceptionMark : Text := "exception".toList

def readKind (word : Text) : Except Malformed Kind :=
  if Text.includes exceptionMark word then .ok .exception
  else match Address.read? word with
    | some address => .ok (.instruction address)
    | none => .error (.invalidAddress word)

/-- The record of a line, if the line is long enough for one. -/
def read (line : Text) : Except Malformed (Option Record) :=
  match line.words with
  | _ :: _ :: word :: _ :: _ :: _ => (readKind word).map fun kind => some ⟨kind, line.trim⟩
  | _ => .ok none

end Record

end Lockstep.Reference
