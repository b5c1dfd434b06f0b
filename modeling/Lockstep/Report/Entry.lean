import Lockstep.CallStack
import Lockstep.Pairing

/-! The report of a check, entry by entry, and its exact text.

A row shows an instruction's texts in columns, left-aligned and divided by colons; a text
wider than its column shifts what follows and is never cut. Warnings and notices are
entries of their own, which no option hides. -/
namespace Lockstep.Report

inductive Entry where
  /-- The names of the columns beside a reference. -/
  | heading
  /-- A line of the log as it is. -/
  | logged (line : Text)
  /-- A trap was passed, or the way back was not found. -/
  | trap (address : Address) (detour : Reference.Detour)
  | exhausted (address : Address)
  /-- A row without a reference. -/
  | listed (listed executed : Text)
  /-- A row beside a reference; its text is empty if there is no record left. -/
  | paired (verdict : Verdict) (listed executed reference : Text)
  /-- The listing does not have an executed address. -/
  | unlisted (address : Address)
  | stack (snapshot : Snapshot)
  deriving DecidableEq, Repr

/-- What a report leaves out. -/
structure Options where
  rows : Bool := true
  logged : Bool := true
  deriving DecidableEq, Repr

def Options.shows (options : Options) : Entry → Bool
  | .listed .. | .paired .. => options.rows
  | .logged _ => options.logged
  | _ => true

/-! ### The text of an entry -/

def separator : Text := ":::".toList

def listedWidth : Nat := 60

def pairedWidth : Nat := 70

def referenceWidth : Nat := 60

/-- Columns of given widths, one blank apart. -/
def columns (cells : List (Nat × Text)) : Text :=
  List.intercalate [' '] (cells.map fun (width, text) => text.padRight width)

/-- A row without a reference. -/
def listedRow (listed executed : Text) : Text :=
  columns [(listedWidth, listed), (3, separator), (listedWidth, executed)]

/-- A row beside a reference, behind a first column of a given width. -/
def pairedRow (firstWidth : Nat) (first listed executed reference : Text) : Text :=
  columns [(firstWidth, first), (pairedWidth, listed), (3, separator), (pairedWidth, executed),
    (3, separator), (referenceWidth, reference)]

def trapNotice (address : Address) (detour : Reference.Detour) : Text :=
  let place := if detour.found
    then "resynchronized at PC ".toList ++ address.hex
    else "PC ".toList ++ address.hex ++ " not found in reference".toList
  "found exception: ".toList ++ place ++ " after discarding ".toList ++
    Numeral.decimal detour.discarded ++ " reference records".toList

def exhaustedWarning (address : Address) : Text :=
  "WARNING: reference trace exhausted at PC ".toList ++ address.hex

def unlistedWarning (address : Address) : Text :=
  "WARNING: PC ".toList ++ address.hex ++
    " not found in asm file, but was executed by Rev".toList

def stackHeading (snapshot : Snapshot) : Text :=
  "Call Stack at time: ".toList ++ snapshot.tick.decimal ++ " and PC: ".toList ++
    snapshot.address.hex

/-- The texts of an entry, each of which is written on a line of its own. -/
def Entry.texts : Entry → List Text
  | heading => [pairedRow 9 "PC Match".toList "ASM Instruction".toList "Rev Instruction".toList
      "Spike Instruction".toList]
  | logged line => [line]
  | trap address detour => [trapNotice address detour]
  | exhausted address => [exhaustedWarning address]
  | listed known executed => [listedRow known executed]
  | paired verdict known executed reference => [pairedRow 3 verdict.sign known executed reference]
  | unlisted address => [unlistedWarning address]
  | stack snapshot => stackHeading snapshot :: snapshot.frames

def Entry.render (entry : Entry) : Text := entry.texts.flatMap Text.line

def render (options : Options) (entries : List Entry) : Text :=
  (entries.filter options.shows).flatMap Entry.render

theorem render_append (options : Options) (front back : List Entry) :
    render options (front ++ back) = render options front ++ render options back := by
  simp [render]

/-! ### The entries of a finding -/

/-- A row, or the warning that there is none. -/
def rowEntry (address : Address) (executed : Text) : Row → Entry
  | .listed text => .listed text executed
  | .paired verdict text reference =>
    .paired verdict text executed ((reference.map Reference.Record.raw).getD [])
  | .unlisted => .unlisted address

/-- What a report says about an executed instruction: how a trap was passed, that the
reference ran out, and the row. -/
def findingEntries (address : Address) (executed : Text) (finding : Finding) : List Entry :=
  (finding.detour.map (.trap address)).toList ++
    (if finding.exhausted then [.exhausted address] else []) ++
    [rowEntry address executed finding.row]

end Lockstep.Report
