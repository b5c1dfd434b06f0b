import Lockstep.Listing.Line
import Std.Data.HashMap
import Std.Data.HashSet

/-! The index of a listing: what is known of an address, and where each function begins.

The listing is read once, from its first line to its last. A function starts at the first
instruction after its label, and returns at the last instruction before the next label, so
a function that no further label follows has no return. Of two lines for one address the
later one stands; of two functions with one name the earlier one is the entry. -/
namespace Lockstep.Listing

structure Instruction where
  address : Address
  text : Text
  deriving DecidableEq, Repr

/-- The first or the last instruction of a function. -/
structure Boundary where
  address : Address
  label : Text
  deriving DecidableEq, Repr

structure Index where
  instructions : Std.HashMap Address Instruction := {}
  starts : Std.HashMap Address Boundary := {}
  returns : Std.HashMap Address Boundary := {}
  /-- Where the function of a name starts. -/
  entries : Std.HashMap Text Address := {}

namespace Index

def instruction? (index : Index) (address : Address) : Option Instruction := index.instructions[address]?

def start? (index : Index) (address : Address) : Option Boundary := index.starts[address]?

def return? (index : Index) (address : Address) : Option Boundary := index.returns[address]?

def entry? (index : Index) (label : Text) : Option Address := index.entries[label]?

/-- How many addresses the listing has. -/
def size (index : Index) : Nat := index.instructions.size

/-- How many addresses a function starts at. -/
def functions (index : Index) : Nat := index.starts.size

/-- Whether two indexes know the same. -/
def same (a b : Index) : Bool :=
  a.instructions.size == b.instructions.size && a.starts.size == b.starts.size &&
    a.returns.size == b.returns.size && a.entries.size == b.entries.size &&
    a.instructions.all (fun address i => b.instruction? address == some i) &&
    a.starts.all (fun address start => b.start? address == some start) &&
    a.returns.all (fun address last => b.return? address == some last) &&
    a.entries.all (fun label address => b.entry? label == some address)

def addInstruction (index : Index) (address : Address) (text : Text) : Index :=
  { index with instructions := index.instructions.insert address ⟨address, text⟩ }

def addStart (index : Index) (address : Address) (label : Text) : Index :=
  { index with
    starts := index.starts.insert address ⟨address, label⟩
    entries := index.entries.insertIfNew label address }

def addReturn (index : Index) (address : Address) (label : Text) : Index :=
  { index with returns := index.returns.insert address ⟨address, label⟩ }

end Index

/-- Where a reader of the listing is. -/
inductive Place where
  | outside
  /-- After a label, before the function's first instruction. -/
  | opened (label : Text)
  /-- In a function, with its last instruction so far. -/
  | inside (label : Text) (last : Address)
  deriving DecidableEq, Repr

structure Reading where
  place : Place := .outside
  index : Index := {}

namespace Reading

/-- A label ends the function before it. -/
def label (reading : Reading) (name : Text) : Reading where
  place := .opened name
  index := match reading.place with
    | .inside function last => reading.index.addReturn last function
    | _ => reading.index

/-- An instruction is known from now on, and may start a function. -/
def instruction (reading : Reading) (address : Address) (text : Text) : Reading :=
  let index := reading.index.addInstruction address text
  match reading.place with
  | .outside => ⟨.outside, index⟩
  | .opened function => ⟨.inside function address, index.addStart address function⟩
  | .inside function _ => ⟨.inside function address, index⟩

def line (reading : Reading) : Line → Reading
  | .label name => reading.label name
  | .instruction address text => reading.instruction address text
  | .noise => reading

end Reading

def Index.ofClassified (lines : List Line) : Index := (lines.foldl Reading.line {}).index

def Index.ofLines (lines : List Text) : Index := Index.ofClassified (lines.map Line.read)

/-- The addresses that instruction lines repeat, once for each line that does. -/
def repeatedAddresses (lines : List Line) : List Address :=
  (lines.foldl (fun (seen, repeated) line =>
    match line.instructionAddress? with
    | some address =>
      if seen.contains address then (seen, address :: repeated) else (seen.insert address, repeated)
    | none => (seen, repeated)) ((∅ : Std.HashSet Address), ([] : List Address))).2.reverse

end Lockstep.Listing
