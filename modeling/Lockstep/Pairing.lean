import Lockstep.Listing.Index
import Lockstep.Reference.Queue
import Lockstep.Trace.Executed

/-! Executed instructions beside the listing, and beside a reference trace if there is one.

Without a reference an instruction is found in the listing or not. With one, the two
traces are stepped together, one record of the reference for each executed instruction,
and addresses are compared: the text of an instruction never is. A trap marker in front of
the queue is passed first, because the simulator does not trace what a trap's handler
does. -/
namespace Lockstep

/-- Whether the two traces are at one address. -/
inductive Verdict where
  | matching
  | mismatching
  deriving DecidableEq, Repr

def Verdict.sign : Verdict → Text
  | matching => ['+']
  | mismatching => ['-']

def Verdict.of (agree : Bool) : Verdict := if agree then matching else mismatching

/-- What an executed instruction is paired with. -/
inductive Row where
  /-- The listing's text; there is no reference. -/
  | listed (text : Text)
  /-- The listing's text and the reference record, if the reference has one left. -/
  | paired (verdict : Verdict) (text : Text) (reference : Option Reference.Record)
  /-- Nothing: the listing does not have the address. -/
  | unlisted
  deriving DecidableEq, Repr

structure Finding where
  row : Row
  /-- How a trap was passed, if one was in front. -/
  detour : Option Reference.Detour := none
  /-- Whether this is the first instruction that finds the reference empty. -/
  exhausted : Bool := false
  deriving DecidableEq, Repr

/-- The reference between two executed instructions. -/
structure Follower where
  /-- The records still to come, if there is a reference. -/
  reference : Option Reference.Queue := none
  /-- Whether the reference was found empty before. -/
  exhausted : Bool := false
  deriving DecidableEq, Repr

namespace Follower

def left (follower : Follower) : Nat := (follower.reference.map List.length).getD 0

/-- The row beside the record in front of a reference, or beside none if it is empty. -/
def pairedRow (index : Listing.Index) (address : Address) (head : Option Reference.Record) : Row :=
  match index.instruction? address with
  | some known => .paired (.of (head.any (Reference.Queue.isAt address))) known.text head
  | none => .unlisted

def listedRow (index : Listing.Index) (address : Address) : Row :=
  match index.instruction? address with
  | some known => .listed known.text
  | none => .unlisted

/-- One executed instruction. With a reference, its front record is used up whether or not
the listing has the address. -/
def step (index : Listing.Index) (follower : Follower) (record : Trace.Executed) :
    Follower × Finding :=
  match follower.reference with
  | none => (follower, { row := listedRow index record.address })
  | some queue =>
    let (detour, queue) := queue.passTrap record.address
    let empty := queue.isEmpty
    ({ reference := some queue.tail, exhausted := follower.exhausted || empty },
      { row := pairedRow index record.address queue.head?
        detour
        exhausted := empty && !follower.exhausted })

end Follower

end Lockstep
