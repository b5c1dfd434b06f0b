import Lockstep.Listing.Index
import Lockstep.Trace.Executed

/-! The call stack, rebuilt from the executed addresses and the listing's labels alone.

The first instruction of a function pushes its label and the last one pops, first the pop
and then the push where an address is both. The frame at the root is never popped, by the
type: a stack is its root and the frames above it. One query is answered, by the stack at
the first instruction that carries the tick asked for. -/
namespace Lockstep

structure CallStack where
  root : Text
  /-- The frames above the root, the top first. -/
  above : List Text := []
  deriving DecidableEq, Repr

namespace CallStack

def push (label : Text) (stack : CallStack) : CallStack := { stack with above := label :: stack.above }

/-- The stack without its top frame; a root alone stays. -/
def pop (stack : CallStack) : CallStack := { stack with above := stack.above.tail }

/-- The frame that a pop takes. -/
def popped? (stack : CallStack) : Option Text := stack.above.head?

def depth (stack : CallStack) : Nat := stack.above.length + 1

def top (stack : CallStack) : Text := stack.above.headD stack.root

def labels (stack : CallStack) : List Text := stack.root :: stack.above.reverse

end CallStack

/-- The stack at a queried tick. -/
structure Snapshot where
  tick : Tick
  address : Address
  frames : List Text
  deriving DecidableEq, Repr

/-- A function's last instruction was executed. -/
structure Exit where
  function : Text
  /-- Whether a frame went with it. -/
  popped : Bool
  deriving DecidableEq, Repr

/-- What one executed instruction does to the stack, and what it answers. -/
structure Movement where
  exit : Option Exit := none
  /-- The function whose first instruction was executed. -/
  entry : Option Text := none
  snapshot : Option Snapshot := none
  deriving DecidableEq, Repr

structure Watch where
  stack : CallStack
  query : Option Tick := none
  answered : Bool := false
  deriving DecidableEq, Repr

namespace Watch

def leave (index : Listing.Index) (address : Address) (stack : CallStack) : CallStack :=
  match index.return? address with
  | some _ => stack.pop
  | none => stack

def enter (index : Listing.Index) (address : Address) (stack : CallStack) : CallStack :=
  match index.start? address with
  | some start => stack.push start.label
  | none => stack

def move (index : Listing.Index) (address : Address) (stack : CallStack) : CallStack :=
  enter index address (leave index address stack)

/-- The tick that an instruction answers: the one asked for, if it was not answered before. -/
def due? (watch : Watch) (record : Trace.Executed) : Option Tick :=
  if watch.answered || watch.query != record.tick then none else watch.query

def step (index : Listing.Index) (watch : Watch) (record : Trace.Executed) :
    Watch × Movement :=
  let stack := move index record.address watch.stack
  let due := watch.due? record
  ({ watch with stack, answered := watch.answered || due.isSome },
    { exit := (index.return? record.address).map fun last =>
        ⟨last.label, watch.stack.popped?.isSome⟩
      entry := (index.start? record.address).map Listing.Boundary.label
      snapshot := due.map fun tick => ⟨tick, record.address, stack.labels⟩ })

end Watch

end Lockstep
