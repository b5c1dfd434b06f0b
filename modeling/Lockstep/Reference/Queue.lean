import Lockstep.Reference.Record

/-! The reference trace as a queue of records, taken from the front only.

Loading keeps the records of a trace in order and drops what comes before the entry of
the program, if that is known. Where a trap marker is in front, `passTrap` takes the
marker and the record after it, and then every record up to the next one at a given
address, which stays in front. -/
namespace Lockstep.Reference

abbrev Queue := List Record

namespace Queue

def isAt (address : Address) (record : Record) : Bool := record.address? == some address

/-- The records of lines; lines that hold none, or a malformed one, do not matter. -/
def records (lines : List Text) : Queue :=
  lines.filterMap fun line => (Record.read line).toOption.join

/-- The queue from the first instruction at the start on, or all of it. -/
def fastForward (start : Option Address) (queue : Queue) : Queue :=
  match start with
  | some address => queue.dropWhile (!isAt address ·)
  | none => queue

/-- The queue that lines load. -/
def ofLines (start : Option Address) (lines : List Text) : Queue := (records lines).fastForward start

end Queue

/-- What it took to find the way back after a trap. -/
structure Detour where
  /-- Records dropped, the trap marker among them. -/
  discarded : Nat
  /-- Whether the address came again. -/
  found : Bool
  deriving DecidableEq, Repr

/-- Past a trap marker in front to the next instruction at an address. -/
def Queue.passTrap (address : Address) (queue : Queue) : Option Detour × Queue :=
  match queue with
  | [] => (none, queue)
  | head :: _ =>
    if head.isException then
      let skipped := (queue.drop 2).takeWhile (!isAt address ·)
      let rest := (queue.drop 2).dropWhile (!isAt address ·)
      (some ⟨(queue.take 2).length + skipped.length, !rest.isEmpty⟩, rest)
    else (none, queue)

end Lockstep.Reference
