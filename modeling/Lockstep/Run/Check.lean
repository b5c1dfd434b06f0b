import Lockstep.History
import Lockstep.Report.Entry
import Lockstep.Report.Tally
import Lockstep.Run.Basic

/-! A check of a simulator's log against a listing and, if there is one, a reference.

Every input is opened, and listing and reference are read, before anything is written. The
log is then read line by line, by a machine whose state is the reference still to come and
the call stack. Report, counters and diagnostics are three views of the machine's answers
(`Step`); a line that is no record, or a malformed one, does not move the machine. -/
namespace Lockstep

namespace Check

/-- The inputs of a check and what is asked of it. -/
structure Plan where
  listing : Text
  trace : Text
  /-- With a reference, the check compares two traces. -/
  reference : Option Text := none
  /-- The clock tick whose call stack is asked for; rows are then left out. -/
  tick : Option Tick := none
  /-- The function at the root of the call stack, where the reference is taken up. -/
  entry : Text := "main".toList
  /-- Whether render lines of the log are shown. -/
  echo : Bool := true
  deriving DecidableEq, Repr

def Plan.options (plan : Plan) : Report.Options :=
  { rows := plan.tick.isNone, logged := plan.echo }

/-- What a line of the log brought. -/
inductive Step where
  /-- It is about something else. -/
  | foreign
  /-- It should hold a record and does not. -/
  | malformed (cause : Malformed)
  /-- It tells of an executed instruction. -/
  | executed (line : Text) (record : Trace.Executed) (finding : Finding)
      (movement : Movement)
  deriving DecidableEq, Repr

structure Machine where
  follower : Follower
  watch : Watch
  deriving DecidableEq, Repr

namespace Machine

def start (plan : Plan) (reference : Option Reference.Queue) : Machine where
  follower := { reference }
  watch := { stack := { root := plan.entry }, query := plan.tick }

/-- One line of the log. -/
def step (index : Listing.Index) (machine : Machine) (line : Text) : Machine × Step :=
  match Trace.Executed.read line with
  | .error cause => (machine, .malformed cause)
  | .ok none => (machine, .foreign)
  | .ok (some record) =>
    let (follower, finding) := machine.follower.step index record
    let (watch, movement) := machine.watch.step index record
    (⟨follower, watch⟩, .executed line record finding movement)

end Machine

/-! ### Three views of a step -/

def Step.entries : Step → List Report.Entry
  | .executed line record finding movement =>
    (if record.dialect = .render then [.logged line] else []) ++
      Report.findingEntries record.address record.text finding ++
      (movement.snapshot.map .stack).toList
  | _ => []

def Step.count (tally : Report.Tally) : Step → Report.Tally
  | .foreign => tally
  | .malformed _ => { tally with malformed := tally.malformed + 1 }
  | .executed _ _ finding movement =>
    let counted := tally.countFinding finding
    { counted with
      records := counted.records + 1
      stackShown := counted.stackShown || movement.snapshot.isSome }

def Step.events : Step → List Event
  | .foreign => []
  | .malformed cause => [.traceSkipped cause]
  | .executed _ record finding movement =>
    (finding.detour.map (.trapPassed record.address)).toList ++
      (if finding.exhausted then [.exhausted record.address] else []) ++
      (movement.exit.map (.functionExit record.address)).toList ++
      (movement.entry.map (.functionEntry record.address)).toList

/-- The counters after some steps and the reference that they left. -/
def tallyOf (steps : List Step) (machine : Machine) : Report.Tally :=
  { steps.foldl Step.count {} with referenceLeft := machine.follower.left }

def listingEvents (path : Text) (lines : List Listing.Line) (index : Listing.Index) : List Event :=
  (Listing.repeatedAddresses lines).map .repeatedAddress ++
    [.indexed path index.size index.functions]

def entryEvent (symbol : Text) : Option Address → Event
  | some address => .entryFound symbol address
  | none => .entryMissing symbol

/-- What is said about a line of the reference, and whether the start was reached. -/
def referenceEvent (start : Option Address) (reached : Bool) (line : Text) : Bool × List Event :=
  match Reference.Record.read line with
  | .error cause => (reached, [.referenceSkipped cause])
  | .ok none => (reached, [])
  | .ok (some record) =>
    match start with
    | some address =>
      if !reached && Reference.Queue.isAt address record
      then (true, [.startReached address])
      else (reached, [])
    | none => (reached, [])

def referenceEvents (start : Option Address) (lines : List Text) (queue : Reference.Queue) :
    List Event :=
  let (reached, said) := history (referenceEvent start) false lines
  let skipped := lines.countP fun line => !(Reference.Record.read line).isOk
  said.flatten ++ (if reached then [] else (start.map .startMissed).toList) ++
    [.referenceLoaded queue.length skipped]

def finalEvents (plan : Plan) (tally : Report.Tally) : List Event :=
  (if tally.stackShown then [] else (plan.tick.map .tickMissed).toList) ++
    [.complete tally.records tally.unlisted tally.mismatched]

/-! ### The run -/

/-- The reference's queue from the start on. -/
def loadReference (start : Option Address) (stream : Stream) : Run Reference.Queue := do
  let lines ← Run.readLines .reference stream
  let queue := Reference.Queue.ofLines start lines
  Run.log (referenceEvents start lines queue)
  return queue

def loadListing (files : Files) (path : Text) : Run Listing.Index := do
  let stream ← Run.openStream files .listing path
  let lines := (← Run.readLines .listing stream).map Listing.Line.read
  let index := Listing.Index.ofClassified lines
  Run.log (listingEvents path lines index)
  return index

/-- The log read line by line, as far as it can be read. -/
def follow (plan : Plan) (index : Listing.Index) (queue : Option Reference.Queue)
    (trace : Stream) : Run Report.Tally := do
  let (machine, steps) := history (Machine.step index) (Machine.start plan queue) trace.lines
  Run.write (Report.render plan.options (steps.flatMap Step.entries))
  Run.log (steps.flatMap Step.events)
  Run.toEnd .trace trace
  let tally := tallyOf steps machine
  Run.log (finalEvents plan tally)
  return tally

end Check

def check (files : Files) (plan : Check.Plan) : Run Report.Tally :=
  Run.within (.check plan.trace) do
    let trace ← Run.openStream files .trace plan.trace
    let index ← Run.within .indexing (Check.loadListing files plan.listing)
    let reference ← plan.reference.mapM (Run.openStream files .reference)
    let start := index.entry? plan.entry
    Run.log [Check.entryEvent plan.entry start]
    let queue ← Run.within .loading (reference.mapM (Check.loadReference start))
    Run.write (Report.render plan.options (if queue.isSome then [.heading] else []))
    Check.follow plan index queue trace

end Lockstep
