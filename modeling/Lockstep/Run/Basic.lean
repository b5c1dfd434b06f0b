import Lockstep.Diagnostic
import Lockstep.Source.Files

/-! Runs: what a computation over inputs says, writes and results in.

A run that fails keeps what it said and wrote before. Runs are sequenced like actions: the
second one starts only if the first one succeeds, and its notes and output follow. -/
namespace Lockstep

structure Run (α : Type) where
  /-- What happened, in order. -/
  notes : List Note := []
  /-- What was written. -/
  output : Text := []
  result : Except Failure α

namespace Run

variable {α β : Type}

/-- A run that only has a result. -/
def done (value : α) : Run α := { result := .ok value }

/-- One run and then another on its result. -/
def andThen (run : Run α) (next : α → Run β) : Run β :=
  match run.result with
  | .error failure => ⟨run.notes, run.output, .error failure⟩
  | .ok value =>
    let rest := next value
    ⟨run.notes ++ rest.notes, run.output ++ rest.output, rest.result⟩

instance : Monad Run where
  pure := done
  bind := andThen

/-- A run that fails. -/
def fail (failure : Failure) : Run α := { result := .error failure }

/-- A run that says something. -/
def log (events : List Event) : Run Unit := { notes := events.map ({ event := · }), result := .ok () }

/-- A run that writes something. -/
def write (output : Text) : Run Unit := { output, result := .ok () }

/-- The run as part of some outer work. -/
def within (work : Work) (run : Run α) : Run α :=
  { run with notes := run.notes.map (Note.within work) }

/-- Opens an input. -/
def openStream (files : Files) (input : Input) (path : Text) : Run Stream :=
  match files.openStream path with
  | .ok stream => done stream
  | .error cause => fail (.opening input path cause)

/-- Fails if an input broke off. -/
def toEnd (input : Input) (stream : Stream) : Run Unit :=
  match stream.failure with
  | none => done ()
  | some cause => fail (.reading input cause)

/-- All lines of an input. -/
def readLines (input : Input) (stream : Stream) : Run (List Text) := do
  toEnd input stream
  return stream.lines

end Run

end Lockstep
