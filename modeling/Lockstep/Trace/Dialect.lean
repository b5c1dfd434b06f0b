import Lockstep.Text.Basic

/-! The two forms in which a simulator's log shows an executed instruction.

A line is in the deep form when it has the marker of that form, whatever else it holds.
A line without that marker is in the render form when it has both marks of that form.
Every other line of a log is about something else. -/
namespace Lockstep.Trace

inductive Dialect where
  /-- Program counter and instruction in named fields; no clock. -/
  | deep
  /-- The renderer's line: clock tick, core and disassembled instruction. -/
  | render
  deriving DecidableEq, Repr

namespace Dialect

/-- The dialect as error messages name it. -/
def name : Dialect → Text
  | deep => "deep-trace".toList
  | render => "render".toList

/-- Marks a deep line. -/
def executedMark : Text := "RDT: Executed".toList

/-- Marks a render line, and stands before its tick. -/
def renderMark : Text := "Render:".toList

/-- Marks a render line too. -/
def coreMark : Text := "Core".toList

/-- Whether a line has the marks of a dialect. -/
def marks (line : Text) : Dialect → Bool
  | deep => Text.includes executedMark line
  | render => Text.includes renderMark line && Text.includes coreMark line

/-- The dialect of a line; a deep line is not looked at for the marks of the other form. -/
def of? (line : Text) : Option Dialect :=
  if deep.marks line then some deep
  else if render.marks line then some render
  else none

end Dialect

end Lockstep.Trace
