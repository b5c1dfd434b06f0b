import Lockstep.History
import Lockstep.Text.Digit
import Lockstep.Text.Pieces

/-! Strings that the simulated program printed, taken out of a simulator's log.

A string stands between an opening and a closing tag, on one line or over many. What a line
contributes is the first of these that applies: what is between its first opening tag and
its last closing tag; what is before its last closing tag; what is after its first opening
tag, on a line of its own; the whole line, while a string is open; nothing. So a line is
about one string, and a closing tag always closes. A text handed in with line feeds in it is
searched for closing tags one physical line at a time. -/
namespace Lockstep.Printed

def openTag : Text := "<rev-print>".toList

def closeTag : Text := "</rev-print>".toList

/-- The text between the first opening tag and the last closing tag of a physical line. -/
def enclosed? (line : Text) : Option Text := do
  let inside ← Text.after? openTag line
  let (text, _) ← Text.splitLast closeTag inside
  return text

/-- The text before the last closing tag of a physical line. -/
def closed? (line : Text) : Option Text := (Text.splitLast closeTag line).map Prod.fst

/-- The text after the first opening tag, up to the end of its physical line. -/
def opened? (line : Text) : Option Text := (Text.after? openTag line).map (·.upTo '\n')

/-- Stands between a tick and an opening tag on the same line. -/
def stampEnd : Text := "]: ".toList ++ openTag

/-- Whether a text begins with digits and then the stamp's end. -/
def isStamp (text : Text) : Bool :=
  text.head?.any Text.isDecimalDigit &&
    stampEnd.isPrefixOf (text.dropWhile Text.isDecimalDigit)

/-- The digits of the first stamp that a colon comes before. -/
def stamp? : Text → Option Text
  | [] => none
  | c :: rest =>
    if c == ':' && isStamp rest then some (rest.takeWhile Text.isDecimalDigit) else stamp? rest

def stampLine (line : Text) : Text :=
  match stamp? line with
  | some digits => Text.line ('#' :: digits)
  | none => []

/-- Whether a string is open after a line, and what the line contributes. -/
def step (stamped : Bool) (isOpen : Bool) (line : Text) : Bool × Text :=
  let physical := pieces (· == '\n') line
  match physical.findSome? enclosed? with
  | some text => (false, text)
  | none =>
    match physical.findSome? closed? with
    | some text => (false, text)
    | none =>
      match opened? line with
      | some text => (true, (if stamped then stampLine line else []) ++ text.line)
      | none => (isOpen, if isOpen then line.line else [])

/-- Whether a string is open after all lines of a log, and all that they contribute. -/
def extract (stamped : Bool) (lines : List Text) : Bool × Text :=
  let (isOpen, texts) := history (step stamped) false lines
  (isOpen, texts.flatten)

end Lockstep.Printed
