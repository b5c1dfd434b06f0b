import Lockstep.CommandLine.Arguments
import Lockstep.Run.Print

/-! The program: from arguments and files to what it writes and its exit code.

The report goes to standard output. Diagnostics go to standard error, and after them the
summary of a check, or the failure that ended the run. -/
namespace Lockstep.CommandLine

structure Effect where
  code : Nat := 0
  stdout : Text := []
  stderr : Text := []
  deriving DecidableEq, Repr

inductive Diagnostics where
  | off
  | upTo (level : Level)
  /-- As the arguments ask for it. -/
  | byVerbosity
  deriving DecidableEq, Repr

/-- The choice of levels for a request. Asking for more wins over asking for less. -/
def Diagnostics.choice (request : Request) : Diagnostics → Option Level
  | off => none
  | upTo level => some level
  | byVerbosity => some (if request.verbose then .debug else if request.silent then .error else .info)

def versionLine : Text := Text.line "revtrace 0.1.0".toList

/-! ### The summary of a check -/

def good (text : Text) : Text := Text.line ("✓ ".toList ++ text)
def alert (text : Text) : Text := Text.line ("! ".toList ++ text)
def bad (text : Text) : Text := Text.line ("✗ ".toList ++ text)
def detail (text : Text) : Text := Text.line ("  ".toList ++ text)

def counted (n : Nat) (what : String) : Text := Numeral.decimal n ++ what.toList

/-- A line that is left out when there is nothing to count. -/
def ifAny (n : Nat) (text : Text) : Text := if n = 0 then [] else text

/-- Whether every instruction was found, and at the reference's address. -/
def isClean (tally : Report.Tally) : Bool := tally.unlisted == 0 && tally.mismatched == 0

def headline (tally : Report.Tally) : Text :=
  let text := counted tally.records " records checked, " ++ counted tally.rows " resolved"
  if isClean tally then good text else alert text

def referenceLines (tally : Report.Tally) : Text :=
  detail (counted tally.matched " matches, " ++ counted tally.mismatched " mismatches, " ++
    counted tally.trapsPassed " resyncs, " ++
    counted tally.referenceLeft " reference records left") ++
  ifAny tally.trapsLost
    (alert ("lockstep lost after ".toList ++ counted tally.trapsLost " exception markers"))

def summaryLines (plan : Check.Plan) (tally : Report.Tally) : Text :=
  headline tally ++
    ifAny tally.unlisted (detail (counted tally.unlisted " PCs not found in asm file")) ++
    (if plan.reference.isSome then referenceLines tally else []) ++
    ifAny tally.malformed
      (detail (counted tally.malformed " malformed trace lines skipped")) ++
    (match plan.tick with
      | some tick => if tally.stackShown then []
          else alert ("clock tick ".toList ++ tick.decimal ++ " never reached".toList)
      | none => [])

/-! ### Running -/

/-- A run as the program shows it, with a last word on success. -/
def conclude {α : Type} (choice : Option Level) (run : Run α) (last : α → Text) : Effect :=
  let notes := Note.renderAll choice run.notes
  match run.result with
  | .ok value => { code := 0, stdout := run.output, stderr := notes ++ last value }
  | .error failure =>
    { code := 1, stdout := run.output, stderr := notes ++ bad failure.message }

/-- What a request does. A silent one has no summary. -/
def perform (files : Files) (diagnostics : Diagnostics) (request : Request) : Effect :=
  let choice := diagnostics.choice request
  match request.command with
  | .check plan =>
    conclude choice (check files plan) fun tally =>
      if request.silent then [] else summaryLines plan tally
  | .print log stamped => conclude choice (print files stamped log) fun _ => []

def execute (files : Files) (diagnostics : Diagnostics) (arguments : List Text) : Effect :=
  match parse arguments with
  | .ok request => perform files diagnostics request
  | .error .version => { stdout := versionLine }
  | .error .usage => { code := 2 }

end Lockstep.CommandLine
