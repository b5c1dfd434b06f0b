import Lockstep.CommandLine.Program

/-! The program over the real file system: reads the files that the arguments name, and
writes what `execute` says. -/
namespace Lockstep.CommandLine

/-- The number of an error and what it says. -/
def errorParts : IO.Error → UInt32 × String
  | .noFileOrDirectory _ code details => (code, details)
  | .noSuchThing _ code details => (code, details)
  | .inappropriateType _ code details => (code, details)
  | .permissionDenied _ code details => (code, details)
  | .invalidArgument _ code details => (code, details)
  | .resourceExhausted _ code details => (code, details)
  | .hardwareFault code details => (code, details)
  | .otherError code details => (code, details)
  | error => (0, toString error)

/-- The operating system's error behind a failure. Its number may come with a minus sign. -/
def systemError (error : IO.Error) : SystemError :=
  let (code, details) := errorParts error
  let number := if code < 0x80000000 then code else 0 - code
  let known : List SystemError := [.notFound, .notDirectory, .isDirectory, .nameTooLong]
  (known.find? (·.code == number.toNat)).getD ⟨number.toNat, details.toList⟩

/-- What opening and reading a file gives. -/
def readFile (path : Text) : IO (Except OpenError Stream) := do
  if hasNul path then return .error .nulInPath
  try
    let bytes ← IO.FS.readBinFile (String.ofList path)
    return .ok { bytes := bytes.toList }
  catch error =>
    let error := systemError error
    return if error = .isDirectory then .ok .directory else .error (.system error)

/-- The paths that a command reads. -/
def Command.paths : Command → List Text
  | .check plan => plan.trace :: plan.listing :: plan.reference.toList
  | .print log _ => [log]

/-- The files that arguments name, as they are now. -/
def readFiles (arguments : List Text) : IO Files := do
  let paths := match parse arguments with
    | .ok request => request.command.paths
    | .error _ => []
  let read ← paths.mapM fun path => return (path, ← readFile path)
  return {
    find := fun path => ((read.find? (·.1 == path)).map Prod.snd).getD (.error (.system .notFound))
    decode := Zstd.decoder }

/-- The choice of diagnostics that the environment makes. -/
def environmentDiagnostics (setting : Option String) : Diagnostics :=
  match setting with
  | some "error" => .upTo .error
  | some "warn" => .upTo .warn
  | some "info" => .upTo .info
  | some "debug" => .upTo .debug
  | some "trace" => .upTo .trace
  | some "off" => .off
  | _ => .byVerbosity

end Lockstep.CommandLine

open Lockstep.CommandLine in
def main (arguments : List String) : IO UInt32 := do
  let arguments := arguments.map String.toList
  let files ← readFiles arguments
  let diagnostics := environmentDiagnostics (← IO.getEnv "LOCKSTEP_LOG")
  let effect := execute files diagnostics arguments
  IO.print (String.ofList effect.stdout)
  IO.eprint (String.ofList effect.stderr)
  return effect.code.toUInt32
