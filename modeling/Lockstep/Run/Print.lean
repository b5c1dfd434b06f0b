import Lockstep.Printed
import Lockstep.Run.Basic

/-! The strings that a simulated program printed, taken out of a log by its path. -/
namespace Lockstep

/-- Writes the printed strings of a log, as far as it can be read. -/
def print (files : Files) (stamped : Bool) (path : Text) : Run Unit :=
  Run.within (.print path) do
    let log ← Run.openStream files .trace path
    let (isOpen, text) := Printed.extract stamped log.lines
    Run.write text
    Run.toEnd .trace log
    Run.log (if isOpen then [.unterminated] else [])

end Lockstep
