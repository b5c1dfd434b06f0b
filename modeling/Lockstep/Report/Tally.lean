import Lockstep.Pairing

/-! The counters of a check. -/
namespace Lockstep.Report

structure Tally where
  /-- Executed instructions in the log. -/
  records : Nat := 0
  /-- Those that the listing has. -/
  rows : Nat := 0
  /-- Those at the reference's address. -/
  matched : Nat := 0
  /-- Those at another address than the reference, or beyond its end. -/
  mismatched : Nat := 0
  /-- Those that the listing does not have. -/
  unlisted : Nat := 0
  trapsPassed : Nat := 0
  /-- Traps after which the way back was not found. -/
  trapsLost : Nat := 0
  malformed : Nat := 0
  /-- Whether the call stack asked for was reported. -/
  stackShown : Bool := false
  /-- Records of the reference that were not used. -/
  referenceLeft : Nat := 0
  deriving DecidableEq, Repr

namespace Tally

def countDetour (detour : Reference.Detour) (tally : Tally) : Tally :=
  if detour.found then { tally with trapsPassed := tally.trapsPassed + 1 }
  else { tally with trapsLost := tally.trapsLost + 1 }

def countRow (tally : Tally) : Row → Tally
  | .listed _ => { tally with rows := tally.rows + 1 }
  | .paired .matching _ _ => { tally with rows := tally.rows + 1, matched := tally.matched + 1 }
  | .paired .mismatching _ _ =>
    { tally with rows := tally.rows + 1, mismatched := tally.mismatched + 1 }
  | .unlisted => { tally with unlisted := tally.unlisted + 1 }

/-- What a finding adds to the counters of traps and rows. -/
def countFinding (tally : Tally) (finding : Finding) : Tally :=
  (finding.detour.elim tally (countDetour · tally)).countRow finding.row

end Tally

end Lockstep.Report
