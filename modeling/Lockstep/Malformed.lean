import Lockstep.Trace.Dialect

/-! What can be wrong with a line that should hold a record. -/
namespace Lockstep

/-- Why a line has no record although it looks like one. -/
inductive Malformed where
  | missingField (dialect : Trace.Dialect) (field : Text)
  /-- A token stands where an address should. -/
  | invalidAddress (token : Text)
  | invalidTick (token : Text)
  deriving DecidableEq, Repr

def Text.quoted (text : Text) : Text := "`".toList ++ text ++ "`".toList

/-- The defect in words. -/
def Malformed.message : Malformed → Text
  | missingField dialect field => dialect.name ++ " line is missing ".toList ++ field.quoted
  | invalidAddress token => "invalid address ".toList ++ token.quoted
  | invalidTick token => "invalid clock tick ".toList ++ token.quoted

end Lockstep
