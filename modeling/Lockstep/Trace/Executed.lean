import Lockstep.Address
import Lockstep.Malformed

/-! Executed instructions, read from the lines of a simulator's log.

Each field is looked for from the start of the line, so fields may come in any order; the
first field that is missing or bad decides what is wrong with the line. A line in neither
dialect holds no record, and nothing is wrong with it. -/
namespace Lockstep.Trace

structure Executed where
  address : Address
  /-- The instruction as the log disassembles it, without blanks around it. -/
  text : Text
  /-- The clock tick, on lines that carry one. -/
  tick : Option Tick
  dialect : Dialect
  deriving DecidableEq, Repr

namespace Dialect

/-- Stands before the program counter of a deep line. -/
def counterField : Text := "PC = ".toList

/-- Stands before the instruction of a deep line. -/
def instructionField : Text := "Inst:".toList

/-- Stands before the instruction of a render line, which begins with its address. -/
def fetchField : Text := "*I ".toList

def tickEnd : Text := "]".toList

def addressEnd : Text := ":".toList

/-- What follows a field of a line. -/
def after (dialect : Dialect) (field line : Text) : Except Malformed Text :=
  match Text.after? field line with
  | some rest => .ok rest
  | none => .error (.missingField dialect field)

/-- What a field holds up to the mark that ends it. -/
def before (dialect : Dialect) (mark rest : Text) : Except Malformed Text :=
  match Text.before? mark rest with
  | some token => .ok token
  | none => .error (.missingField dialect mark)

def address (token : Text) : Except Malformed Address :=
  match Address.read? token with
  | some address => .ok address
  | none => .error (.invalidAddress token)

def tick (token : Text) : Except Malformed Tick :=
  match Tick.read? token with
  | some tick => .ok tick
  | none => .error (.invalidTick token)

def readDeep (line : Text) : Except Malformed Executed := do
  let counter ← deep.after counterField line
  let address ← Dialect.address (counter.upTo ' ')
  let text ← deep.after instructionField line
  return { address, text := text.trim, tick := none, dialect := deep }

/-- The record of a render line. The instruction ends at the first tab. -/
def readRender (line : Text) : Except Malformed Executed := do
  let rendered ← render.after renderMark line
  let token ← render.before tickEnd rendered
  let tick ← Dialect.tick token.trim
  let fetched ← render.after fetchField line
  let token ← render.before addressEnd fetched
  let address ← Dialect.address token
  return { address, text := (fetched.upTo '\t').trim, tick := some tick, dialect := render }

def read (line : Text) : Dialect → Except Malformed Executed
  | deep => readDeep line
  | render => readRender line

end Dialect

/-- The record of a line, if the line is in one of the dialects. -/
def Executed.read (line : Text) : Except Malformed (Option Executed) :=
  match Dialect.of? line with
  | some dialect => (dialect.read line).map some
  | none => .ok none

end Lockstep.Trace
