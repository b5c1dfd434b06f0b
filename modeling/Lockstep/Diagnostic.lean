import Lockstep.CallStack
import Lockstep.Pairing

/-! Diagnostics: what happens during a run, and the lines that tell of it.

An event has a level, a message and named values, all by what it is. It is noted together
with the work it happens in, of which an outer part may have inner parts. A note is shown if
its event's level is not finer than the one chosen; works count as information, so a choice
below that leaves them out. -/
namespace Lockstep

/-! ### Levels -/

inductive Level where
  | error
  | warn
  | info
  | debug
  | trace
  deriving DecidableEq, Repr

namespace Level

def rank : Level → Nat
  | error => 0
  | warn => 1
  | info => 2
  | debug => 3
  | trace => 4

/-- The level's name, right-aligned in five characters. -/
def label : Level → Text
  | error => "ERROR".toList
  | warn => " WARN".toList
  | info => " INFO".toList
  | debug => "DEBUG".toList
  | trace => "TRACE".toList

def shown (choice level : Level) : Bool := level.rank ≤ choice.rank

end Level

/-! ### Events -/

inductive Event where
  /-- A line of the listing is for an address that an earlier line was for. -/
  | repeatedAddress (address : Address)
  | indexed (path : Text) (instructions functions : Nat)
  | entryFound (symbol : Text) (address : Address)
  | entryMissing (symbol : Text)
  | referenceSkipped (cause : Malformed)
  /-- The reference comes to the address to start at. -/
  | startReached (address : Address)
  | startMissed (address : Address)
  | referenceLoaded (records skipped : Nat)
  | traceSkipped (cause : Malformed)
  /-- A trap of the reference was in front. -/
  | trapPassed (address : Address) (detour : Reference.Detour)
  | exhausted (address : Address)
  /-- A function's last instruction was executed. -/
  | functionExit (address : Address) (exit : Exit)
  /-- A function's first instruction was executed. -/
  | functionEntry (address : Address) (function : Text)
  /-- No instruction carried the tick asked for. -/
  | tickMissed (tick : Tick)
  | complete (records unlisted mismatched : Nat)
  /-- The log ends while a printed string is open. -/
  | unterminated
  deriving DecidableEq, Repr

/-- A named value beside a message. -/
structure Field where
  name : Text
  value : Text
  deriving DecidableEq, Repr

namespace Field

def text (name : String) (value : Text) : Field := ⟨name.toList, value⟩

def number (name : String) (value : Nat) : Field := ⟨name.toList, Numeral.decimal value⟩

def flag (name : String) (value : Bool) : Field :=
  ⟨name.toList, if value then "true".toList else "false".toList⟩

/-- An address between quotation marks. -/
def address (value : Address) : Field := ⟨"addr".toList, ['"'] ++ value.marked ++ ['"']⟩

def render (field : Field) : Text := ' ' :: field.name ++ '=' :: field.value

end Field

namespace Event

def level : Event → Level
  | entryMissing _ | startMissed _ | exhausted _ | tickMissed _ | unterminated => .warn
  | entryFound .. | startReached _ | complete .. => .info
  | functionExit .. | functionEntry .. => .trace
  | _ => .debug

def message : Event → String
  | repeatedAddress _ => "duplicate listing address"
  | indexed .. => "indexed disassembly"
  | entryFound .. => "found start in asm"
  | entryMissing _ => "entry symbol not found in asm, reference will not be fast-forwarded"
  | referenceSkipped _ => "skipping reference line"
  | startReached _ => "found start in reference trace"
  | startMissed _ => "start address never reached in reference trace"
  | referenceLoaded .. => "reference trace loaded"
  | traceSkipped _ => "skipping malformed trace line"
  | trapPassed .. => "resynchronized after exception"
  | exhausted _ => "reference trace exhausted"
  | functionExit .. => "function exit"
  | functionEntry .. => "function entry"
  | tickMissed _ => "call stack tick never reached"
  | complete .. => "check complete"
  | unterminated => "log ended inside an unterminated <rev-print> string"

def fields : Event → List Field
  | repeatedAddress address | startReached address | startMissed address | exhausted address =>
    [.address address]
  | indexed path instructions functions =>
    [.text "path" path, .number "instructions" instructions, .number "functions" functions]
  | entryFound symbol address => [.text "symbol" symbol, .address address]
  | entryMissing symbol => [.text "symbol" symbol]
  | referenceSkipped cause | traceSkipped cause => [.text "error" cause.message]
  | referenceLoaded records skipped => [.number "records" records, .number "skipped" skipped]
  | trapPassed address detour =>
    [.address address, .number "discarded" detour.discarded, .flag "found" detour.found]
  | functionExit address exit =>
    [.address address, .text "function" exit.function, .flag "popped" exit.popped]
  | functionEntry address function => [.address address, .text "function" function]
  | tickMissed tick => [.text "tick" tick.decimal]
  | complete records unlisted mismatched =>
    [.number "records" records, .number "unindexed" unlisted, .number "mismatches" mismatched]
  | unterminated => []

end Event

/-! ### Notes -/

/-- What is being done while something happens. -/
inductive Work where
  | check (trace : Text)
  | indexing
  | loading
  | print (log : Text)
  deriving DecidableEq, Repr

def Work.label : Work → Text
  | check trace => "check\x7btrace=".toList ++ trace ++ "\x7d".toList
  | indexing => "index_asm".toList
  | loading => "load_reference".toList
  | print log => "print\x7blog=".toList ++ log ++ "\x7d".toList

/-- An event and the work it happened in, the outermost first. -/
structure Note where
  event : Event
  work : List Work := []
  deriving DecidableEq, Repr

namespace Note

def within (work : Work) (note : Note) : Note := { note with work := work :: note.work }

/-- Where the event happened, if the choice of levels shows that. -/
def place (choice : Level) (note : Note) : Text :=
  if choice.shown .info && !note.work.isEmpty
  then List.intercalate [':'] (note.work.map Work.label) ++ ": ".toList
  else []

/-- The note's line under a choice of levels. -/
def render (choice : Level) (note : Note) : Text :=
  (note.event.level.label ++ ' ' :: note.place choice ++ note.event.message.toList ++
    note.event.fields.flatMap Field.render).line

def renderAll (choice : Option Level) (notes : List Note) : Text :=
  match choice with
  | none => []
  | some choice => (notes.filter fun note => choice.shown note.event.level).flatMap (render choice)

end Note

end Lockstep
