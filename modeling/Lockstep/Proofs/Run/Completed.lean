import Lockstep.Proofs.Listing.Blocks
import Lockstep.Proofs.Run.Outcome
import Lockstep.Proofs.Stages

/-! Checks that complete.

A check completes exactly if all its inputs can be read to their ends (`Check.Reads`), and what
it counts and writes is then a function of the index, the reference and the lines of the log:
`yields_check`. Notes, and the order in which inputs are opened, do not come into it. The check of
one instruction at the end is what later results are tried on. -/
namespace Lockstep

namespace Run

variable {α : Type}

/-- A run completes with a value and has written a text. -/
def Yields (run : Run α) (value : α) (output : Text) : Prop :=
  run.result = .ok value ∧ run.output = output

theorem yields_iff_outcome {run : Run α} {value : α} {output : Text} :
    run.Yields value output ↔ run.outcome = (output, .ok value) := by
  rw [Yields, outcome, Prod.mk.injEq, and_comm]

theorem readAll_eq_ok_iff {stream : Stream} {lines : List Text} :
    stream.readAll = .ok lines ↔ stream.failure = none ∧ stream.lines = lines := by
  unfold Stream.readAll
  cases stream.failure <;> simp

end Run

theorem Stream.whole_eq_ok_iff {stream : Stream} {input : Input} {lines : List Text} :
    stream.whole input = .ok lines ↔ stream.readAll = .ok lines := by
  unfold whole readAll
  cases stream.failure <;> simp

/-- A path opens, and its lines can be read to the end. -/
def Files.Reads (files : Files) (path : Text) (lines : List Text) : Prop :=
  ∃ stream, files.openStream path = .ok stream ∧ stream.readAll = .ok lines

namespace Files

variable {files : Files} {input : Input} {path : Text}

theorem opened_eq_ok_iff {stream : Stream} :
    files.opened input path = .ok stream ↔ files.openStream path = .ok stream := by
  unfold opened
  cases files.openStream path <;> simp

theorem linesOf_eq_ok_iff {lines : List Text} :
    files.linesOf input path = .ok lines ↔ files.Reads path lines := by
  simp only [linesOf, Reads, bind_eq_ok_iff, opened_eq_ok_iff, Stream.whole_eq_ok_iff]

end Files

namespace Check

/-- What a check reads: the index, the reference from its start on, and the lines of the log. -/
structure Reads (files : Files) (plan : Plan) (index : Listing.Index)
    (queue : Option Reference.Queue) (lines : List Text) : Prop where
  trace : files.Reads plan.trace lines
  listing : ∃ listing, files.Reads plan.listing listing ∧ index = Listing.Index.ofLines listing
  reference : Option.Rel (fun path queue => ∃ reference, files.Reads path reference ∧
    queue = Reference.Queue.ofLines (index.entry? plan.entry) reference) plan.reference queue

open Run

theorem sources_eq_ok_iff {files : Files} {plan : Plan} {index : Listing.Index}
    {queue : Option Reference.Queue} :
    sources files plan = .ok (index, queue) ↔
      (∃ listing, files.Reads plan.listing listing ∧ index = Listing.Index.ofLines listing) ∧
      Option.Rel (fun path queue => ∃ reference, files.Reads path reference ∧
        queue = Reference.Queue.ofLines (index.entry? plan.entry) reference)
          plan.reference queue := by
  unfold sources
  simp only [bind_eq_ok_iff, map_eq_ok_iff, mapM_eq_ok_iff, Files.linesOf_eq_ok_iff]
  constructor
  · intro h
    obtain ⟨_, hlisting, _, hqueue, hpair⟩ := h
    cases hpair
    exact ⟨hlisting, hqueue⟩
  · intro h
    exact ⟨index, h.1, queue, h.2, rfl⟩

/-- **A check completes exactly if its inputs can be read, and what it counts and writes is
fixed by them.** -/
theorem yields_check {files : Files} {plan : Plan} {counted : Report.Tally} {output : Text} :
    (check files plan).Yields counted output ↔ ∃ index queue lines,
      Reads files plan index queue lines ∧ counted = tally plan index queue lines ∧
        output = Report.render plan.options (entries plan index queue lines) := by
  simp only [yields_iff_outcome, outcome_check, onward_eq_ok_iff, Files.opened_eq_ok_iff,
    Prod.exists, Prod.mk.injEq, sources_eq_ok_iff, map_eq_ok_iff, Stream.whole_eq_ok_iff]
  constructor
  · intro h
    obtain ⟨log, hopen, index, queue, ⟨hlisting, hreference⟩, rfl, lines, hread, rfl⟩ := h
    obtain ⟨_, hlines⟩ := readAll_eq_ok_iff.mp hread
    exact ⟨index, queue, lines, ⟨⟨log, hopen, hread⟩, hlisting, hreference⟩, rfl, hlines ▸ rfl⟩
  · intro h
    obtain ⟨index, queue, lines, ⟨⟨log, hopen, hread⟩, hlisting, hreference⟩, rfl, rfl⟩ := h
    obtain ⟨_, hlines⟩ := readAll_eq_ok_iff.mp hread
    exact ⟨log, hopen, index, queue, ⟨hlisting, hreference⟩, hlines ▸ rfl, lines, hread, rfl⟩

/-! ### One instruction -/

def bytes (text : Text) : List UInt8 := text.map (·.toNat.toUInt8)

def listingLines : List Text :=
  ["0000000000010000 <main>:".toList, "   10000:\t1141\taddi\tsp,sp,-16".toList]

def logLine : Text :=
  "RevCPU[cpu0:Render:42]: Core 0; Hart 0; Thread 1]; *I 0x10000:1141 c.addi sp, -16".toList

def referenceLine : Text := "core   0: 0x0000000000010000 (0x00001141) c.addi  sp, -16".toList

def inputs : Files := Tree.files
  [(["listing".toList], .file (bytes (listingLines.flatMap Text.line))),
    (["log".toList], .file (bytes logLine.line)),
    (["reference".toList], .file (bytes referenceLine.line))]

/-- A comparison that also asks for the call stack. -/
def asked : Plan :=
  { listing := "listing".toList, trace := "log".toList, reference := some "reference".toList
    tick := some 42 }

def fetched : Trace.Executed := ⟨0x10000, "0x10000:1141 c.addi sp, -16".toList, some 42, .render⟩

def expected : Reference.Record := ⟨.instruction 0x10000, referenceLine⟩

theorem reads_inputs :
    Reads inputs asked (Listing.Index.ofLines listingLines) (some [expected]) [logLine] where
  trace := ⟨_, rfl, by decide +kernel⟩
  listing := ⟨listingLines, ⟨_, rfl, by decide +kernel⟩, rfl⟩
  reference := by
    refine .some ⟨[referenceLine], ⟨_, rfl, by decide +kernel⟩, ?_⟩
    rw [Listing.Index.ofLines, Listing.entry?_ofClassified]
    decide +kernel

def listed : Listing.Instruction := ⟨0x10000, "10000:\t1141\taddi\tsp,sp,-16".toList⟩

theorem instruction?_fetched :
    (Listing.Index.ofLines listingLines).instruction? fetched.address = some listed := by
  rw [Listing.instruction?_ofLines]
  decide

end Check

end Lockstep
