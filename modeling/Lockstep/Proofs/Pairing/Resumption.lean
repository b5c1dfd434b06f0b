import Lockstep.Proofs.Pairing.Course
import Lockstep.Proofs.Reference.Lines

/-! A trap in the lines of a reference, and the way back.

The reference tells of a trap by its own line, a detail line of four words, the lines of the
handler's instructions, and the line of the instruction that the log goes on with. The detail
line is too short to load a record, so the record that goes with the marker is the handler's
first. `resumes_iff` says when the log is taken up at the right record: whenever the handler has
a line. If it has none, the record that goes with the marker is the one to be found. -/
namespace Lockstep
open Reference (Queue Record IsTrap IsInstruction)

/-- The lines of a reference from a trap on, for a log that goes on at an address. -/
structure TrapLog (address : Address) where
  trap : Text
  detail : Text
  handler : List Text
  arrival : Text
  further : List Text
  isTrap : IsTrap trap
  isDetail : detail.words.length = 4
  away : ∀ line ∈ handler, ∃ other, other ≠ address ∧ IsInstruction other line
  arrives : IsInstruction address arrival

namespace TrapLog

variable {address : Address}

def lines (log : TrapLog address) : List Text :=
  log.trap :: log.detail :: (log.handler ++ log.arrival :: log.further)

def marker (log : TrapLog address) : Record := ⟨.exception, log.trap.trim⟩

/-- The record that the log goes on with. -/
def reached (log : TrapLog address) : Record := ⟨.instruction address, log.arrival.trim⟩

/-- The detail line loads nothing. -/
theorem ofLines_eq (log : TrapLog address) : Queue.ofLines none log.lines =
    (log.marker :: Queue.records log.handler) ++ log.reached :: Queue.records log.further := by
  have hshort : log.detail.words.length < 5 := by
    have := log.isDetail
    omega
  show Queue.records log.lines = _
  rw [lines, Queue.records_cons_of_some (Record.read_of_isTrap log.isTrap),
    Queue.records_cons_of_none (Record.read_of_short hshort), Queue.records_append,
    Queue.records_cons_of_some (Record.read_of_isInstruction log.arrives)]
  rfl

end TrapLog

namespace Follower

/-- Behind a handler's records the right one is found. -/
theorem step_of_handler {index : Listing.Index} {record : Trace.Executed}
    {known : Listing.Instruction} (hknown : index.instruction? record.address = some known)
    (log : TrapLog record.address) (hhandler : log.handler ≠ []) :
    step index (beside (Queue.ofLines none log.lines)) record =
      (beside (Queue.records log.further),
        { row := .paired .matching known.text (some log.reached)
          detour := some ⟨log.handler.length + 1, true⟩ }) := by
  obtain ⟨hlength, haway⟩ := Queue.records_of_away log.away
  -- The first of them goes with the marker; the others are passed over.
  obtain ⟨first, others, hrecords⟩ : ∃ first others, Queue.records log.handler = first :: others := by
    apply List.exists_cons_of_ne_nil
    rw [← List.length_pos_iff, hlength, List.length_pos_iff]
    exact hhandler
  have hothers : ∀ other ∈ others, Queue.isAt record.address other = false := by
    rw [hrecords] at haway
    exact (List.forall_mem_cons.mp haway).2
  have hat : Queue.isAt record.address log.reached = true := Queue.isAt_eq_true.mpr rfl
  have hdrops : Queue.Drops record.address (log.marker :: Queue.records log.handler)
      (log.reached :: Queue.records log.further) := by
    rw [hrecords]
    exact .found rfl hothers hat
  have hpassage : Passage index record.address false (Queue.ofLines none log.lines)
      { row := pairedRow index record.address (some log.reached)
        detour := some ⟨(log.marker :: Queue.records log.handler).length, true⟩ }
      (beside (Queue.records log.further)) := by
    rw [log.ofLines_eq]
    exact .resumed hdrops
  rw [pairedRow_of_isAt hknown hat, List.length_cons, hlength] at hpassage
  exact hpassage.step_eq

/-- Right behind a trap the record to be found goes with the marker. -/
theorem discarded_of_no_handler (index : Listing.Index) (record : Trace.Executed)
    (log : TrapLog record.address) (hhandler : log.handler = []) :
    ∃ detour, (step index (beside (Queue.ofLines none log.lines)) record).2.detour = some detour ∧
      2 ≤ detour.discarded := by
  have hqueue : Queue.ofLines none log.lines =
      log.marker :: log.reached :: Queue.records log.further := by
    rw [log.ofLines_eq, hhandler]
    rfl
  have hmarker : log.marker.isException = true := rfl
  rw [hqueue, beside, step_some]
  exact Queue.two_le_discarded record.address hmarker log.reached (Queue.records log.further)

/-- **A log is taken up behind a trap exactly if the handler has a line.** The record to be found
is behind the marker and one record for each line of the handler, and the records behind it are
those of the further lines. -/
theorem resumes_iff (index : Listing.Index) (record : Trace.Executed)
    (known : Listing.Instruction) (hknown : index.instruction? record.address = some known)
    (log : TrapLog record.address) :
    (∃ front, front.length = log.handler.length + 1 ∧
      Queue.ofLines none log.lines = front ++ log.reached :: Queue.ofLines none log.further) ∧
    (step index (beside (Queue.ofLines none log.lines)) record =
        (beside (Queue.ofLines none log.further),
          { row := .paired .matching known.text (some log.reached)
            detour := some ⟨log.handler.length + 1, true⟩ }) ↔
      log.handler ≠ []) := by
  constructor
  · refine ⟨log.marker :: Queue.records log.handler, ?_, log.ofLines_eq⟩
    rw [List.length_cons, (Queue.records_of_away log.away).1]
  · constructor
    · intro hstep hhandler
      obtain ⟨detour, hdetour, htwo⟩ := discarded_of_no_handler index record log hhandler
      rw [hstep, hhandler] at hdetour
      cases hdetour
      exact absurd htwo (by decide)
    · exact step_of_handler hknown log

/-! ### One page fault -/

def faulting : Listing.Instruction := ⟨0x10000, "10000:\t1141\taddi\tsp,sp,-16".toList⟩

/-- The listing of the one instruction. -/
def oneLine : Listing.Index := ({} : Listing.Index).addInstruction 0x10000 faulting.text

theorem instruction?_oneLine : oneLine.instruction? 0x10000 = some faulting := by
  simp [oneLine, faulting, Listing.Index.instruction?, Listing.Index.addInstruction]

/-- The instruction, executed at last. -/
def retried : Trace.Executed := ⟨0x10000, [], none, .deep⟩

/-- A page fault at the instruction, which is executed once the fault is handled. -/
def pageFault (handler : List Text)
    (away : ∀ line ∈ handler, ∃ other, other ≠ retried.address ∧ IsInstruction other line) :
    TrapLog retried.address where
  trap := "core   0: exception trap_load_page_fault, epc 0x0000000000010000".toList
  detail := "core   0:           tval 0x0000000000000000".toList
  handler := handler
  arrival := "core   0: 0x0000000000010000 (0x00001141) c.addi  sp, -16".toList
  further := []
  isTrap := ⟨by decide, _, rfl, by decide⟩
  isDetail := by decide
  away := away
  arrives := ⟨by decide, _, rfl, by decide, by decide⟩

def handlerLine : Text := "core   0: 0x0000000000000100 (0x34202f73) csrrs   t5, mcause, zero".toList

theorem isInstruction_handlerLine : IsInstruction 0x100 handlerLine :=
  ⟨by decide, _, rfl, by decide, by decide⟩

/-- The fault with a handler of one instruction. -/
def handledFault : TrapLog retried.address :=
  pageFault [handlerLine] fun _ hline =>
    ⟨0x100, by decide, List.mem_singleton.mp hline ▸ isInstruction_handlerLine⟩

/-- The fault with no instruction of a handler in the log. -/
def bareFault : TrapLog retried.address := pageFault [] (by simp)

theorem resumes_handledFault :
    oneLine.instruction? retried.address = some faulting ∧
      step oneLine (beside (Queue.ofLines none handledFault.lines)) retried =
        (beside (Queue.ofLines none handledFault.further),
          { row := .paired .matching faulting.text (some handledFault.reached)
            detour := some ⟨2, true⟩ }) :=
  ⟨instruction?_oneLine, (resumes_iff oneLine retried faulting instruction?_oneLine
    handledFault).2.mpr (List.cons_ne_nil handlerLine [])⟩

/-- The record to be found goes with the marker, and nothing is left. -/
theorem loses_bareFault :
    oneLine.instruction? retried.address = some faulting ∧
    Queue.ofLines none bareFault.lines =
      [bareFault.marker] ++ bareFault.reached :: Queue.ofLines none bareFault.further ∧
    step oneLine (beside (Queue.ofLines none bareFault.lines)) retried =
      (⟨some [], true⟩,
        { row := .paired .mismatching faulting.text none
          detour := some ⟨2, false⟩
          exhausted := true }) ∧
    step oneLine (beside (Queue.ofLines none bareFault.lines)) retried ≠
      (beside (Queue.ofLines none bareFault.further),
        { row := .paired .matching faulting.text (some bareFault.reached)
          detour := some ⟨1, true⟩ }) := by
  have hrow : pairedRow oneLine retried.address none = .paired .mismatching faulting.text none := by
    rw [pairedRow, show oneLine.instruction? retried.address = _ from instruction?_oneLine]
    rfl
  have hdrops : Queue.Drops retried.address [bareFault.marker, bareFault.reached] [] :=
    .lost rfl (by simp)
  have hlost : step oneLine (beside (Queue.ofLines none bareFault.lines)) retried =
      (⟨some [], true⟩,
        { row := .paired .mismatching faulting.text none
          detour := some ⟨2, false⟩
          exhausted := true }) := by
    rw [bareFault.ofLines_eq, ← hrow]
    exact (Passage.lost hdrops).step_eq
  refine ⟨instruction?_oneLine, bareFault.ofLines_eq, hlost, ?_⟩
  rw [hlost]
  intro hsame
  cases (Prod.mk.inj hsame).1

end Follower

end Lockstep
