import Lockstep.Proofs.Pairing.Agreement
import Lockstep.Proofs.Pairing.Resumption

/-! What a row beside a reference tells.

The record that an instruction is paired with is an instruction's: a trap marker in front is
passed, and a detour stops at the address or at the end of the reference. So a row matches exactly
if the record used up is at its address, and behind a way back that was found it always is
(`truthful_moment`). In a reference without trap markers nothing is passed, and a run compares the
two traces place by place (`getElem?_history_plain`). -/
namespace Lockstep
open Reference (Queue Record)

namespace Moment

/-- What a moment's row tells of the reference. -/
structure Truthful (index : Listing.Index) (moment : Moment) : Prop where
  /-- No trap marker is used up beside an instruction. -/
  instruction : ∀ head ∈ moment.head?, head.kind ≠ .exception
  /-- A row shows the record used up, and matches exactly if that is at the address. -/
  verdict : ∀ verdict text reference, moment.finding.row = .paired verdict text reference →
    reference = moment.head? ∧
    (verdict = .matching ↔
      ∃ record, reference = some record ∧ record.kind = .instruction moment.record.address)
  /-- A way back that was found ends at the address, and the row matches if there can be one. -/
  found : ∀ detour, moment.finding.detour = some detour → detour.found = true →
    ∃ head, moment.head? = some head ∧ head.kind = .instruction moment.record.address ∧
      moment.finding.row =
        match index.instruction? moment.record.address with
        | some known => .paired .matching known.text (some head)
        | none => .unlisted

end Moment

theorem Verdict.of_eq_matching_iff {agree : Bool} : of agree = matching ↔ agree = true := by
  cases agree <;> decide

theorem Verdict.eq_of_iff {verdict : Verdict} {agree : Bool}
    (h : verdict = matching ↔ agree = true) : verdict = of agree := by
  revert h
  cases verdict <;> cases agree <;> decide

namespace Follower

variable {index : Listing.Index}

theorem any_isAt_iff {address : Address} {head : Option Record} :
    head.any (Queue.isAt address) = true ↔
      ∃ record, head = some record ∧ record.kind = .instruction address := by
  simp only [Option.any_eq_true, Queue.isAt_eq_true]

/-! ### One step -/

theorem truthful_moment (queue : Queue) (exhausted : Bool) (record : Trace.Executed) :
    (moment index ⟨some queue, exhausted⟩ record).Truthful index := by
  have hstep := step_some index queue exhausted record
  have hrow : (moment index ⟨some queue, exhausted⟩ record).finding.row =
      pairedRow index record.address (queue.passTrap record.address).2.head? := by
    rw [moment, hstep]
  have hdetour : (moment index ⟨some queue, exhausted⟩ record).finding.detour =
      (queue.passTrap record.address).1 := by
    rw [moment, hstep]
  refine ⟨?_, ?_, ?_⟩
  · intro head hhead hkind
    have hfront := Queue.not_isException_of_passTrap record.address queue head hhead
    simp [Record.isException, hkind] at hfront
  · intro verdict text reference hpaired
    rw [hrow, pairedRow] at hpaired
    cases hknown : index.instruction? record.address with
    | none =>
      rw [hknown] at hpaired
      cases hpaired
    | some known =>
      rw [hknown] at hpaired
      cases hpaired
      exact ⟨rfl, Verdict.of_eq_matching_iff.trans any_isAt_iff⟩
  · intro detour hsome hfound
    rw [hdetour] at hsome
    have hat := Queue.isAt_of_passTrap hsome
    rw [Queue.found_of_passTrap hsome] at hfound
    cases hfaced : (queue.passTrap record.address).2 with
    | nil =>
      rw [hfaced] at hfound
      cases hfound
    | cons head rest =>
      rw [hfaced] at hat hrow
      have hhead : Queue.isAt record.address head = true := hat head rfl
      refine ⟨head, congrArg List.head? hfaced, Queue.isAt_eq_true.mp hhead, ?_⟩
      rw [hrow, pairedRow, List.head?_cons, Option.any_some, hhead]
      rfl

/-! ### References without trap markers -/

/-- Each instruction takes one record of such a reference. -/
theorem history_plain {queue : Queue} (hplain : ∀ record ∈ queue, record.isException = false)
    (exhausted : Bool) (records : List Trace.Executed) :
    (history (step index) ⟨some queue, exhausted⟩ records).1 =
      ⟨some (queue.drop records.length), exhausted || decide (queue.length < records.length)⟩ := by
  induction records generalizing queue exhausted with
  | nil => simp
  | cons record records ih =>
    have hpass : queue.passTrap record.address = (none, queue) :=
      Queue.passTrap_of_not_isException fun head hhead => hplain head (List.mem_of_head? hhead)
    have hrest : ∀ record ∈ queue.tail, record.isException = false :=
      fun record hrecord => hplain record (List.mem_of_mem_tail hrecord)
    rw [history_cons, step_some, hpass]
    show (history (step index) ⟨some queue.tail, exhausted || queue.isEmpty⟩ records).1 = _
    rw [ih hrest]
    cases queue with
    | nil => simp
    | cons head tail =>
      have hlonger : decide ((head :: tail).length < (record :: records).length) =
          decide (tail.length < records.length) := decide_eq_decide.mpr Nat.succ_lt_succ_iff
      rw [hlonger, List.isEmpty_cons, Bool.or_false]
      rfl

/-- **Beside a reference without trap markers a run compares place by place.** -/
theorem getElem?_history_plain (index : Listing.Index) {queue : Queue}
    (hplain : ∀ record ∈ queue, record.isException = false) (records : List Trace.Executed)
    (i : Nat) :
    (history (step index) (beside queue) records).2[i]? =
      records[i]?.map fun record =>
        { row := pairedRow index record.address queue[i]?, exhausted := i == queue.length } := by
  rw [getElem?_history]
  cases hrecord : records[i]? with
  | none => rfl
  | some record =>
    have hi : i < records.length := (List.getElem?_eq_some_iff.mp hrecord).1
    have hlength : (records.take i).length = i := List.length_take_of_le (Nat.le_of_lt hi)
    have hpass : Queue.passTrap record.address (queue.drop i) = (none, queue.drop i) :=
      Queue.passTrap_of_not_isException fun head hhead =>
        hplain head (List.mem_of_mem_drop (List.mem_of_head? hhead))
    rw [Option.map_some, Option.map_some, beside, history_plain hplain, hlength, step_some, hpass,
      List.head?_drop]
    have hended : ((queue.drop i).isEmpty && !(false || decide (queue.length < i))) =
        (i == queue.length) := by
      rw [Bool.eq_iff_iff]
      simp only [Bool.false_or, Bool.and_eq_true, List.isEmpty_iff, List.drop_eq_nil_iff,
        Bool.not_eq_true', decide_eq_false_iff_not, beq_iff_eq]
      omega
    rw [hended]

/-- **A row tells what the reference has beside its instruction.** No trap marker is ever shown, a
row matches exactly if its record is at the address, a way back that was found ends at a match, and
without trap markers the two traces are compared place by place. -/
theorem rows_truthful (index : Listing.Index) (queue : Queue) (records : List Trace.Executed) :
    let run := history (step index) (beside queue) records
    let moments := course index (beside queue) records
    moments.map Moment.finding = run.2 ∧
    (∀ moment ∈ moments, moment.Truthful index) ∧
    ((∀ record ∈ queue, record.kind ≠ .exception) → ∀ (i : Nat) (record : Trace.Executed),
      records[i]? = some record → ∃ finding, run.2[i]? = some finding ∧
        finding.detour = none ∧ finding.exhausted = (i == queue.length) ∧
        (index.instruction? record.address = none → finding.row = .unlisted) ∧
        ∀ known, index.instruction? record.address = some known →
          ∃ verdict, finding.row = .paired verdict known.text queue[i]? ∧
            (verdict = .matching ↔ ∃ reference, queue[i]? = some reference ∧
              reference.kind = .instruction record.address)) := by
  intro run moments
  refine ⟨map_finding_course index (beside queue) records, ?_, ?_⟩
  · intro m hm
    obtain ⟨before, exhausted, record, rfl⟩ := exists_of_mem_course hm
    exact truthful_moment before exhausted record
  · intro hkinds i record hrecord
    have hplain : ∀ record ∈ queue, record.isException = false := by
      intro record hmem
      simpa [Record.isException] using hkinds record hmem
    have hfinding := getElem?_history_plain index hplain records i
    rw [hrecord, Option.map_some] at hfinding
    refine ⟨_, hfinding, rfl, rfl, ?_, ?_⟩
    · intro hnone
      simp only [pairedRow, hnone]
    · intro known hknown
      refine ⟨.of (queue[i]?.any (Queue.isAt record.address)), ?_, ?_⟩
      · simp only [pairedRow, hknown]
      · exact Verdict.of_eq_matching_iff.trans any_isAt_iff

/-- A reference without a trap marker: the instruction, and then another one. -/
def unmarked : Queue := [handledFault.reached, ⟨.instruction 0x10002, []⟩]

/-- Behind the trap the instruction is found and matches. Executed three times beside a reference
without one, it matches, does not match, and finds the reference empty. -/
theorem rows_truthful_unmarked :
    (∃ moment ∈ course oneLine (beside (Queue.ofLines none handledFault.lines)) [retried],
      moment.finding.detour = some ⟨2, true⟩ ∧
        moment.finding.row = .paired .matching faulting.text moment.head?) ∧
    (∀ record ∈ unmarked, record.kind ≠ .exception) ∧
    ∀ i < 3, (history (step oneLine) (beside unmarked) (List.replicate 3 retried)).2[i]? =
      some { row := .paired (.of (i == 0)) faulting.text unmarked[i]?, exhausted := i == 2 } := by
  have hplain : ∀ record ∈ unmarked, record.kind ≠ .exception := by decide
  refine ⟨?_, hplain, ?_⟩
  · let m := moment oneLine (beside (Queue.ofLines none handledFault.lines)) retried
    have hmem : m ∈ course oneLine (beside (Queue.ofLines none handledFault.lines)) [retried] :=
      List.mem_cons_self
    have hdetour : m.finding.detour = some ⟨2, true⟩ :=
      congrArg (·.2.detour)
        (step_of_handler instruction?_oneLine handledFault (List.cons_ne_nil _ _))
    obtain ⟨_, htruthful, _⟩ :=
      rows_truthful oneLine (Queue.ofLines none handledFault.lines) [retried]
    obtain ⟨head, hhead, _, hrow⟩ := (htruthful m hmem).found _ hdetour rfl
    rw [show oneLine.instruction? m.record.address = _ from instruction?_oneLine] at hrow
    exact ⟨m, hmem, hdetour, hhead ▸ hrow⟩
  · intro i hi
    have hplace : (List.replicate 3 retried)[i]? = some retried := by
      rw [List.getElem?_replicate, if_pos hi]
    have hat : ∀ i < 3, unmarked[i]?.any (Queue.isAt retried.address) = (i == 0) := by decide
    obtain ⟨_, _, hlaw⟩ := rows_truthful oneLine unmarked (List.replicate 3 retried)
    obtain ⟨⟨row, detour, exhausted⟩, hfinding, rfl, rfl, _, hlisted⟩ :=
      hlaw hplain i retried hplace
    obtain ⟨verdict, rfl, hverdict⟩ := hlisted faulting instruction?_oneLine
    rw [← any_isAt_iff, hat i hi] at hverdict
    rw [hfinding, Verdict.eq_of_iff hverdict]
    rfl

end Follower

end Lockstep
