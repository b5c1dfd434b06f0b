import Lockstep.Proofs.CallStack.Query
import Lockstep.Proofs.Pairing.Sums
import Lockstep.Proofs.Run.LastRecord
import Lockstep.Proofs.Run.Unbroken

/-! A check accounts for every line of its log.

The counters of a check are those of one run beside the reference and one of the watch, over the
executed instructions (`tally_eq`), and the lines of its report are counted step by step
(`height_entries`). `check_accounted` puts both side by side. -/
namespace Lockstep
open Reference (Queue Record)

/-! ### Lines of a report -/

namespace Report

/-- Every detour, every end of the reference and every row has one line. -/
theorem height_findingEntries (options : Options) (address : Address) (executed : Text)
    (finding : Finding) :
    height options (findingEntries address executed finding) =
      finding.detour.isSome.toNat + finding.exhausted.toNat +
        ((options.rows && !finding.row.isUnlisted).toNat + finding.row.isUnlisted.toNat) := by
  obtain ⟨row, detour, exhausted⟩ := finding
  have hdetour : height options (detour.map (Entry.trap address)).toList = detour.isSome.toNat := by
    cases detour <;> rfl
  have hexhausted : height options (if exhausted then [Entry.exhausted address] else []) =
      exhausted.toNat := by
    cases exhausted <;> rfl
  have hrow : height options [rowEntry address executed row] =
      (options.rows && !row.isUnlisted).toNat + row.isUnlisted.toNat := by
    obtain ⟨rows, logged⟩ := options
    cases row <;> cases rows <;> rfl
  rw [findingEntries, height_append, height_append, hdetour, hexhausted, hrow]

end Report

namespace Check

namespace Step

/-- Whether the step brings a line that a report may show as it is. -/
def isRendered : Step → Bool
  | executed _ record _ _ => record.dialect == .render
  | _ => false

theorem height_entries (options : Report.Options) (step : Step) :
    Report.height options step.entries =
      (options.logged && step.isRendered).toNat +
        ((step.finds (·.detour.isSome)).toNat + (step.finds (·.exhausted)).toNat +
          ((options.rows && step.finds (!·.row.isUnlisted)).toNat +
            (step.finds (·.row.isUnlisted)).toNat)) +
        step.snapshot?.elim 0 (1 + ·.frames.length) := by
  cases step with
  | foreign => simp [entries, Report.height, isRendered, finds, finding?, snapshot?, movement?]
  | malformed cause => simp [entries, Report.height, isRendered, finds, finding?, snapshot?, movement?]
  | executed line record finding movement =>
    have hlogged : Report.height options
        (if record.dialect = .render then [Report.Entry.logged line] else []) =
          (options.logged && record.dialect == .render).toNat := by
      obtain ⟨rows, logged⟩ := options
      cases record.dialect <;> cases logged <;> rfl
    have hstack : Report.height options (movement.snapshot.map Report.Entry.stack).toList =
        movement.snapshot.elim 0 (1 + ·.frames.length) := by
      cases movement.snapshot with
      | none => rfl
      | some snapshot =>
        exact (Report.height_singleton options (.stack snapshot)).trans (Nat.add_comm _ 1)
    rw [entries, Report.height_append, Report.height_append, Report.height_findingEntries, hlogged,
      hstack]
    rfl

end Step

theorem height_flatMap_entries (options : Report.Options) (steps : List Step) :
    Report.height options (steps.flatMap Step.entries) =
      steps.countP (fun step => options.logged && step.isRendered) +
        (steps.countP (Step.finds (·.detour.isSome)) + steps.countP (Step.finds (·.exhausted)) +
          (steps.countP (fun step => options.rows && step.finds (!·.row.isUnlisted)) +
            steps.countP (Step.finds (·.row.isUnlisted)))) +
        ((steps.filterMap Step.snapshot?).map (1 + ·.frames.length)).sum := by
  induction steps with
  | nil => rfl
  | cons step steps ih =>
    have hsnapshots : (((step :: steps).filterMap Step.snapshot?).map (1 + ·.frames.length)).sum =
        step.snapshot?.elim 0 (1 + ·.frames.length) +
          ((steps.filterMap Step.snapshot?).map (1 + ·.frames.length)).sum := by
      cases hsnapshot : step.snapshot? with
      | none => rw [List.filterMap_cons_none hsnapshot]; exact (Nat.zero_add _).symm
      | some snapshot => rw [List.filterMap_cons_some hsnapshot]; rfl
    rw [List.flatMap_cons, Report.height_append, ih, Step.height_entries, hsnapshots]
    simp only [countP_cons_toNat]
    omega

/-! ### Counters and report by two runs -/

section
variable (plan : Plan) (index : Listing.Index) (queue : Option Queue) (lines : List Text)

/-- The executed instructions beside the reference. -/
def compared : Follower × List Finding :=
  history (Follower.step index) { reference := queue } (executed lines)

/-- The executed instructions under the watch for the tick. -/
def watched : Watch × List Movement :=
  history (Watch.step index) (Watch.rooted plan.entry plan.tick) (executed lines)

theorem findings_course :
    (course plan index queue lines).2.filterMap Step.finding? = (compared index queue lines).2 :=
  (history_follower index (Machine.start plan queue) lines).2

theorem snapshots_course :
    (course plan index queue lines).2.filterMap Step.snapshot? =
      (watched plan index lines).2.filterMap (·.snapshot) := by
  have hmovements := (history_watch index (Machine.start plan queue) lines).2
  rw [show (watched plan index lines).2 = _ from hmovements.symm, List.filterMap_filterMap]
  rfl

theorem length_snapshots :
    ((watched plan index lines).2.filterMap (·.snapshot)).length =
      ((executed lines).any (Watch.carries plan.tick)).toNat :=
  Watch.snapshots_history index (Watch.rooted plan.entry plan.tick) (executed lines)

theorem countP_isMalformed :
    (course plan index queue lines).2.countP Step.isMalformed =
      lines.countP fun line => !(Trace.Executed.read line).isOk := by
  refine countP_history (fun machine line => ?_) _ _
  unfold Machine.step
  cases Trace.Executed.read line with
  | error cause => rfl
  | ok found => cases found <;> rfl

theorem countP_isRendered :
    (course plan index queue lines).2.countP Step.isRendered =
      (executed lines).countP (·.dialect == .render) := by
  rw [executed, List.countP_filterMap]
  refine countP_history (fun machine line => ?_) _ _
  unfold Machine.step record?
  cases Trace.Executed.read line with
  | error cause => rfl
  | ok found => cases found <;> rfl

theorem any_snapshot? :
    (course plan index queue lines).2.any (·.snapshot?.isSome) =
      (executed lines).any (Watch.carries plan.tick) := by
  have hlength := length_snapshots plan index lines
  rw [← snapshots_course plan index queue, List.length_filterMap_eq_countP] at hlength
  rw [countP_eq_toNat_any (hlength ▸ Bool.toNat_le _)] at hlength
  rw [Bool.eq_iff_iff, ← Bool.toNat_eq_one, hlength, Bool.toNat_eq_one]

/-- **The counters of a check are those of its executed instructions.** -/
theorem tally_eq :
    let findings := (compared index queue lines).2
    tally plan index queue lines =
      { records := (executed lines).length
        rows := findings.countP (!·.row.isUnlisted)
        matched := findings.countP (·.row.isMatching)
        mismatched := findings.countP (·.row.isMismatching)
        unlisted := findings.countP (·.row.isUnlisted)
        trapsPassed := findings.countP Finding.isResumed
        trapsLost := findings.countP Finding.isLost
        malformed := lines.countP fun line => !(Trace.Executed.read line).isOk
        stackShown := (executed lines).any (Watch.carries plan.tick)
        referenceLeft := (compared index queue lines).1.left } := by
  have hleft : (course plan index queue lines).1.follower = (compared index queue lines).1 :=
    (history_follower index (Machine.start plan queue) lines).1
  rw [tally, tallyOf_eq, findings_course, countP_isMalformed, any_snapshot?, hleft, compared,
    length_history]

/-- **The lines of a report.** -/
theorem height_entries :
    let findings := (compared index queue lines).2
    Report.height plan.options (entries plan index queue lines) =
      queue.isSome.toNat +
        (if plan.echo then (executed lines).countP (·.dialect == .render) else 0) +
        findings.countP (·.detour.isSome) + (findings.any (·.exhausted)).toNat +
        (if plan.tick.isNone then findings.countP (!·.row.isUnlisted) else 0) +
        findings.countP (·.row.isUnlisted) +
        ((watched plan index lines).2.findSome? (·.snapshot)).elim 0 (1 + ·.frames.length) := by
  intro findings
  have hfindings : (course plan index queue lines).2.filterMap Step.finding? = findings :=
    findings_course plan index queue lines
  have hheading : Report.height plan.options (if queue.isSome then [.heading] else []) =
      queue.isSome.toNat := by
    cases queue <;> rfl
  have hexhausted : findings.countP (·.exhausted) = (findings.any (·.exhausted)).toNat :=
    countP_eq_toNat_any (Follower.final_history index queue (executed lines)).once
  have hsnapshot : (((course plan index queue lines).2.filterMap Step.snapshot?).map
      (1 + ·.frames.length)).sum =
        ((watched plan index lines).2.findSome? (·.snapshot)).elim 0 (1 + ·.frames.length) := by
    have hlength : ((watched plan index lines).2.filterMap (·.snapshot)).length ≤ 1 :=
      length_snapshots plan index lines ▸ Bool.toNat_le _
    rw [snapshots_course, sum_map_of_length_le_one _ hlength, List.head?_filterMap]
  rw [entries, Report.height_append, hheading, height_flatMap_entries, countP_and_left,
    countP_and_left, countP_finds, countP_finds, countP_finds, countP_finds, hfindings,
    countP_isRendered, hexhausted, hsnapshot]
  show _ = _ + (if plan.options.logged then _ else 0) + _ + _ + (if plan.options.rows then _ else 0) +
    _ + _
  omega

/-! ### Balances -/

/-- Every line in a dialect holds a record or is malformed. -/
theorem records_add_malformed :
    (tally plan index queue lines).records + (tally plan index queue lines).malformed =
      lines.countP fun line => (Trace.Dialect.of? line).isSome := by
  rw [tally_eq, executed, List.length_filterMap_eq_countP]
  symm
  apply countP_eq_add
  intro line _
  unfold record? Trace.Executed.read
  cases Trace.Dialect.of? line with
  | none => rfl
  | some dialect =>
    dsimp only
    cases dialect.read line <;> rfl

theorem records_eq_rows_add_unlisted :
    (tally plan index queue lines).records =
      (tally plan index queue lines).rows + (tally plan index queue lines).unlisted := by
  have hlength : (compared index queue lines).2.length = (executed lines).length :=
    length_history _ _ _
  rw [tally_eq, ← hlength, List.length_eq_countP_add_countP (·.row.isUnlisted), Nat.add_comm]
  simp

/-- The counters of a check beside what its reference holds. -/
theorem tally_beside (loaded : Queue) :
    let counted := tally plan index (some loaded) lines
    counted.rows = counted.matched + counted.mismatched ∧
      counted.trapsPassed + counted.trapsLost ≤ loaded.countP Record.isException ∧
      counted.referenceLeft ≤ loaded.length - min counted.records loaded.length := by
  simp only [tally_eq]
  refine ⟨Follower.verdicts_history loaded (executed lines), ?_, ?_⟩
  · rw [← countP_eq_add fun finding _ => finding.isSome_detour]
    exact Follower.detours_history loaded false (executed lines)
  · have hleft : (compared index (some loaded) lines).1.queue.length ≤
        loaded.length - (executed lines).length :=
      Follower.length_queue_history loaded false (executed lines)
    rw [Follower.left_eq_length_queue]
    omega

theorem tally_alone :
    let counted := tally plan index none lines
    counted.matched = 0 ∧ counted.mismatched = 0 ∧ counted.trapsPassed = 0 ∧
      counted.trapsLost = 0 ∧ counted.referenceLeft = 0 := by
  have hcompared : compared index none lines = _ :=
    Follower.history_static index (executed lines)
  have hverdict := fun record : Trace.Executed => Follower.listedRow_no_verdict index record.address
  simp only [tally_eq, hcompared, List.countP_map, List.countP_eq_zero, Function.comp_apply,
    (hverdict _).1, (hverdict _).2]
  exact ⟨by simp, by simp, by simp [Finding.isResumed], by simp [Finding.isLost], rfl⟩

theorem stackShown_iff :
    (tally plan index queue lines).stackShown = true ↔
      ∃ tick ∈ plan.tick, ∃ record ∈ executed lines, record.tick = some tick := by
  rw [tally_eq]
  simp only [List.any_eq_true, Watch.carries, Bool.and_eq_true, Option.isSome_iff_exists, beq_iff_eq]
  constructor
  · intro h
    obtain ⟨record, hrecord, ⟨tick, htick⟩, hquery⟩ := h
    exact ⟨tick, hquery ▸ htick, record, hrecord, htick⟩
  · intro h
    obtain ⟨tick, hquery, record, hrecord, htick⟩ := h
    exact ⟨record, hrecord, ⟨tick, htick⟩, htick.trans hquery.symm⟩

end

/-- How the counters and the report of a check account for the lines of its log. -/
structure Accounted (plan : Plan) (index : Listing.Index) (queue : Option Queue) (lines : List Text)
    (counted : Report.Tally) (output : Text) : Prop where
  /-- A line in a dialect holds a record or is malformed. -/
  detected : counted.records + counted.malformed =
    lines.countP fun line => (Trace.Dialect.of? line).isSome
  /-- A record has a row or a warning. -/
  recorded : counted.records = counted.rows + counted.unlisted
  beside : plan.reference.isSome = true → ∃ loaded, queue = some loaded ∧
    counted.rows = counted.matched + counted.mismatched ∧
    counted.trapsPassed + counted.trapsLost ≤ loaded.countP Record.isException ∧
    counted.referenceLeft ≤ loaded.length - min counted.records loaded.length
  alone : plan.reference = none → counted.matched = 0 ∧ counted.mismatched = 0 ∧
    counted.trapsPassed = 0 ∧ counted.trapsLost = 0 ∧ counted.referenceLeft = 0
  stack : counted.stackShown = true ↔
    ∃ tick ∈ plan.tick, ∃ record ∈ executed lines, record.tick = some tick
  written : output.count '\n' =
    plan.reference.isSome.toNat +
      (if plan.echo then (executed lines).countP (·.dialect == .render) else 0) +
      (counted.trapsPassed + counted.trapsLost) +
      ((compared index queue lines).2.any (·.exhausted)).toNat +
      (if plan.tick.isNone then counted.rows else 0) + counted.unlisted +
      ((watched plan index lines).2.findSome? (·.snapshot)).elim 0 (1 + ·.frames.length)

theorem Reads.isSome_queue {files : Files} {plan : Plan} {index : Listing.Index}
    {queue : Option Queue} {lines : List Text} (h : Reads files plan index queue lines) :
    plan.reference.isSome = queue.isSome := by
  have hreference := h.reference
  generalize plan.reference = path at hreference
  cases hreference <;> rfl

end Check

/-- **A check that completes accounts for every line of its log.** -/
theorem check_accounted {files : Files} {plan : Check.Plan} {counted : Report.Tally} {output : Text}
    (hentry : plan.entry.Unbroken) (h : (check files plan).Yields counted output) :
    ∃ index queue lines, Check.Reads files plan index queue lines ∧
      Check.Accounted plan index queue lines counted output := by
  obtain ⟨index, queue, lines, hreads, rfl, rfl⟩ := Check.yields_check.mp h
  have hqueue := hreads.isSome_queue
  refine ⟨index, queue, lines, hreads, ?_⟩
  constructor
  case detected => exact Check.records_add_malformed plan index queue lines
  case recorded => exact Check.records_eq_rows_add_unlisted plan index queue lines
  case beside =>
    intro hreference
    obtain ⟨loaded, rfl⟩ := Option.isSome_iff_exists.mp (hqueue ▸ hreference)
    exact ⟨loaded, rfl, Check.tally_beside plan index lines loaded⟩
  case alone =>
    intro hreference
    obtain rfl : queue = none := by simpa [hreference] using hqueue
    exact Check.tally_alone plan index lines
  case stack => exact Check.stackShown_iff plan index queue lines
  case written =>
    rw [Report.count_render plan.options (Check.unbroken_entries hreads hentry),
      Check.height_entries, hqueue, Check.tally_eq,
      ← countP_eq_add fun finding _ => finding.isSome_detour]

/-! ### One instruction -/

namespace Check

theorem tally_asked : tally asked (Listing.Index.ofLines listingLines) (some [expected]) [logLine] =
    { records := 1, rows := 1, matched := 1, stackShown := true } := by
  have hexecuted : executed [logLine] = [fetched] := by decide
  rw [tally_eq, compared, hexecuted, history_cons, history_nil,
    (Follower.Passage.paired rfl).step_eq, Follower.pairedRow, instruction?_fetched]
  decide

end Check

/-- A check that finds its one instruction in the reference and shows the stack there. -/
theorem accounted_asked :
    Check.asked.entry.Unbroken ∧
    ∃ output, (check Check.inputs Check.asked).Yields
        { records := 1, rows := 1, matched := 1, stackShown := true } output ∧
      ∃ index queue lines, Check.Reads Check.inputs Check.asked index queue lines ∧
        Check.Accounted Check.asked index queue lines
          { records := 1, rows := 1, matched := 1, stackShown := true } output := by
  have hentry : Check.asked.entry.Unbroken := by decide
  have hyields := Check.yields_check.mpr
    ⟨_, _, _, Check.reads_inputs, Check.tally_asked.symm, rfl⟩
  exact ⟨hentry, _, hyields, check_accounted hentry hyields⟩

end Lockstep
