import Lockstep.Proofs.Pairing.Exhaustion
import Lockstep.Proofs.Run.Steps

/-! The end of a reference in the report and the counters of a check.

`exhaustion_final` says what `Phases` means for a whole check: the warning is in the report once
at most, and a check that has it, or that did not find the way back after a trap, has used the
reference up and does not show a clean headline. -/
namespace Lockstep

/-- The warning that a reference has no record left. -/
def Report.Entry.isExhausted : Report.Entry → Bool
  | exhausted _ => true
  | _ => false

theorem Report.countP_findingEntries (address : Address) (executed : Text) (finding : Finding) :
    (Report.findingEntries address executed finding).countP Report.Entry.isExhausted =
      finding.exhausted.toNat := by
  obtain ⟨row, detour, exhausted⟩ := finding
  have hrow : (Report.rowEntry address executed row).isExhausted = false := by
    cases row <;> rfl
  have hdetour : (detour.map (Report.Entry.trap address)).toList.countP
      Report.Entry.isExhausted = 0 := by
    cases detour <;> rfl
  rw [Report.findingEntries, List.countP_append, List.countP_append, hdetour,
    List.countP_singleton, hrow]
  cases exhausted <;> rfl

namespace Check

theorem Step.countP_entries (step : Step) :
    step.entries.countP Report.Entry.isExhausted = (step.finds (·.exhausted)).toNat := by
  cases step with
  | foreign => rfl
  | malformed cause => rfl
  | executed line record finding movement =>
    have hlogged : (if record.dialect = .render then [Report.Entry.logged line] else []).countP
        Report.Entry.isExhausted = 0 := by
      split <;> rfl
    have hstack : (movement.snapshot.map Report.Entry.stack).toList.countP
        Report.Entry.isExhausted = 0 := by
      cases movement.snapshot <;> rfl
    rw [Step.entries, List.countP_append, List.countP_append, hlogged, hstack,
      Report.countP_findingEntries]
    exact Nat.zero_add _

theorem countP_flatMap_entries (steps : List Step) :
    (steps.flatMap Step.entries).countP Report.Entry.isExhausted =
      (steps.filterMap Step.finding?).countP (·.exhausted) := by
  rw [← countP_finds]
  induction steps with
  | nil => rfl
  | cons step steps ih =>
    rw [List.flatMap_cons, List.countP_append, ih, Step.countP_entries, countP_cons_toNat]

/-- The findings behind the steps of a check, and what is left of its reference. -/
theorem final_course (plan : Plan) (index : Listing.Index) (queue : Option Reference.Queue)
    (lines : List Text) :
    Final ((course plan index queue lines).2.filterMap Step.finding?)
      (tally plan index queue lines).referenceLeft := by
  obtain ⟨hfollower, hfindings⟩ := history_follower index (Machine.start plan queue) lines
  rw [course, hfindings]
  show Final _ (history (Machine.step index) (Machine.start plan queue) lines).1.follower.left
  rw [hfollower]
  exact Follower.final_history index queue (executed lines)

theorem countP_entries (plan : Plan) (index : Listing.Index) (queue : Option Reference.Queue)
    (lines : List Text) :
    (entries plan index queue lines).countP Report.Entry.isExhausted =
      ((course plan index queue lines).2.filterMap Step.finding?).countP (·.exhausted) := by
  have hheading : (if queue.isSome then [Report.Entry.heading] else []).countP
      Report.Entry.isExhausted = 0 := by
    split <;> rfl
  rw [entries, List.countP_append, hheading, Nat.zero_add, countP_flatMap_entries]

/-- A way back that was not found and the warning both come with a finding that is flagged. -/
theorem exists_flagged {plan : Plan} {index : Listing.Index} {queue : Option Reference.Queue}
    {lines : List Text}
    (h : (tally plan index queue lines).trapsLost = 1 ∨
      ∃ entry ∈ entries plan index queue lines, entry.isExhausted = true) :
    ∃ finding ∈ (course plan index queue lines).2.filterMap Step.finding?,
      finding.exhausted = true := by
  rcases h with hlost | hentry
  · have hcount : (tally plan index queue lines).trapsLost =
        ((course plan index queue lines).2.filterMap Step.finding?).countP Finding.isLost :=
      trapsLost_tallyOf _ _
    obtain ⟨finding, hfinding, hislost⟩ := List.countP_pos_iff.mp (hcount ▸ hlost ▸ Nat.one_pos)
    exact ⟨finding, hfinding, (final_course plan index queue lines).lost finding hfinding hislost⟩
  · rw [← List.countP_pos_iff, countP_entries] at hentry
    exact List.countP_pos_iff.mp hentry

/-- A flagged finding has a row that is counted as a fault. -/
theorem faulty_of_flagged {plan : Plan} {index : Listing.Index} {queue : Option Reference.Queue}
    {lines : List Text}
    (h : ∃ finding ∈ (course plan index queue lines).2.filterMap Step.finding?,
      finding.exhausted = true) :
    0 < (tally plan index queue lines).mismatched + (tally plan index queue lines).unlisted := by
  obtain ⟨finding, hfinding, hflag⟩ := h
  have hmismatched : (tally plan index queue lines).mismatched = _ := mismatched_tallyOf _ _
  have hunlisted : (tally plan index queue lines).unlisted = _ := unlisted_tallyOf _ _
  rw [hmismatched, hunlisted]
  rcases (final_course plan index queue lines).faulty finding hfinding hflag with h | h
  · exact Nat.add_pos_right _ (List.countP_pos_iff.mpr ⟨finding, hfinding, h⟩)
  · exact Nat.add_pos_left (List.countP_pos_iff.mpr ⟨finding, hfinding, h⟩) _

end Check

theorem CommandLine.headline_ne_good {tally : Report.Tally}
    (h : 0 < tally.mismatched + tally.unlisted) (text : Text) :
    CommandLine.headline tally ≠ CommandLine.good text := by
  have hclean : CommandLine.isClean tally = false := by
    rw [← Bool.not_eq_true]
    simp only [CommandLine.isClean, Bool.and_eq_true, beq_iff_eq]
    omega
  intro heq
  rw [CommandLine.headline, hclean] at heq
  have hhead := congrArg List.head? heq
  simp [CommandLine.alert, CommandLine.good, Text.line] at hhead

/-- **A reference ends once, for good, and not unnoticed.** -/
theorem exhaustion_final :
    (∀ (index : Listing.Index) (queue : Reference.Queue) (records : List Trace.Executed),
      let run := history (Follower.step index) (Follower.beside queue) records
      let moments := Follower.course index (Follower.beside queue) records
      moments.map Moment.finding = run.2 ∧ Phases moments ∧ Final run.2 run.1.left ∧
        run.2.countP Finding.isLost ≤ 1) ∧
    ∀ (files : Files) (plan : Check.Plan) (counted : Report.Tally) (output : Text),
      (check files plan).Yields counted output → ∃ index queue lines,
        Check.Reads files plan index queue lines ∧
        counted = Check.tally plan index queue lines ∧
        output = Report.render plan.options (Check.entries plan index queue lines) ∧
        counted.trapsLost ≤ 1 ∧
        (Check.entries plan index queue lines).countP Report.Entry.isExhausted ≤ 1 ∧
        ((counted.trapsLost = 1 ∨
            ∃ entry ∈ Check.entries plan index queue lines, entry.isExhausted = true) →
          counted.referenceLeft = 0 ∧ 0 < counted.mismatched + counted.unlisted ∧
            ∀ text, CommandLine.headline counted ≠ CommandLine.good text) := by
  constructor
  · intro index queue records
    have hfinal := Follower.final_beside index queue records
    exact ⟨Follower.map_finding_course index _ records, Follower.course_phases index queue records,
      hfinal, hfinal.lost_once⟩
  · intro files plan counted output h
    obtain ⟨index, queue, lines, hreads, rfl, rfl⟩ := Check.yields_check.mp h
    have hfinal := Check.final_course plan index queue lines
    have hlost : (Check.tally plan index queue lines).trapsLost =
        ((Check.course plan index queue lines).2.filterMap Check.Step.finding?).countP
          Finding.isLost := Check.trapsLost_tallyOf _ _
    refine ⟨index, queue, lines, hreads, rfl, rfl, hlost ▸ hfinal.lost_once,
      Check.countP_entries plan index queue lines ▸ hfinal.once, ?_⟩
    intro hend
    have hflagged := Check.exists_flagged hend
    have hfaulty := Check.faulty_of_flagged hflagged
    exact ⟨hfinal.left hflagged, hfaulty, CommandLine.headline_ne_good hfaulty⟩

/-! ### A trap with nothing behind it -/

namespace Check

def trapLine : Text := "core   0: exception trap_load_page_fault, epc 0x0000000000010000".toList

def trap : Reference.Record := ⟨.exception, trapLine⟩

/-- The one instruction runs twice, and its reference ends with a trap after the first time. -/
def trapped : Files := Tree.files
  [(["listing".toList], .file (bytes (listingLines.flatMap Text.line))),
    (["log".toList], .file (bytes ([logLine, logLine].flatMap Text.line))),
    (["reference".toList], .file (bytes ([referenceLine, trapLine].flatMap Text.line)))]

theorem reads_trapped : Reads trapped asked (Listing.Index.ofLines listingLines)
    (some [expected, trap]) [logLine, logLine] where
  trace := ⟨_, rfl, by decide +kernel⟩
  listing := ⟨listingLines, ⟨_, rfl, by decide +kernel⟩, rfl⟩
  reference := by
    refine .some ⟨[referenceLine, trapLine], ⟨_, rfl, by decide +kernel⟩, ?_⟩
    rw [Listing.Index.ofLines, Listing.entry?_ofClassified]
    decide +kernel

theorem history_trapped :
    history (Follower.step (Listing.Index.ofLines listingLines)) (Follower.beside [expected, trap])
        [fetched, fetched] =
      (⟨some [], true⟩,
        [{ row := .paired .matching listed.text (some expected) },
          { row := .paired .mismatching listed.text none
            detour := some ⟨1, false⟩
            exhausted := true }]) := by
  have hrow : Follower.pairedRow (Listing.Index.ofLines listingLines) fetched.address none =
      .paired .mismatching listed.text none := by
    rw [Follower.pairedRow, instruction?_fetched]
    rfl
  have hlost : Reference.Queue.Drops fetched.address [trap] [] := .ended rfl
  rw [history_cons, Follower.beside,
    Follower.step_of_isAt instruction?_fetched (Reference.Queue.isAt_eq_true.mpr rfl), history_cons,
    (Follower.Passage.lost hlost).step_eq, hrow]
  rfl

end Check

/-- The second time the trap is all there is, so the instruction is flagged, nothing is left, and
the check does not end well. -/
theorem exhaustion_final_trapped :
    let run := history (Follower.step (Listing.Index.ofLines Check.listingLines))
      (Follower.beside [Check.expected, Check.trap]) [Check.fetched, Check.fetched]
    (∃ finding ∈ run.2, finding.isLost = true ∧ finding.exhausted = true) ∧ run.1.left = 0 ∧
    ∃ counted output, (check Check.trapped Check.asked).Yields counted output ∧
      counted.trapsLost = 1 ∧ counted.referenceLeft = 0 ∧
        0 < counted.mismatched + counted.unlisted ∧
        ∀ text, CommandLine.headline counted ≠ CommandLine.good text := by
  intro run
  have hrun : run = _ := Check.history_trapped
  obtain ⟨_, _, hfinal, _⟩ := exhaustion_final.1 (Listing.Index.ofLines Check.listingLines)
    [Check.expected, Check.trap] [Check.fetched, Check.fetched]
  obtain ⟨finding, hmem, hislost⟩ : ∃ finding ∈ run.2, finding.isLost = true := by
    rw [hrun]
    exact ⟨_, List.mem_cons_of_mem _ List.mem_cons_self, rfl⟩
  have hflagged := hfinal.lost finding hmem hislost
  have hyields := Check.yields_check.mpr ⟨_, _, _, Check.reads_trapped, rfl, rfl⟩
  refine ⟨⟨finding, hmem, hislost, hflagged⟩, hfinal.left ⟨finding, hmem, hflagged⟩, _, _,
    hyields, ?_⟩
  have hlost : (Check.tally Check.asked (Listing.Index.ofLines Check.listingLines)
      (some [Check.expected, Check.trap]) [Check.logLine, Check.logLine]).trapsLost = 1 := by
    have hexecuted : Check.executed [Check.logLine, Check.logLine] =
        [Check.fetched, Check.fetched] := by decide
    rw [Check.tally, Check.trapsLost_tallyOf, Check.course, (Check.history_follower _ _ _).2,
      hexecuted]
    exact congrArg (·.2.countP Finding.isLost) hrun
  obtain ⟨_, _, _, _, _, _, _, _, hend⟩ := exhaustion_final.2 _ _ _ _ hyields
  exact ⟨hlost, hend (.inl hlost)⟩

end Lockstep
