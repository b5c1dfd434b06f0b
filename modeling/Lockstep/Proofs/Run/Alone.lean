import Lockstep.Proofs.Run.Script

/-! A check beside a reference, and the same check alone.

What a reference adds to a finding can be taken off it again: the verdict, the record, the detour
and the mark of the end. What is left is the finding without a reference, in whatever state the
reference is (`Follower.alone_step`). So the script of a check beside a reference holds that of the
check alone (`Check.script_alone`), and its report holds the report: `Check.reference_taken_off`. -/
namespace Lockstep

/-! ### What is left without a reference -/

def Row.alone : Row → Row
  | paired _ text _ => listed text
  | row => row

def Finding.alone (finding : Finding) : Finding := { row := finding.row.alone }

/-- The counters that do not go by a reference. -/
def Report.Tally.alone (tally : Tally) : Tally :=
  { records := tally.records, rows := tally.rows, unlisted := tally.unlisted
    malformed := tally.malformed, stackShown := tally.stackShown }

namespace Report.Entry

/-- What is left of an entry beside a reference: the row of the listing, and all that is not about
the reference. -/
def alone? : Entry → Option Entry
  | heading | trap .. | exhausted _ => none
  | paired _ known executed _ => some (.listed known executed)
  | entry => some entry

/-- Whether an entry has nothing to do with a reference. -/
def isApart : Entry → Bool
  | logged _ | unlisted _ | stack _ => true
  | _ => false

theorem filter_filterMap_alone? (entries : List Entry) :
    (entries.filterMap alone?).filter isApart = entries.filter isApart := by
  induction entries with
  | nil => rfl
  | cons entry entries ih =>
    cases entry with
    | logged line => exact congrArg (logged line :: ·) ih
    | unlisted address => exact congrArg (unlisted address :: ·) ih
    | stack snapshot => exact congrArg (stack snapshot :: ·) ih
    | _ => exact ih

end Report.Entry

/-! ### One instruction -/

theorem Row.isUnlisted_alone (row : Row) : row.alone.isUnlisted = row.isUnlisted := by
  cases row <;> rfl

namespace Follower

theorem alone_listedRow (index : Listing.Index) (address : Address) :
    (listedRow index address).alone = listedRow index address := by
  unfold listedRow
  cases index.instruction? address <;> rfl

theorem alone_pairedRow (index : Listing.Index) (address : Address)
    (head : Option Reference.Record) :
    (pairedRow index address head).alone = listedRow index address := by
  unfold pairedRow listedRow
  cases index.instruction? address <;> rfl

/-- **In whatever state a reference is, what an instruction finds apart from it is the same.** -/
theorem alone_step (index : Listing.Index) (follower : Follower) (record : Trace.Executed) :
    (step index follower record).2.alone = { row := listedRow index record.address } := by
  unfold step
  cases follower.reference with
  | none => exact congrArg (Finding.mk · none false) (alone_listedRow index record.address)
  | some queue => exact congrArg (Finding.mk · none false) (alone_pairedRow index record.address _)

theorem alone_history (index : Listing.Index) (follower : Follower)
    (records : List Trace.Executed) :
    (history (step index) follower records).2.map Finding.alone =
      (history (step index) {} records).2 := by
  rw [history_static]
  induction records generalizing follower with
  | nil => rfl
  | cons record records ih => rw [history_cons, List.map_cons, alone_step, ih, List.map_cons]

end Follower

namespace Check
open Run

def Piece.alone (piece : Piece) : Piece := { piece with finding := piece.finding.alone }

def Script.alone (script : Script) : Script :=
  { heading := script.heading.filterMap Report.Entry.alone?
    pieces := script.pieces.map Piece.alone }

theorem Piece.entries_alone (piece : Piece) (tick : Option Tick) (echo answers : Bool) :
    piece.alone.entries tick echo answers =
      (piece.entries tick echo answers).filterMap Report.Entry.alone? := by
  obtain ⟨line, record, ⟨row, detour, exhausted⟩, stack⟩ := piece
  have hline : (if echo && record.dialect == .render
      then [Report.Entry.logged line] else []).filterMap Report.Entry.alone? =
        if echo && record.dialect == .render then [.logged line] else [] := by
    split <;> rfl
  have hdetour : (detour.map (Report.Entry.trap record.address)).toList.filterMap
      Report.Entry.alone? = [] := by
    cases detour <;> rfl
  have hexhausted : (if exhausted then [Report.Entry.exhausted record.address] else []).filterMap
      Report.Entry.alone? = [] := by
    cases exhausted <;> rfl
  have hrow : (if tick.isNone || row.isUnlisted
      then [Report.rowEntry record.address record.text row] else []).filterMap
        Report.Entry.alone? =
          if tick.isNone || row.alone.isUnlisted
          then [Report.rowEntry record.address record.text row.alone] else [] := by
    cases tick <;> cases row <;> rfl
  have hstack : (if answers then
      (tick.map fun tick => Report.Entry.stack ⟨tick, record.address, stack.labels⟩).toList
      else []).filterMap Report.Entry.alone? =
        if answers then
          (tick.map fun tick => Report.Entry.stack ⟨tick, record.address, stack.labels⟩).toList
        else [] := by
    cases tick <;> cases answers <;> rfl
  rw [entries, entries, List.filterMap_append, List.filterMap_append, List.filterMap_append,
    List.filterMap_append, hline, hdetour, hexhausted, hrow, hstack]
  rfl

theorem piecesOf_alone (index : Listing.Index) (follower : Follower) (stack : CallStack)
    (lines : List Text) :
    piecesOf index {} stack lines = (piecesOf index follower stack lines).map Piece.alone := by
  induction lines generalizing follower stack with
  | nil => rfl
  | cons line lines ih =>
    cases hline : record? line with
    | none =>
      rw [piecesOf_cons_of_none _ _ _ hline, piecesOf_cons_of_none _ _ _ hline]
      exact ih follower stack
    | some record =>
      have hfinding : (Follower.step index {} record).2 = (follower.step index record).2.alone :=
        (Follower.alone_step index follower record).symm
      rw [piecesOf_cons_of_some _ _ _ hline, piecesOf_cons_of_some _ _ _ hline, List.map_cons,
        ← ih, hfinding]
      rfl

theorem shown_alone (tick : Option Tick) (echo answered : Bool) (pieces : List Piece) :
    shown tick echo answered (pieces.map Piece.alone) =
      (shown tick echo answered pieces).filterMap Report.Entry.alone? := by
  induction pieces generalizing answered with
  | nil => rfl
  | cons piece pieces ih =>
    rw [List.map_cons, shown_cons, shown_cons, List.filterMap_append, Piece.entries_alone, ← ih]
    rfl

theorem Script.entries_alone (script : Script) (tick : Option Tick) (echo : Bool) :
    script.alone.entries tick echo = (script.entries tick echo).filterMap Report.Entry.alone? := by
  rw [Script.entries, Script.entries, List.filterMap_append]
  exact congrArg _ (shown_alone tick echo false script.pieces)

theorem tally_none (plan : Plan) (index : Listing.Index) (queue : Option Reference.Queue)
    (lines : List Text) :
    tally plan index none lines = (tally plan index queue lines).alone := by
  have hfindings : (compared index none lines).2 =
      (compared index queue lines).2.map Finding.alone :=
    (Follower.alone_history index { reference := queue } (executed lines)).symm
  have hrow : ∀ finding : Finding, finding.alone.row.isUnlisted = finding.row.isUnlisted :=
    fun finding => finding.row.isUnlisted_alone
  have halone := tally_alone plan index lines
  simp only [tally_eq, hfindings, List.countP_map, Function.comp_def, hrow] at halone ⊢
  simp only [halone, Report.Tally.alone]

/-! ### A whole check -/

theorem row_pairedRow (index : Listing.Index) (address : Address) (head : Option Reference.Record) :
    Follower.pairedRow index address head = .unlisted ∨
      ∃ verdict text, Follower.pairedRow index address head = .paired verdict text head := by
  unfold Follower.pairedRow
  cases index.instruction? address with
  | none => exact .inl rfl
  | some known => exact .inr ⟨_, _, rfl⟩

/-- Beside a reference every row of the listing is compared. -/
theorem row_of_mem_piecesOf {index : Listing.Index} {queue : Reference.Queue} {exhausted : Bool}
    {stack : CallStack} {lines : List Text} {piece : Piece}
    (h : piece ∈ piecesOf index ⟨some queue, exhausted⟩ stack lines) :
    piece.finding.row = .unlisted ∨
      ∃ verdict text record, piece.finding.row = .paired verdict text record := by
  induction lines generalizing queue exhausted stack with
  | nil => cases h
  | cons line lines ih =>
    cases hline : record? line with
    | none =>
      rw [piecesOf_cons_of_none _ _ _ hline] at h
      exact ih h
    | some record =>
      rw [piecesOf_cons_of_some _ _ _ hline] at h
      rcases List.mem_cons.mp h with rfl | h
      · rcases row_pairedRow index record.address
          (queue.passTrap record.address).2.head? with hrow | ⟨verdict, text, hrow⟩
        · exact .inl hrow
        · exact .inr ⟨verdict, text, _, hrow⟩
      · obtain ⟨rest, exhausted', hnext⟩ :=
          (Follower.step_passage index queue exhausted record).exists_some
        rw [hnext] at h
        exact ih h

section
variable {files : Files} {path : Text} {reference : List Text}

/-- A reference that can be read is all that the inputs differ in. -/
theorem sources_pair (hreads : files.Reads path reference) (plan : Plan) :
    (∃ failure, sources files { plan with reference := none } = .error failure ∧
      sources files { plan with reference := some path } = .error failure) ∨
    ∃ index queue, sources files { plan with reference := none } = .ok (index, none) ∧
      sources files { plan with reference := some path } = .ok (index, some queue) := by
  have hreference : files.linesOf .reference path = .ok reference :=
    Files.linesOf_eq_ok_iff.mpr hreads
  simp only [sources, Option.mapM_some, hreference]
  cases files.linesOf .listing plan.listing with
  | error failure => exact .inl ⟨failure, rfl, rfl⟩
  | ok listing => exact .inr ⟨_, _, rfl, rfl⟩

/-- Either check fails before its log, or both follow it. -/
theorem check_pair (hreads : files.Reads path reference) (plan : Plan) :
    let alone := { plan with reference := none }
    let beside := { plan with reference := some path }
    (∃ failure, (check files alone).result = .error failure ∧
      (check files beside).result = .error failure ∧
      script files alone = {} ∧ script files beside = {}) ∨
    ∃ (log : Stream) (index : Listing.Index) (queue : Reference.Queue),
      (check files alone).result = (log.whole .trace).map (tally plan index none) ∧
      (check files beside).result = (log.whole .trace).map (tally plan index (some queue)) ∧
      script files alone = { pieces := piecesOf index {} { root := plan.entry } log.lines } ∧
      script files beside =
        { heading := [.heading]
          pieces := piecesOf index (.beside queue) { root := plan.entry } log.lines } := by
  intro alone beside
  have halone : (check files alone).result = _ := (Prod.mk.inj (outcome_check files alone)).2
  have hbeside : (check files beside).result = _ := (Prod.mk.inj (outcome_check files beside)).2
  rw [halone, hbeside, script, script, show alone.trace = plan.trace from rfl,
    show beside.trace = plan.trace from rfl]
  cases files.opened .trace plan.trace with
  | error failure => exact .inl ⟨failure, rfl, rfl, rfl, rfl⟩
  | ok log =>
    rcases sources_pair hreads plan with ⟨failure, hnone, hsome⟩ | ⟨index, queue, hnone, hsome⟩
    · rw [hnone, hsome]
      exact .inl ⟨failure, rfl, rfl, rfl, rfl⟩
    · rw [hnone, hsome]
      exact .inr ⟨log, index, queue, rfl, rfl, rfl, rfl⟩

theorem script_alone (hreads : files.Reads path reference) (plan : Plan) :
    script files { plan with reference := none } =
      (script files { plan with reference := some path }).alone := by
  rcases check_pair hreads plan with ⟨_, _, _, hnone, hsome⟩ |
    ⟨log, index, queue, _, _, hnone, hsome⟩
  · rw [hnone, hsome]
    rfl
  · rw [hnone, hsome]
    exact congrArg (Script.mk []) (piecesOf_alone index _ _ log.lines)

theorem result_alone (hreads : files.Reads path reference) (plan : Plan) :
    (check files { plan with reference := none }).result =
      (check files { plan with reference := some path }).result.map Report.Tally.alone := by
  rcases check_pair hreads plan with ⟨_, hnone, hsome, _, _⟩ |
    ⟨log, index, queue, hnone, hsome, _, _⟩
  · rw [hnone, hsome]
    rfl
  · rw [hnone, hsome]
    cases log.whole .trace with
    | error failure => rfl
    | ok lines => exact congrArg Except.ok (tally_none plan index (some queue) lines)

theorem row_of_mem_script (hreads : files.Reads path reference) (plan : Plan) {piece : Piece}
    (h : piece ∈ (script files { plan with reference := some path }).pieces) :
    piece.finding.row = .unlisted ∨
      ∃ verdict text record, piece.finding.row = .paired verdict text record := by
  rcases check_pair hreads plan with ⟨_, _, _, _, hsome⟩ | ⟨log, index, queue, _, _, _, hsome⟩
  · rw [hsome] at h
    cases h
  · rw [hsome] at h
    exact row_of_mem_piecesOf h

/-- **A report beside a reference, without what it says of the reference, is the report alone.** -/
theorem reference_taken_off (hreads : files.Reads path reference) (plan : Plan) :
    let alone := { plan with reference := none }
    let beside := { plan with reference := some path }
    let written := (script files beside).entries plan.tick plan.echo
    (check files alone).result = (check files beside).result.map Report.Tally.alone ∧
    script files alone = (script files beside).alone ∧
    (∀ piece ∈ (script files beside).pieces, piece.finding.row = .unlisted ∨
      ∃ verdict text record, piece.finding.row = .paired verdict text record) ∧
    (check files beside).output = written.flatMap Report.Entry.render ∧
    (check files alone).output =
      (written.filterMap Report.Entry.alone?).flatMap Report.Entry.render ∧
    (written.filterMap Report.Entry.alone?).filter Report.Entry.isApart =
      written.filter Report.Entry.isApart := by
  intro alone beside written
  have hbeside : (check files beside).output = written.flatMap Report.Entry.render :=
    (Prod.mk.inj (outcome_with files beside plan.tick plan.echo)).1
  have halone : (check files alone).output =
      ((script files alone).entries plan.tick plan.echo).flatMap Report.Entry.render :=
    (Prod.mk.inj (outcome_with files alone plan.tick plan.echo)).1
  rw [script_alone hreads plan, Script.entries_alone] at halone
  exact ⟨result_alone hreads plan, script_alone hreads plan,
    fun _ hpiece => row_of_mem_script hreads plan hpiece, hbeside, halone,
    Report.Entry.filter_filterMap_alone? written⟩

end

/-- A comparison that finds its one instruction in the reference, and the same check alone. -/
theorem reference_taken_off_asked :
    inputs.Reads "reference".toList [referenceLine] ∧
      (check inputs asked).result =
        .ok { records := 1, rows := 1, matched := 1, stackShown := true } ∧
      (check inputs { asked with reference := none }).result =
        .ok { records := 1, rows := 1, stackShown := true } := by
  have hreads : inputs.Reads "reference".toList [referenceLine] := ⟨_, rfl, by decide +kernel⟩
  have hbeside := (yields_check.mpr ⟨_, _, _, reads_inputs, tally_asked.symm, rfl⟩).1
  have halone := (reference_taken_off hreads asked).1
  rw [show { asked with reference := some "reference".toList } = asked from rfl, hbeside] at halone
  exact ⟨hreads, hbeside, halone⟩

end Check

end Lockstep
