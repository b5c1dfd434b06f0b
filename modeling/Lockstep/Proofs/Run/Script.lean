import Lockstep.Proofs.Run.Account

/-! What a check has to tell, and what is shown of it.

Neither the tick asked for nor the choice to echo moves a machine. So a check has one script for
all of them: the heading, and a piece for each executed instruction, with all that can be said of it
(`Check.script`). Asking for a tick hides the rows and shows one call stack, echoing shows lines of
the log, and what gives notice is shown in any case: `Check.shows_script`. -/
namespace Lockstep

/-- Whether an entry gives notice of something that no option hides. -/
def Report.Entry.isNotice : Report.Entry → Bool
  | heading | trap .. | exhausted _ | unlisted _ => true
  | _ => false

namespace Check
open Run

/-- All that can be said of an executed instruction. -/
structure Piece where
  line : Text
  record : Trace.Executed
  finding : Finding
  /-- The call stack that it leaves. -/
  stack : CallStack
  deriving DecidableEq, Repr

namespace Piece

/-- What is shown in any case. -/
def notices (piece : Piece) : List Report.Entry :=
  (piece.finding.detour.map (.trap piece.record.address)).toList ++
    (if piece.finding.exhausted then [.exhausted piece.record.address] else []) ++
    (if piece.finding.row.isUnlisted then [.unlisted piece.record.address] else [])

/-- What is shown where a tick may be asked for, lines may be echoed, and the call stack may be the
one asked for. -/
def entries (piece : Piece) (tick : Option Tick) (echo answers : Bool) : List Report.Entry :=
  (if echo && piece.record.dialect == .render then [.logged piece.line] else []) ++
    (piece.finding.detour.map (.trap piece.record.address)).toList ++
    (if piece.finding.exhausted then [.exhausted piece.record.address] else []) ++
    (if tick.isNone || piece.finding.row.isUnlisted
      then [Report.rowEntry piece.record.address piece.record.text piece.finding.row] else []) ++
    (if answers then
      (tick.map fun tick => .stack ⟨tick, piece.record.address, piece.stack.labels⟩).toList
    else [])

/-- The choices do not reach what gives notice. -/
theorem filter_entries (piece : Piece) (tick : Option Tick) (echo answers : Bool) :
    (piece.entries tick echo answers).filter Report.Entry.isNotice = piece.notices := by
  obtain ⟨line, record, ⟨row, detour, exhausted⟩, stack⟩ := piece
  have hline : (if echo && record.dialect == .render then [Report.Entry.logged line] else []).filter
      Report.Entry.isNotice = [] := by
    split <;> rfl
  have hdetour : (detour.map (Report.Entry.trap record.address)).toList.filter
      Report.Entry.isNotice = (detour.map (.trap record.address)).toList := by
    cases detour <;> rfl
  have hexhausted : (if exhausted then [Report.Entry.exhausted record.address] else []).filter
      Report.Entry.isNotice = if exhausted then [.exhausted record.address] else [] := by
    cases exhausted <;> rfl
  have hrow : (if tick.isNone || row.isUnlisted
      then [Report.rowEntry record.address record.text row] else []).filter
        Report.Entry.isNotice = if row.isUnlisted then [.unlisted record.address] else [] := by
    cases tick <;> cases row <;> rfl
  have hstack : (if answers then
      (tick.map fun tick => Report.Entry.stack ⟨tick, record.address, stack.labels⟩).toList
      else []).filter Report.Entry.isNotice = [] := by
    cases tick <;> cases answers <;> rfl
  simp only [entries, notices, List.filter_append, hline, hdetour, hexhausted, hrow, hstack,
    List.nil_append, List.append_nil]

end Piece

/-- The pieces of the lines of a log. -/
def piecesOf (index : Listing.Index) : Follower → CallStack → List Text → List Piece
  | _, _, [] => []
  | follower, stack, line :: lines =>
    match record? line with
    | none => piecesOf index follower stack lines
    | some record =>
      let (next, finding) := follower.step index record
      let stack := Watch.move index record.address stack
      ⟨line, record, finding, stack⟩ :: piecesOf index next stack lines

theorem piecesOf_cons_of_none (index : Listing.Index) (follower : Follower) (stack : CallStack)
    {line : Text} (h : record? line = none) (lines : List Text) :
    piecesOf index follower stack (line :: lines) = piecesOf index follower stack lines := by
  rw [piecesOf, h]

theorem piecesOf_cons_of_some (index : Listing.Index) (follower : Follower) (stack : CallStack)
    {line : Text} {record : Trace.Executed} (h : record? line = some record) (lines : List Text) :
    piecesOf index follower stack (line :: lines) =
      ⟨line, record, (follower.step index record).2, Watch.move index record.address stack⟩ ::
        piecesOf index (follower.step index record).1 (Watch.move index record.address stack)
          lines := by
  rw [piecesOf, h]

/-- Whether a piece is the first with the tick asked for. -/
def answers (tick : Option Tick) (pieces : List Piece) (i : Nat) : Bool :=
  pieces.findIdx? (fun piece => Watch.carries tick piece.record) == some i

/-- What a check has to tell. -/
structure Script where
  heading : List Report.Entry := []
  pieces : List Piece := []
  deriving DecidableEq, Repr

namespace Script

/-- What is shown of a script. -/
def entries (script : Script) (tick : Option Tick) (echo : Bool) : List Report.Entry :=
  script.heading ++ (script.pieces.mapIdx fun i piece =>
    piece.entries tick echo (answers tick script.pieces i)).flatten

def notices (script : Script) : List Report.Entry :=
  script.heading ++ script.pieces.flatMap Piece.notices

end Script

/-- A check that gets to its log has its lines to tell of, and any other has nothing. -/
def script (files : Files) (plan : Plan) : Script :=
  match files.opened .trace plan.trace, sources files plan with
  | .ok log, .ok (index, queue) =>
    { heading := if queue.isSome then [.heading] else []
      pieces := piecesOf index { reference := queue } { root := plan.entry } log.lines }
  | _, _ => {}

theorem answers_cons_zero (tick : Option Tick) (piece : Piece) (pieces : List Piece) :
    answers tick (piece :: pieces) 0 = Watch.carries tick piece.record := by
  rw [answers, List.findIdx?_cons]
  cases Watch.carries tick piece.record <;> simp

theorem answers_cons_succ (tick : Option Tick) (piece : Piece) (pieces : List Piece) (i : Nat) :
    answers tick (piece :: pieces) (i + 1) =
      (!Watch.carries tick piece.record && answers tick pieces i) := by
  rw [answers, List.findIdx?_cons]
  cases Watch.carries tick piece.record <;> simp [answers]

/-! ### One step -/

theorem Step.entries_eq_nil {step : Step} (h : step.finding? = none) : step.entries = [] := by
  cases step with
  | foreign => rfl
  | malformed cause => rfl
  | executed line record finding movement => cases h

theorem snapshot_step (index : Listing.Index) (watch : Watch) (record : Trace.Executed) :
    (watch.step index record).2.snapshot =
      if !watch.answered && Watch.carries watch.query record then
        watch.query.map fun tick =>
          ⟨tick, record.address, (Watch.move index record.address watch.stack).labels⟩
      else none := by
  show (watch.due? record).map _ = _
  rw [Watch.due?_eq]
  split
  case isTrue h =>
    obtain ⟨_, hcarries⟩ := Bool.and_eq_true_iff.mp h
    obtain ⟨_, htick⟩ := Bool.and_eq_true_iff.mp hcarries
    rw [eq_of_beq htick]
  case isFalse => rfl

/-- What is shown of a step is what is shown of its piece. -/
theorem filter_step (index : Listing.Index) (watch : Watch) (line : Text) (record : Trace.Executed)
    (finding : Finding) (echo : Bool) :
    (Step.entries (.executed line record finding (watch.step index record).2)).filter
        (Report.Options.shows { rows := watch.query.isNone, logged := echo }) =
      Piece.entries ⟨line, record, finding, Watch.move index record.address watch.stack⟩
        watch.query echo (!watch.answered && Watch.carries watch.query record) := by
  obtain ⟨row, detour, exhausted⟩ := finding
  have hline : (if record.dialect = .render then [Report.Entry.logged line] else []).filter
      (Report.Options.shows { rows := watch.query.isNone, logged := echo }) =
        if echo && record.dialect == .render then [.logged line] else [] := by
    cases record.dialect <;> cases echo <;> rfl
  have hdetour : (detour.map (Report.Entry.trap record.address)).toList.filter
      (Report.Options.shows { rows := watch.query.isNone, logged := echo }) =
        (detour.map (.trap record.address)).toList := by
    cases detour <;> rfl
  have hexhausted : (if exhausted then [Report.Entry.exhausted record.address] else []).filter
      (Report.Options.shows { rows := watch.query.isNone, logged := echo }) =
        if exhausted then [.exhausted record.address] else [] := by
    cases exhausted <;> rfl
  have hrow : [Report.rowEntry record.address record.text row].filter
      (Report.Options.shows { rows := watch.query.isNone, logged := echo }) =
        if watch.query.isNone || row.isUnlisted
        then [Report.rowEntry record.address record.text row] else [] := by
    cases watch.query <;> cases row <;> rfl
  have hstack : (((watch.step index record).2.snapshot).map Report.Entry.stack).toList.filter
      (Report.Options.shows { rows := watch.query.isNone, logged := echo }) =
        if !watch.answered && Watch.carries watch.query record then
          (watch.query.map fun tick => .stack ⟨tick, record.address,
            (Watch.move index record.address watch.stack).labels⟩).toList
        else [] := by
    rw [snapshot_step]
    cases !watch.answered && Watch.carries watch.query record <;> cases watch.query <;> rfl
  simp only [Step.entries, Report.findingEntries, List.filter_append, hline, hdetour, hexhausted,
    hrow, hstack, Piece.entries, List.append_assoc]

/-- What is shown of pieces whose call stack may have been shown before. -/
def shown (tick : Option Tick) (echo answered : Bool) (pieces : List Piece) : List Report.Entry :=
  (pieces.mapIdx fun i piece =>
    piece.entries tick echo (!answered && answers tick pieces i)).flatten

theorem shown_cons (tick : Option Tick) (echo answered : Bool) (piece : Piece)
    (pieces : List Piece) :
    shown tick echo answered (piece :: pieces) =
      piece.entries tick echo (!answered && Watch.carries tick piece.record) ++
        shown tick echo (answered || Watch.carries tick piece.record) pieces := by
  simp only [shown, List.mapIdx_cons, List.flatten_cons, answers_cons_zero, answers_cons_succ,
    Bool.not_or, Bool.and_assoc]

theorem filter_shown (tick : Option Tick) (echo answered : Bool) (pieces : List Piece) :
    (shown tick echo answered pieces).filter Report.Entry.isNotice =
      pieces.flatMap Piece.notices := by
  induction pieces generalizing answered with
  | nil => rfl
  | cons piece pieces ih =>
    rw [shown_cons, List.filter_append, Piece.filter_entries, ih, List.flatMap_cons]

/-- What is shown of a run goes by its pieces: the watch is what the induction carries, since it
knows whether the call stack was shown. -/
theorem filter_history (index : Listing.Index) (echo : Bool) (follower : Follower) (watch : Watch)
    (lines : List Text) :
    ((history (Machine.step index) ⟨follower, watch⟩ lines).2.flatMap Step.entries).filter
        (Report.Options.shows { rows := watch.query.isNone, logged := echo }) =
      shown watch.query echo watch.answered (piecesOf index follower watch.stack lines) := by
  induction lines generalizing follower watch with
  | nil => rfl
  | cons line lines ih =>
    rw [history_cons, List.flatMap_cons, List.filter_append]
    cases hline : record? line with
    | none =>
      obtain ⟨hmachine, hfinding, _⟩ := step_of_record?_eq_none index ⟨follower, watch⟩ hline
      rw [hmachine, Step.entries_eq_nil hfinding, piecesOf_cons_of_none _ _ _ hline]
      exact ih follower watch
    | some record =>
      have hrest := ih (follower.step index record).1 (watch.step index record).1
      rw [Watch.answered_step] at hrest
      rw [step_of_record?_eq_some index _ hline, filter_step, piecesOf_cons_of_some _ _ _ hline,
        shown_cons]
      exact congrArg _ hrest

/-! ### A whole check -/

/-- There is a piece for each executed instruction. -/
theorem map_record_piecesOf (index : Listing.Index) (follower : Follower) (stack : CallStack)
    (lines : List Text) :
    (piecesOf index follower stack lines).map Piece.record = executed lines := by
  induction lines generalizing follower stack with
  | nil => rfl
  | cons line lines ih =>
    cases hline : record? line with
    | none =>
      rw [piecesOf_cons_of_none _ _ _ hline, executed, List.filterMap_cons_none hline]
      exact ih follower stack
    | some record =>
      rw [piecesOf_cons_of_some _ _ _ hline, executed, List.filterMap_cons_some hline]
      exact congrArg (record :: ·) (ih _ _)

theorem any_piecesOf (tick : Option Tick) (index : Listing.Index) (follower : Follower)
    (stack : CallStack) (lines : List Text) :
    (piecesOf index follower stack lines).any (fun piece => Watch.carries tick piece.record) =
      (executed lines).any (Watch.carries tick) := by
  rw [← map_record_piecesOf index follower stack, List.any_map]
  rfl

section
variable (plan : Plan) (tick : Option Tick) (echo : Bool) (index : Listing.Index)
  (queue : Option Reference.Queue) (lines : List Text)

theorem render_entries :
    Report.render { plan with tick, echo }.options
        (entries { plan with tick, echo } index queue lines) =
      (Script.entries
        { heading := if queue.isSome then [.heading] else []
          pieces := piecesOf index { reference := queue } { root := plan.entry } lines }
        tick echo).flatMap Report.Entry.render := by
  have hheading : (if queue.isSome then [Report.Entry.heading] else []).filter
      (Report.Options.shows { rows := tick.isNone, logged := echo }) =
        if queue.isSome then [.heading] else [] := by
    cases queue <;> rfl
  have hpieces := filter_history index echo { reference := queue }
    { stack := { root := plan.entry }, query := tick } lines
  rw [Report.render, entries, List.filter_append]
  exact congrArg _ (congrArg₂ _ hheading hpieces)

/-- Only the mark of the call stack goes by the tick. -/
theorem tally_with :
    tally { plan with tick, echo } index queue lines =
      { tally plan index queue lines with
        stackShown := (executed lines).any (Watch.carries tick) } := by
  rw [tally_eq, tally_eq]

end

theorem filter_script (files : Files) (plan : Plan) (tick : Option Tick) (echo : Bool) :
    ((script files plan).entries tick echo).filter Report.Entry.isNotice =
      (script files plan).notices := by
  have hheading : (script files plan).heading.filter Report.Entry.isNotice =
      (script files plan).heading := by
    unfold script
    split
    case h_1 => split <;> rfl
    case h_2 => rfl
  rw [Script.entries, List.filter_append, hheading]
  exact congrArg _ (filter_shown tick echo false _)

theorem outcome_with (files : Files) (plan : Plan) (tick : Option Tick) (echo : Bool) :
    (check files { plan with tick, echo }).outcome =
      (((script files plan).entries tick echo).flatMap Report.Entry.render,
        (check files plan).result.map fun counted =>
          { counted with
            stackShown := (script files plan).pieces.any fun piece =>
              Watch.carries tick piece.record }) := by
  have hplan : (check files plan).result = _ := (Prod.mk.inj (outcome_check files plan)).2
  rw [hplan, outcome_check]
  show onward (files.opened .trace plan.trace) (fun log => onward (sources files plan) _) = _
  unfold script
  cases files.opened .trace plan.trace with
  | error failure => rfl
  | ok log =>
    cases sources files plan with
    | error failure => rfl
    | ok source =>
      obtain ⟨index, queue⟩ := source
      refine Prod.ext (render_entries plan tick echo index queue log.lines) ?_
      show (log.whole .trace).map (tally { plan with tick, echo } index queue) =
        ((log.whole .trace).map (tally plan index queue)).map _
      unfold Stream.whole
      cases log.failure with
      | some cause => rfl
      | none =>
        show Except.ok _ = Except.ok _
        rw [tally_with, any_piecesOf]

/-- **Asking for a call stack and echoing the log only decide what is shown of a script, and the
script, the failure and the counters are the same for every choice.** -/
theorem shows_script (files : Files) (plan : Plan) (tick : Option Tick) (echo : Bool) :
    let script := script files plan
    let run := check files { plan with tick, echo }
    run.result = (check files plan).result.map (fun counted =>
      { counted with
        stackShown := script.pieces.any fun piece => Watch.carries tick piece.record }) ∧
    run.output = (script.entries tick echo).flatMap Report.Entry.render ∧
    (script.entries tick echo).filter Report.Entry.isNotice = script.notices := by
  intro script run
  obtain ⟨houtput, hresult⟩ := Prod.mk.inj (outcome_with files plan tick echo)
  exact ⟨hresult, houtput, filter_script files plan tick echo⟩

end Check

end Lockstep
