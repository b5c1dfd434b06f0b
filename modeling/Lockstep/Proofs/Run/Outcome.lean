import Lockstep.Run.Check
import Lockstep.Run.Print

/-! How a run ends, and what it has written by then.

Opening and reading write nothing, so a run that fails there has written nothing, and a run that
goes on does so from what was read (`outcome_bind_of_silent`). A check opens its log, reads its
other inputs (`Check.sources`), and then all depends on the lines of the log: `outcome_check`.
The same holds of the strings printed in a log, which need no other input (`outcome_print`). -/
namespace Lockstep

namespace Run

variable {α β : Type}

/-- What a run has written when it ends, and its result. Notes do not come into it. -/
def outcome (run : Run α) : Text × Except Failure α := (run.output, run.result)

/-- The outcome of going on from a result, of which a failure is the end. -/
def onward (result : Except Failure α) (next : α → Text × Except Failure β) :
    Text × Except Failure β :=
  match result with
  | .ok value => next value
  | .error failure => ([], .error failure)

theorem onward_bind {γ : Type} (result : Except Failure α) (f : α → Except Failure β)
    (next : β → Text × Except Failure γ) :
    onward (result >>= f) next = onward result fun value => onward (f value) next := by
  cases result <;> rfl

/-- Going on without writing is going on with the results alone. -/
theorem onward_silent (result : Except Failure α) (f : α → Except Failure β) :
    (onward result fun value => ([], f value)) = ([], result >>= f) := by
  cases result <;> rfl

/-- An item is treated in two passes as in one. -/
theorem onward_mapM {γ δ : Type} (given : Option γ) (f : γ → Except Failure α)
    (g : α → Except Failure β) (next : Option β → Text × Except Failure δ) :
    (onward (given.mapM f) fun middle => onward (middle.mapM g) next) =
      onward (given.mapM fun item => f item >>= g) next := by
  cases given with
  | none => rfl
  | some item =>
    show onward (f item >>= fun value => .ok (some value)) _ =
      onward ((f item >>= g) >>= fun value => .ok (some value)) _
    cases f item <;> rfl

theorem onward_eq_ok_iff {result : Except Failure α} {next : α → Text × Except Failure β}
    {output : Text} {value : β} :
    onward result next = (output, .ok value) ↔
      ∃ middle, result = .ok middle ∧ next middle = (output, .ok value) := by
  cases result <;> simp [onward]

theorem outcome_bind_of_silent {run : Run α} {result : Except Failure α}
    (h : run.outcome = ([], result)) (next : α → Run β) :
    (run >>= next).outcome = onward result fun value => (next value).outcome := by
  obtain ⟨notes, output, result'⟩ := run
  obtain ⟨rfl, rfl⟩ := Prod.mk.inj h
  cases result' <;> rfl

theorem outcome_write_bind (text : Text) (next : Unit → Run β) :
    (write text >>= next).outcome = (text ++ (next ()).output, (next ()).result) := rfl

/-- Only the text is written before a run that writes nothing. -/
theorem outcome_write_bind_of_silent (text : Text) {next : Unit → Run β} {result : Except Failure β}
    (h : (next ()).outcome = ([], result)) : (write text >>= next).outcome = (text, result) := by
  obtain ⟨houtput, hresult⟩ := Prod.mk.inj h
  rw [outcome_write_bind, houtput, hresult, List.append_nil]

theorem outcome_log_bind (events : List Event) (next : Unit → Run β) :
    (log events >>= next).outcome = (next ()).outcome := rfl

theorem outcome_pure (value : α) : (pure value : Run α).outcome = ([], .ok value) := rfl

theorem outcome_within (work : Work) (run : Run α) : (within work run).outcome = run.outcome := rfl

end Run

/-! ### Inputs -/

/-- An input opened by its path. -/
def Files.opened (files : Files) (input : Input) (path : Text) : Except Failure Stream :=
  match files.openStream path with
  | .ok stream => .ok stream
  | .error cause => .error (.opening input path cause)

/-- The lines of an input that does not break off. -/
def Stream.whole (stream : Stream) (input : Input) : Except Failure (List Text) :=
  match stream.failure with
  | none => .ok stream.lines
  | some cause => .error (.reading input cause)

/-- The lines of an input by its path. -/
def Files.linesOf (files : Files) (input : Input) (path : Text) : Except Failure (List Text) :=
  files.opened input path >>= (·.whole input)

namespace Run

variable {α β γ : Type}

theorem outcome_openStream (files : Files) (input : Input) (path : Text) :
    (openStream files input path).outcome = ([], files.opened input path) := by
  unfold openStream Files.opened
  cases files.openStream path <;> rfl

theorem outcome_toEnd (input : Input) (stream : Stream) :
    (toEnd input stream).outcome = ([], (stream.whole input).map fun _ => ()) := by
  unfold toEnd Stream.whole
  cases stream.failure <;> rfl

theorem outcome_readLines (input : Input) (stream : Stream) :
    (readLines input stream).outcome = ([], stream.whole input) := by
  unfold readLines
  rw [outcome_bind_of_silent (outcome_toEnd input stream), Stream.whole]
  cases stream.failure <;> rfl

/-- What is done silently to each item is done silently to what there may be. -/
theorem outcome_mapM {step : γ → Run α} {f : γ → Except Failure α}
    (h : ∀ item, (step item).outcome = ([], f item)) (given : Option γ) :
    (given.mapM step).outcome = ([], given.mapM f) := by
  cases given with
  | none => rfl
  | some item =>
    show (step item >>= fun value => pure (some value)).outcome = _
    rw [outcome_bind_of_silent (h item)]
    exact onward_silent (f item) fun value => .ok (some value)

end Run

/-! ### A check -/

namespace Check

open Run

/-- What a check reads beside its log: the index, and the reference from its start on. -/
def sources (files : Files) (plan : Plan) :
    Except Failure (Listing.Index × Option Reference.Queue) := do
  let index ← (files.linesOf .listing plan.listing).map Listing.Index.ofLines
  let queue ← plan.reference.mapM fun path =>
    (files.linesOf .reference path).map (Reference.Queue.ofLines (index.entry? plan.entry))
  return (index, queue)

/-- Inputs with the same lines are the same sources. -/
theorem sources_congr {files others : Files} {plan : Plan}
    (hlisting : others.linesOf .listing plan.listing = files.linesOf .listing plan.listing)
    (hreference : ∀ path ∈ plan.reference,
      others.linesOf .reference path = files.linesOf .reference path) :
    sources others plan = sources files plan := by
  unfold sources
  rw [hlisting]
  cases hplan : plan.reference with
  | none => rfl
  | some path => simp only [Option.mapM_some, hreference path hplan]

section
variable (plan : Plan) (index : Listing.Index) (queue : Option Reference.Queue) (lines : List Text)

/-- The machine after the lines of a log, and its steps. -/
def course : Machine × List Step := history (Machine.step index) (Machine.start plan queue) lines

/-- The entries of a report, shown or not. -/
def entries : List Report.Entry :=
  (if queue.isSome then [.heading] else []) ++
    (course plan index queue lines).2.flatMap Step.entries

/-- The counters of a check. -/
def tally : Report.Tally :=
  tallyOf (course plan index queue lines).2 (course plan index queue lines).1

end

theorem outcome_loadListing (files : Files) (path : Text) :
    (loadListing files path).outcome =
      ([], (files.linesOf .listing path).map Listing.Index.ofLines) := by
  unfold loadListing Files.linesOf
  rw [outcome_bind_of_silent (outcome_openStream files .listing path)]
  simp only [outcome_bind_of_silent (outcome_readLines _ _), outcome_log_bind, outcome_pure]
  cases files.opened .listing path with
  | error failure => rfl
  | ok stream =>
    show onward (stream.whole .listing) _ = ([], (stream.whole .listing).map _)
    cases stream.whole .listing <;> rfl

theorem outcome_loadReference (start : Option Address) (stream : Stream) :
    (loadReference start stream).outcome =
      ([], (stream.whole .reference).map (Reference.Queue.ofLines start)) := by
  unfold loadReference
  rw [outcome_bind_of_silent (outcome_readLines .reference stream)]
  cases stream.whole .reference <;> rfl

theorem outcome_follow (plan : Plan) (index : Listing.Index) (queue : Option Reference.Queue)
    (log : Stream) :
    (follow plan index queue log).outcome =
      (Report.render plan.options ((course plan index queue log.lines).2.flatMap Step.entries),
        (log.whole .trace).map (tally plan index queue)) := by
  refine outcome_write_bind_of_silent _ ?_
  rw [outcome_log_bind, outcome_bind_of_silent (outcome_toEnd .trace log), Stream.whole]
  cases log.failure <;> rfl

/-- **A check opens its log, reads its other inputs, and follows the log as far as it goes.** -/
theorem outcome_check (files : Files) (plan : Plan) :
    (check files plan).outcome =
      onward (files.opened .trace plan.trace) fun log =>
        onward (sources files plan) fun (index, queue) =>
          (Report.render plan.options (entries plan index queue log.lines),
            (log.whole .trace).map (tally plan index queue)) := by
  unfold check
  rw [outcome_within, outcome_bind_of_silent (outcome_openStream files .trace plan.trace)]
  congr 1
  funext log
  rw [sources, outcome_bind_of_silent
    ((outcome_within .indexing _).trans (outcome_loadListing files plan.listing)), onward_bind]
  congr 1
  funext index
  rw [outcome_bind_of_silent (outcome_mapM (outcome_openStream files .reference) plan.reference),
    onward_bind]
  have hfused : (fun path => (files.linesOf .reference path).map
      (Reference.Queue.ofLines (index.entry? plan.entry))) =
        fun path => files.opened .reference path >>= fun stream =>
          (stream.whole .reference).map (Reference.Queue.ofLines (index.entry? plan.entry)) := by
    funext path
    unfold Files.linesOf
    cases files.opened .reference path <;> rfl
  rw [hfused, ← onward_mapM]
  congr 1
  funext reference
  rw [outcome_log_bind, outcome_bind_of_silent ((outcome_within .loading _).trans
    (outcome_mapM (outcome_loadReference (index.entry? plan.entry)) reference))]
  congr 1
  funext queue
  obtain ⟨houtput, hresult⟩ := Prod.mk.inj (outcome_follow plan index queue log)
  rw [outcome_write_bind, houtput, hresult, ← Report.render_append]
  rfl

end Check

/-- Printed strings are written as far as the log can be read. -/
theorem outcome_print (files : Files) (stamped : Bool) (path : Text) :
    (print files stamped path).outcome =
      Run.onward (files.opened .trace path) fun log =>
        ((Printed.extract stamped log.lines).2, (log.whole .trace).map fun _ => ()) := by
  unfold print
  rw [Run.outcome_within, Run.outcome_bind_of_silent (Run.outcome_openStream files .trace path)]
  congr 1
  funext log
  refine Run.outcome_write_bind_of_silent _ ?_
  rw [Run.outcome_bind_of_silent (Run.outcome_toEnd .trace log)]
  cases log.whole .trace <;> rfl

end Lockstep
