import Lockstep.CommandLine.Program
import Lockstep.Proofs.Pairing.Sums
import Lockstep.Proofs.Run.Completed
import Lockstep.Proofs.Run.Steps
import Lockstep.Proofs.Text.Lines

/-! Runs that stream their log.

A run opens its log, reads its other inputs, and then writes what it has to say of a line before it
takes the next one. So it fails with the first thing that fails (`Run.Streams.fails`), is silent
until it comes to the log (`quiet`), says of a log that breaks off what it says of the lines
delivered (`broken`), and takes nothing back when a log goes on (`continued`). A check streams its
log, and so does the extraction of printed strings: `streams_logs`. -/
namespace Lockstep

/-! ### Failures in order -/

/-- Why a path does not open, if it does not. -/
def Files.openFailure? (files : Files) (input : Input) (path : Text) : Option Failure :=
  match files.openStream path with
  | .ok _ => none
  | .error cause => some (.opening input path cause)

/-- Why an input that opens cannot be read to its end, if it cannot. -/
def Files.readFailure? (files : Files) (input : Input) (path : Text) : Option Failure :=
  match files.openStream path with
  | .ok stream => stream.failure.map (.reading input)
  | .error _ => none

theorem Files.openFailure?_of_ok {files : Files} {path : Text} {stream : Stream}
    (h : files.openStream path = .ok stream) (input : Input) :
    files.openFailure? input path = none := by
  rw [openFailure?, h]

theorem Files.readFailure?_of_ok {files : Files} {path : Text} {stream : Stream}
    (h : files.openStream path = .ok stream) (input : Input) :
    files.readFailure? input path = stream.failure.map (.reading input) := by
  rw [readFailure?, h]

theorem Files.openFailure?_ne_reading (files : Files) (input : Input) (path : Text) (read : Input)
    (cause : ReadError) : files.openFailure? input path ≠ some (.reading read cause) := by
  unfold openFailure?
  cases files.openStream path <;> simp

theorem Files.readFailure?_ne_reading (files : Files) {input read : Input} (h : input ≠ read)
    (path : Text) (cause : ReadError) :
    files.readFailure? input path ≠ some (.reading read cause) := by
  unfold readFailure?
  cases files.openStream path <;> simp [h]

/-- What can be missing beside the log of a check, in the order in which it is tried. -/
def Check.missing (plan : Plan) (files : Files) : List (Option Failure) :=
  [files.openFailure? .listing plan.listing,
    files.readFailure? .listing plan.listing,
    plan.reference.bind (files.openFailure? .reference),
    plan.reference.bind (files.readFailure? .reference)]

/-- All that can fail a check: its log is opened first, and read last. -/
def Check.failures (files : Files) (plan : Plan) : List (Option Failure) :=
  files.openFailure? .trace plan.trace :: missing plan files ++
    [files.readFailure? .trace plan.trace]

/-- All that can fail the extraction of printed strings. -/
def printFailures (files : Files) (path : Text) : List (Option Failure) :=
  [files.openFailure? .trace path, files.readFailure? .trace path]

/-! ### What it is to stream -/

/-- Two file systems have the same at some paths. -/
def Files.SameAt (paths : List Text) (files others : Files) : Prop :=
  ∀ path ∈ paths, others.openStream path = files.openStream path

/-- The counters after part of a log, beside those after more of it. -/
structure Report.Tally.Within (part more : Report.Tally) : Prop where
  records : part.records ≤ more.records
  rows : part.rows ≤ more.rows
  matched : part.matched ≤ more.matched
  mismatched : part.mismatched ≤ more.mismatched
  unlisted : part.unlisted ≤ more.unlisted
  trapsPassed : part.trapsPassed ≤ more.trapsPassed
  trapsLost : part.trapsLost ≤ more.trapsLost
  malformed : part.malformed ≤ more.malformed
  stackShown : part.stackShown = true → more.stackShown = true
  referenceLeft : more.referenceLeft ≤ part.referenceLeft

/-- How a run over a log streams it: `paths` are those of its other inputs, `failures` lists what
can fail it, and `within` compares the results for part of a log and for more of it. -/
structure Run.Streams {α : Type} (paths : List Text)
    (failures : Files → Text → List (Option Failure)) (within : α → α → Prop)
    (run : Files → Text → Run α) : Prop where
  /-- The run fails exactly if something fails, and with the first of it. -/
  fails : ∀ files log failure, (run files log).result = .error failure ↔
    (failures files log).findSome? id = some failure
  /-- Where anything but the reading of the log fails, nothing is written. -/
  quiet : ∀ files log failure, (run files log).result = .error failure →
    (∀ cause, failure ≠ .reading .trace cause) → (run files log).output = []
  /-- Of a log that breaks off is written what is written of the lines delivered. -/
  broken : ∀ files log cause, (run files log).result = .error (.reading .trace cause) →
    ∃ stream whole, files.openStream log = .ok stream ∧ stream.failure = some cause ∧
      whole <+: stream.bytes ∧ Stream.readAll { bytes := whole } = .ok stream.lines ∧
      ∀ others other, Files.SameAt paths files others → others.Reads other stream.lines →
        ∃ value, (run others other).Yields value (run files log).output
  /-- A log that goes on after a whole line has more written of it, and nothing else before that. -/
  continued : ∀ files log others other front back failure,
    Files.SameAt paths files others → (front = [] ∨ front.getLast? = some 0x0A) →
    files.openStream log = .ok { bytes := front } →
    others.openStream other = .ok { bytes := front ++ back, failure } →
    (run files log).output <+: (run others other).output ∧
      ∀ value output, (run files log).Yields value output → failure = none →
        ∃ value' output', (run others other).Yields value' output' ∧ within value value'

/-! ### Runs that go by the lines of a log -/

namespace Run

/-- The failure that a result is, if it is one. -/
def failure? {α : Type} : Except Failure α → Option Failure
  | .ok _ => none
  | .error failure => some failure

theorem findSome?_id_cons {α : Type} (given : Option α) (more : List (Option α)) :
    (given :: more).findSome? id = given.or (more.findSome? id) := by
  cases given <;> rfl

theorem failure?_eq_some_iff {α : Type} {result : Except Failure α} {failure : Failure} :
    failure? result = some failure ↔ result = .error failure := by
  cases result <;> simp [failure?]

theorem failure?_map {α β : Type} (result : Except Failure α) (f : α → β) :
    failure? (result.map f) = failure? result := by
  cases result <;> rfl

theorem failure?_whole (input : Input) (stream : Stream) :
    failure? (stream.whole input) = stream.failure.map (.reading input) := by
  unfold Stream.whole
  cases stream.failure <;> rfl

/-- What fails first, where what comes second fails by itself. -/
theorem failure?_bind {α β : Type} {result : Except Failure α} {next : α → Except Failure β}
    {second : Option Failure} (h : ∀ value, failure? (next value) = second) :
    failure? (result >>= next) = (failure? result).or second := by
  cases result with
  | error failure => rfl
  | ok value => exact h value

theorem failure?_mapM {α β : Type} (given : Option α) (f : α → Except Failure β) :
    failure? (given.mapM f) = given.bind fun item => failure? (f item) := by
  cases given with
  | none => rfl
  | some item =>
    show failure? (f item >>= fun value => .ok (some value)) = failure? (f item)
    cases f item <;> rfl

/-- A run that opens its log, reads what else it needs, and then goes by the lines of the log. -/
structure ByLines {α κ : Type} (paths : List Text) (missing : Files → List (Option Failure))
    (sources : Files → Except Failure κ) (shown : κ → List Text → Text) (value : κ → List Text → α)
    (within : α → α → Prop) (run : Files → Text → Run α) : Prop where
  outcome : ∀ files log, (run files log).outcome =
    onward (files.opened .trace log) fun stream => onward (sources files) fun source =>
      (shown source stream.lines, (stream.whole .trace).map (value source))
  misses : ∀ files, failure? (sources files) = (missing files).findSome? id
  /-- What is missing is not a line of the log. -/
  elsewhere : ∀ files failure, some failure ∈ missing files →
    ∀ cause, failure ≠ .reading .trace cause
  same : ∀ files others, Files.SameAt paths files others → sources others = sources files
  shows : ∀ source front back, shown source front <+: shown source (front ++ back)
  grows : ∀ source front back, within (value source front) (value source (front ++ back))

namespace ByLines

variable {α κ : Type} {paths : List Text} {missing : Files → List (Option Failure)}
  {sources : Files → Except Failure κ} {shown : κ → List Text → Text} {value : κ → List Text → α}
  {within : α → α → Prop} {run : Files → Text → Run α}

/-- The log does not open, or something else is missing, or the log is followed. -/
theorem cases (h : ByLines paths missing sources shown value within run) (files : Files)
    (log : Text) :
    (∃ cause, files.openStream log = .error cause ∧
      (run files log).outcome = ([], .error (.opening .trace log cause))) ∨
    ∃ stream, files.openStream log = .ok stream ∧
      ((∃ failure, sources files = .error failure ∧
          (run files log).outcome = ([], .error failure)) ∨
        ∃ source, sources files = .ok source ∧ (run files log).outcome =
          (shown source stream.lines, (stream.whole .trace).map (value source))) := by
  rw [h.outcome, Files.opened]
  cases files.openStream log with
  | error cause => exact .inl ⟨cause, rfl, rfl⟩
  | ok stream =>
    cases sources files with
    | error failure => exact .inr ⟨stream, rfl, .inl ⟨failure, rfl, rfl⟩⟩
    | ok source => exact .inr ⟨stream, rfl, .inr ⟨source, rfl, rfl⟩⟩

theorem fails (h : ByLines paths missing sources shown value within run) (files : Files)
    (log : Text) :
    failure? (run files log).result =
      (files.openFailure? .trace log :: missing files ++ [files.readFailure? .trace log]).findSome?
        id := by
  rw [List.cons_append, List.findSome?_cons, List.findSome?_append, ← h.misses]
  rcases h.cases files log with ⟨cause, hopen, houtcome⟩ |
    ⟨stream, hopen, ⟨failure, hsources, houtcome⟩ | ⟨source, hsources, houtcome⟩⟩
  · rw [Files.openFailure?, hopen, (Prod.mk.inj houtcome).2]
    rfl
  · rw [Files.openFailure?_of_ok hopen, hsources, (Prod.mk.inj houtcome).2]
    rfl
  · rw [Files.openFailure?_of_ok hopen, Files.readFailure?_of_ok hopen, hsources,
      (Prod.mk.inj houtcome).2, failure?_map, failure?_whole, List.findSome?_singleton]
    rfl

/-- A log that cannot be read on is the only failure after something was written. -/
theorem broken (h : ByLines paths missing sources shown value within run) {files : Files}
    {log : Text} {failure : Failure} (hfailure : (run files log).result = .error failure) :
    (run files log).output = [] ∧ (∀ cause, failure ≠ .reading .trace cause) ∨
    ∃ stream source cause, files.openStream log = .ok stream ∧ sources files = .ok source ∧
      stream.failure = some cause ∧ failure = .reading .trace cause ∧
      (run files log).output = shown source stream.lines := by
  rcases h.cases files log with ⟨cause, hopen, houtcome⟩ |
    ⟨stream, hopen, ⟨missed, hsources, houtcome⟩ | ⟨source, hsources, houtcome⟩⟩
  · obtain ⟨houtput, hresult⟩ := Prod.mk.inj houtcome
    cases hfailure.symm.trans hresult
    exact .inl ⟨houtput, fun cause h => nomatch h⟩
  · obtain ⟨houtput, hresult⟩ := Prod.mk.inj houtcome
    cases hfailure.symm.trans hresult
    have hmissing := h.misses files
    rw [hsources] at hmissing
    obtain ⟨missed', hmem, rfl⟩ := List.exists_of_findSome?_eq_some hmissing.symm
    exact .inl ⟨houtput, h.elsewhere files _ hmem⟩
  · obtain ⟨houtput, hresult⟩ := Prod.mk.inj houtcome
    have hend : stream.failure.map (.reading .trace) = some failure := by
      rw [← failure?_whole, ← failure?_map _ (value source), ← hresult, hfailure]
      rfl
    obtain ⟨cause, hcause, rfl⟩ := Option.map_eq_some_iff.mp hend
    exact .inr ⟨stream, source, cause, hopen, hsources, hcause, rfl, houtput⟩

/-- Where nothing is missing, the log is followed. -/
theorem followed (h : ByLines paths missing sources shown value within run) {files : Files}
    {log : Text} {stream : Stream} {source : κ} (hopen : files.openStream log = .ok stream)
    (hsources : sources files = .ok source) :
    (run files log).outcome =
      (shown source stream.lines, (stream.whole .trace).map (value source)) := by
  rw [h.outcome, Files.opened_eq_ok_iff.mpr hopen, hsources]
  rfl

theorem yields (h : ByLines paths missing sources shown value within run) {files : Files}
    {log : Text} {source : κ} {lines : List Text} (hsources : sources files = .ok source)
    (hlines : files.Reads log lines) :
    (run files log).Yields (value source lines) (shown source lines) := by
  obtain ⟨stream, hopen, hread⟩ := hlines
  rw [yields_iff_outcome, h.followed hopen hsources, Stream.whole_eq_ok_iff.mpr hread,
    (readAll_eq_ok_iff.mp hread).2]
  rfl

/-- **A run that goes by the lines of its log streams it.** -/
theorem streams (h : ByLines paths missing sources shown value within run) :
    Streams paths (fun files log => files.openFailure? .trace log :: missing files ++
      [files.readFailure? .trace log]) within run where
  fails files log failure := by rw [← failure?_eq_some_iff, h.fails]
  quiet files log failure hfailure hother := by
    rcases h.broken hfailure with ⟨houtput, _⟩ | ⟨_, _, cause, _, _, _, hcause, _⟩
    · exact houtput
    · exact absurd hcause (hother cause)
  broken files log cause hfailure := by
    rcases h.broken hfailure with ⟨_, hother⟩ |
      ⟨stream, source, _, hopen, hsources, hend, hcause, houtput⟩
    · exact absurd rfl (hother cause)
    · cases hcause
      obtain ⟨whole, hwhole, hread⟩ := Stream.exists_whole hend
      refine ⟨stream, whole, hopen, hend, hwhole, hread, ?_⟩
      intro others other hsame hlines
      rw [houtput]
      exact ⟨_, h.yields ((h.same files others hsame).trans hsources) hlines⟩
  continued files log others other front back failure hsame hfront hopen hother := by
    cases hsources : sources files with
    | error missed =>
      have hhere : (run files log).outcome = ([], .error missed) := by
        rw [h.outcome, Files.opened_eq_ok_iff.mpr hopen, hsources]
        rfl
      obtain ⟨houtput, hresult⟩ := Prod.mk.inj hhere
      refine ⟨houtput ▸ List.nil_prefix, ?_⟩
      intro value output hyields
      cases hresult.symm.trans hyields.1
    | ok source =>
      have hhere := h.followed hopen hsources
      have hthere := h.followed hother ((h.same files others hsame).trans hsources)
      rw [Stream.lines_append hfront back failure] at hthere
      constructor
      · rw [(Prod.mk.inj hhere).1, (Prod.mk.inj hthere).1]
        exact h.shows source _ _
      · intro value output hyields hend
        subst hend
        obtain rfl := Except.ok.inj (hyields.1.symm.trans (Prod.mk.inj hhere).2)
        refine ⟨_, _, yields_iff_outcome.mpr hthere, ?_⟩
        rw [Stream.lines_append hfront back none]
        exact h.grows source _ _

end ByLines

end Run

/-! ### A check -/

namespace Check
open Run

theorem failure?_linesOf (files : Files) (input : Input) (path : Text) :
    failure? (files.linesOf input path) =
      (files.openFailure? input path).or (files.readFailure? input path) := by
  unfold Files.linesOf Files.opened Files.openFailure? Files.readFailure?
  cases files.openStream path with
  | error cause => rfl
  | ok stream => exact failure?_whole input stream

theorem linesOf_congr {files others : Files} (input : Input) {path : Text}
    (h : others.openStream path = files.openStream path) :
    others.linesOf input path = files.linesOf input path := by
  rw [Files.linesOf, Files.linesOf, Files.opened, Files.opened, h]

/-- A check lacks its sources for the first thing that is missing. -/
theorem failure?_sources (plan : Plan) (files : Files) :
    failure? (sources files plan) = (missing plan files).findSome? id := by
  have hreference : ∀ index : Listing.Index,
      failure? ((plan.reference.mapM fun path => (files.linesOf .reference path).map
          (Reference.Queue.ofLines (index.entry? plan.entry))) >>= fun queue =>
            .ok (index, queue)) =
        plan.reference.bind fun path =>
          (files.openFailure? .reference path).or (files.readFailure? .reference path) := by
    intro index
    rw [@failure?_bind _ _ _ _ none fun _ => rfl, Option.or_none, failure?_mapM]
    simp only [failure?_map, failure?_linesOf]
  refine (failure?_bind hreference).trans ?_
  simp only [missing, findSome?_id_cons, List.findSome?_nil, Option.or_none, Option.or_assoc,
    failure?_map, failure?_linesOf]
  cases plan.reference <;> rfl

theorem entries_append (plan : Plan) (index : Listing.Index) (queue : Option Reference.Queue)
    (front back : List Text) :
    entries plan index queue (front ++ back) = entries plan index queue front ++
      (history (Machine.step index) (course plan index queue front).1 back).2.flatMap
        Step.entries := by
  rw [entries, entries, course, history_append, List.flatMap_append, List.append_assoc]
  rfl

/-- Every counter grows with the log, but for the reference, of which less is left. -/
theorem within_tally (plan : Plan) (index : Listing.Index) (queue : Option Reference.Queue)
    (front back : List Text) :
    (tally plan index queue front).Within (tally plan index queue (front ++ back)) := by
  have hleft : ∀ machine : Machine,
      (history (Machine.step index) machine back).1.follower.left ≤ machine.follower.left := by
    intro machine
    rw [(history_follower index machine back).1]
    exact Follower.left_history_le _ _
  simp only [tally, course, history_append, tallyOf_eq, List.filterMap_append, List.countP_append,
    List.length_append, List.any_append]
  constructor
  case referenceLeft => exact hleft _
  case stackShown =>
    intro h
    exact Bool.or_eq_true_iff.mpr (.inl h)
  all_goals exact Nat.le_add_right _ _

theorem byLines (plan : Plan) :
    ByLines (plan.listing :: plan.reference.toList) (missing plan) (sources · plan)
      (fun source lines => Report.render plan.options (entries plan source.1 source.2 lines))
      (fun source => tally plan source.1 source.2) Report.Tally.Within
      fun files log => check files { plan with trace := log } where
  outcome files log := outcome_check files { plan with trace := log }
  misses := failure?_sources plan
  elsewhere files failure h cause hcause := by
    subst hcause
    simp only [missing, List.mem_cons, List.not_mem_nil, or_false, @eq_comm _ (some _),
      Option.bind_eq_some_iff, Files.openFailure?_ne_reading,
      Files.readFailure?_ne_reading files (show Input.listing ≠ .trace by decide),
      Files.readFailure?_ne_reading files (show Input.reference ≠ .trace by decide),
      and_false, exists_false] at h
  same files others h := by
    refine sources_congr (linesOf_congr .listing (h _ List.mem_cons_self)) fun path hpath => ?_
    exact linesOf_congr .reference
      (h path (List.mem_cons_of_mem _ (Option.mem_toList.mpr hpath)))
  shows source front back := by
    rw [entries_append, Report.render_append]
    exact List.prefix_append _ _
  grows source := within_tally plan source.1 source.2

end Check

/-! ### Printed strings -/

theorem byLines_print (stamped : Bool) :
    Run.ByLines [] (fun _ => []) (fun _ => .ok ())
      (fun _ lines => (Printed.extract stamped lines).2) (fun _ _ => ()) (fun _ _ => True)
      fun files log => print files stamped log where
  outcome files log := outcome_print files stamped log
  misses _ := rfl
  elsewhere _ _ h := nomatch h
  same _ _ _ := rfl
  shows _ front back := by
    unfold Printed.extract
    rw [history_append]
    exact ⟨_, List.flatten_append.symm⟩
  grows _ _ _ := trivial

/-! ### The program -/

namespace CommandLine

/-- All that can fail a command. -/
def Command.failures (files : Files) : Command → List (Option Failure)
  | .check plan => Check.failures files plan
  | .print log _ => printFailures files log

theorem code_conclude {α : Type} (choice : Option Level) (run : Run α) (last : α → Text) :
    (conclude choice run last).code = if (Run.failure? run.result).isSome then 1 else 0 := by
  unfold conclude
  cases run.result <;> rfl

theorem code_perform (files : Files) (diagnostics : Diagnostics) (request : Request) :
    (perform files diagnostics request).code =
      if (request.command.failures files).any Option.isSome then 1 else 0 := by
  obtain ⟨command, verbose, silent⟩ := request
  cases command with
  | check plan =>
    refine (code_conclude _ (check files plan) _).trans ?_
    rw [(Check.byLines plan).fails files plan.trace, List.isSome_findSome?]
    rfl
  | print log stamped =>
    refine (code_conclude _ (print files stamped log) _).trans ?_
    rw [(byLines_print stamped).fails files log, List.isSome_findSome?]
    rfl

end CommandLine

/-- **A check streams its log, and so does the extraction of printed strings; either command exits
with 1 if it fails, and with 0 otherwise.** -/
theorem streams_logs :
    (∀ plan : Check.Plan, Run.Streams (plan.listing :: plan.reference.toList)
      (fun files log => Check.failures files { plan with trace := log }) Report.Tally.Within
      fun files log => check files { plan with trace := log }) ∧
    (∀ stamped : Bool, Run.Streams [] printFailures (fun _ _ => True)
      fun files log => print files stamped log) ∧
    ∀ (files : Files) (diagnostics : CommandLine.Diagnostics) (arguments : List Text)
      (request : CommandLine.Request), CommandLine.parse arguments = .ok request →
      (CommandLine.execute files diagnostics arguments).code =
        if (request.command.failures files).any Option.isSome then 1 else 0 := by
  refine ⟨fun plan => (Check.byLines plan).streams,
    fun stamped => (byLines_print stamped).streams, ?_⟩
  intro files diagnostics arguments request hparse
  rw [CommandLine.execute, hparse]
  exact CommandLine.code_perform files diagnostics request

/-! ### A log that goes on, or breaks off -/

namespace Check

/-- The inputs of the one instruction, but that the log goes on behind its line, and may break off
there. -/
def prolonged (failure : Option ReadError) : Files where
  find path :=
    if path = asked.trace then .ok { bytes := bytes logLine.line ++ bytes "RevCPU".toList, failure }
    else inputs.find path
  decode := inputs.decode

def unreadable : ReadError := .system ⟨5, "Input/output error".toList⟩

theorem openStream_inputs :
    inputs.openStream asked.trace = .ok { bytes := bytes logLine.line } := rfl

theorem openStream_prolonged (failure : Option ReadError) :
    (prolonged failure).openStream asked.trace =
      .ok { bytes := bytes logLine.line ++ bytes "RevCPU".toList, failure } := rfl

theorem openStream_prolonged_of_ne (failure : Option ReadError) {path : Text}
    (h : path ≠ asked.trace) : (prolonged failure).openStream path = inputs.openStream path := by
  have hfind : (prolonged failure).find path = inputs.find path := if_neg h
  rw [Files.openStream, Files.openStream, hfind]
  rfl

theorem sameAt_prolonged (failure : Option ReadError) :
    Files.SameAt (asked.listing :: asked.reference.toList) inputs (prolonged failure) := by
  intro path hpath
  have hother : path ≠ asked.trace := by
    rintro rfl
    revert hpath
    decide
  exact openStream_prolonged_of_ne failure hother

/-- What is delivered of the log that breaks off is the log of the one instruction. -/
theorem reads_lines_of_prolonged {stream : Stream}
    (h : (prolonged (some unreadable)).openStream asked.trace = .ok stream) :
    inputs.Reads asked.trace stream.lines := by
  obtain rfl := Except.ok.inj ((openStream_prolonged _).symm.trans h)
  rw [show Stream.lines _ = [logLine] by decide +kernel]
  exact reads_inputs.trace

def misled : Plan := { asked with listing := "nowhere".toList }

/-- The paths and the tick of the check on the command line. -/
def arguments : List Text :=
  ["check", "-a", "listing", "-s", "log", "-k", "reference", "-c", "42"].map (·.toList)

end Check

/-- Of the log that breaks off is written what is written of its one line; without a listing
nothing is; and the log that goes on has no less written of it. -/
theorem streams_logs_prolonged :
    let whole := check Check.inputs Check.asked
    let missed := check Check.inputs Check.misled
    let longer := check (Check.prolonged none) Check.asked
    let broken := check (Check.prolonged (some Check.unreadable)) Check.asked
    let printed := print (Check.prolonged (some Check.unreadable)) false Check.asked.trace
    missed.result = .error (.opening .listing Check.misled.listing (.system .notFound)) ∧
    missed.output = [] ∧
    broken.result = .error (.reading .trace Check.unreadable) ∧
    (∃ counted, whole.Yields counted broken.output) ∧
    printed.result = .error (.reading .trace Check.unreadable) ∧
    (print Check.inputs false Check.asked.trace).Yields () printed.output ∧
    whole.output <+: longer.output ∧
    (∃ counted more, whole.Yields counted whole.output ∧ longer.Yields more longer.output ∧
      counted.Within more) ∧
    CommandLine.parse Check.arguments = .ok { command := .check Check.asked } ∧
    (CommandLine.execute (Check.prolonged (some Check.unreadable)) .byVerbosity
      Check.arguments).code = 1 := by
  obtain ⟨hcheck, hprint, hcode⟩ := streams_logs
  have hasked := hcheck Check.asked
  have hsame := Check.sameAt_prolonged
  have hparse : CommandLine.parse Check.arguments = .ok { command := .check Check.asked } := by
    decide +kernel
  intro whole missed longer broken printed
  have hmissed : missed.result =
      .error (.opening .listing Check.misled.listing (.system .notFound)) :=
    ((hcheck Check.misled).fails _ Check.misled.trace _).mpr (by decide +kernel)
  have hsilent : missed.output = [] :=
    (hcheck Check.misled).quiet _ Check.misled.trace _ hmissed fun _ h => nomatch h
  have hbroken : broken.result = .error (.reading .trace Check.unreadable) :=
    (hasked.fails _ Check.asked.trace _).mpr (by decide +kernel)
  have hprinted : printed.result = .error (.reading .trace Check.unreadable) :=
    ((hprint false).fails _ Check.asked.trace _).mpr (by decide +kernel)
  -- What is written of the two runs that break off is what is written of the one instruction.
  obtain ⟨stream, _, hopen, _, _, _, hothers⟩ := hasked.broken _ _ _ hbroken
  obtain ⟨counted, hcounted⟩ := hothers Check.inputs Check.asked.trace
    (fun path hpath => (hsame _ path hpath).symm) (Check.reads_lines_of_prolonged hopen)
  obtain ⟨stream, _, hopen, _, _, _, hothers⟩ := (hprint false).broken _ _ _ hprinted
  obtain ⟨_, hextracted⟩ := hothers Check.inputs Check.asked.trace (List.forall_mem_nil _)
    (Check.reads_lines_of_prolonged hopen)
  obtain ⟨hless, hgrows⟩ := hasked.continued _ _ _ _ _ _ _ (hsame none) (.inr (by decide +kernel))
    Check.openStream_inputs (Check.openStream_prolonged none)
  have hyields : whole.Yields counted whole.output := ⟨hcounted.1, rfl⟩
  obtain ⟨more, _, hmore, hwithin⟩ := hgrows counted whole.output hyields rfl
  refine ⟨hmissed, hsilent, hbroken, ⟨counted, hcounted⟩, hprinted, hextracted, hless,
    ⟨counted, more, hyields, ⟨hmore.1, rfl⟩, hwithin⟩, hparse, ?_⟩
  rw [hcode _ _ _ _ hparse]
  decide +kernel

end Lockstep
