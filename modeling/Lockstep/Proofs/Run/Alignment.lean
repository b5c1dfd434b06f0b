import Lockstep.Proofs.Listing.Coherence
import Lockstep.Proofs.Reference.Loading
import Lockstep.Proofs.Run.Account
import Lockstep.Proofs.Run.Script

/-! A check starts where its reference does.

The lines of a log before the first executed instruction leave a machine where it is, so the first
instruction faces all of the queue (`course_front`). If the entry is known, the listing has an
instruction there, and so has the front of a queue that is not empty; an instruction executed at
the entry then matches, and no trap is in the way: `reference_aligned`. -/
namespace Lockstep
open Reference (Queue Record Loading)

namespace Check

section
variable (index : Listing.Index) (machine : Machine)

/-- Lines without a record leave a machine where it is, and there is nothing to show of them. -/
theorem history_of_idle {front : List Text} (h : ∀ line ∈ front, record? line = none) :
    (history (Machine.step index) machine front).1 = machine ∧
      (history (Machine.step index) machine front).2.flatMap Step.entries = [] ∧
      (history (Machine.step index) machine front).2.filterMap Step.finding? = [] := by
  induction front with
  | nil => exact ⟨rfl, rfl, rfl⟩
  | cons line front ih =>
    obtain ⟨hline, hfront⟩ := List.forall_mem_cons.mp h
    obtain ⟨hmachine, hfinding, _⟩ := step_of_record?_eq_none index machine hline
    obtain ⟨hlast, hentries, hfindings⟩ := ih hfront
    rw [history_cons, hmachine, List.flatMap_cons, Step.entries_eq_nil hfinding,
      List.filterMap_cons_none hfinding]
    exact ⟨hlast, hentries, hfindings⟩

end

/-- The first executed instruction faces all of the queue. -/
theorem course_front (plan : Plan) (index : Listing.Index) (queue : Queue) {front : List Text}
    (hfront : ∀ line ∈ front, record? line = none) {line : Text} {record : Trace.Executed}
    (hline : record? line = some record) (back : List Text) :
    ∃ idle movement steps,
      (course plan index (some queue) (front ++ line :: back)).2 = idle ++
        .executed line record (Follower.step index (.beside queue) record).2 movement :: steps ∧
      idle.flatMap Step.entries = [] ∧ idle.filterMap Step.finding? = [] := by
  obtain ⟨hmachine, hidle⟩ := history_of_idle index (Machine.start plan (some queue)) hfront
  rw [course, history_append, hmachine, history_cons, step_of_record?_eq_some index _ hline]
  exact ⟨_, _, _, rfl, hidle⟩

/-- Where the entry is known and the queue is not empty, both traces are at the entry. -/
theorem exists_front_of_sources {files : Files} {plan : Plan} {index : Listing.Index}
    {queue : Queue} {entry : Address} (hsources : sources files plan = .ok (index, some queue))
    (hentry : index.entry? plan.entry = some entry) (hqueue : queue ≠ []) :
    ∃ head rest known, queue = head :: rest ∧ head.kind = .instruction entry ∧
      index.instruction? entry = some known := by
  obtain ⟨⟨listing, _, hindex⟩, hreference⟩ := sources_eq_ok_iff.mp hsources
  obtain ⟨lines, hlines⟩ : ∃ lines, queue = Queue.ofLines (some entry) lines := by
    rw [hentry] at hreference
    generalize plan.reference = path at hreference
    cases hreference with
    | some h =>
      obtain ⟨lines, _, hlines⟩ := h
      exact ⟨lines, hlines⟩
  have hcoherent : index.Coherent := hindex ▸ Listing.coherent_ofClassified _
  obtain ⟨known, hknown⟩ := hcoherent.exists_instruction hentry
  obtain ⟨head, rest, rfl⟩ := List.exists_cons_of_ne_nil hqueue
  exact ⟨head, rest, known, rfl, Queue.kind_head?_ofLines head (by rw [← hlines]; rfl), hknown⟩

theorem entries_of_matching (line : Text) (record : Trace.Executed) (known : Listing.Instruction)
    (head : Record) (movement : Movement) :
    Step.entries (.executed line record { row := .paired .matching known.text (some head) }
        movement) =
      (if record.dialect = .render then [.logged line] else []) ++
        .paired .matching known.text record.text head.raw ::
          (movement.snapshot.map Report.Entry.stack).toList := by
  rw [Step.entries, List.append_assoc]
  rfl

/-- What a check writes, once its log is open and the rest is read. -/
theorem output_of_sources {files : Files} {plan : Plan} {log : Stream} {index : Listing.Index}
    {queue : Option Queue} (hlog : files.opened .trace plan.trace = .ok log)
    (hsources : sources files plan = .ok (index, queue)) :
    (check files plan).output = Report.render plan.options (entries plan index queue log.lines) := by
  have houtcome := outcome_check files plan
  rw [hlog, hsources] at houtcome
  exact (Prod.mk.inj houtcome).1

end Check

/-- **A reference is loaded from its start on, and a check at the entry lines up with it.** -/
theorem reference_aligned :
    (∀ lines : List Text,
      (Queue.ofLines none lines).map (fun record => .ok (some record)) =
        (lines.map Record.read).filter Record.isFound) ∧
    (∀ (start : Option Address) (lines : List Text),
      (lines.foldl (Loading.line start) (Loading.begin start)).queue =
        Queue.ofLines start lines) ∧
    (∀ (start : Address) (lines : List Text),
      (∃ front, Queue.ofLines none lines = front ++ Queue.ofLines (some start) lines ∧
        (∀ record ∈ front, record.kind ≠ .instruction start) ∧
        ∀ other, other <+: Queue.ofLines none lines →
          (∀ record ∈ other, record.kind ≠ .instruction start) → other <+: front) ∧
      (Queue.ofLines (some start) lines = [] ↔
        ∀ record ∈ Queue.ofLines none lines, record.kind ≠ .instruction start)) ∧
    ∀ (files : Files) (plan : Check.Plan) (log : Stream) (index : Listing.Index) (queue : Queue)
        (entry : Address),
      files.opened .trace plan.trace = .ok log →
      Check.sources files plan = .ok (index, some queue) →
      index.entry? plan.entry = some entry → queue ≠ [] →
      ∃ head rest, queue = head :: rest ∧ head.kind = .instruction entry ∧
        ∀ front line back record, log.lines = front ++ line :: back →
          (∀ idle ∈ front, Check.record? idle = none) → Check.record? line = some record →
          record.address = entry →
          ∃ known findings more, index.instruction? entry = some known ∧
            (Check.course plan index (some queue) log.lines).2.filterMap Check.Step.finding? =
              { row := .paired .matching known.text (some head), detour := none } :: findings ∧
            (check files plan).output = Report.render plan.options
              (.heading :: (if record.dialect = .render then [.logged line] else []) ++
                .paired .matching known.text record.text head.raw :: more) := by
  refine ⟨Queue.map_ofLines, Loading.queue_foldl_line,
    fun start lines => ⟨Queue.exists_front start lines, Queue.ofLines_eq_nil_iff⟩, ?_⟩
  intro files plan log index queue entry hlog hsources hentry hqueue
  obtain ⟨head, rest, known, rfl, hhead, hknown⟩ :=
    Check.exists_front_of_sources hsources hentry hqueue
  refine ⟨head, rest, rfl, hhead, ?_⟩
  intro front line back record hsplit hfront hline haddress
  subst haddress
  obtain ⟨idle, movement, steps, hsteps, hentries, hfindings⟩ :=
    Check.course_front plan index (head :: rest) hfront hline back
  rw [Follower.beside, Follower.step_of_isAt hknown (Queue.isAt_eq_true.mpr hhead) rest false]
    at hsteps
  rw [Check.output_of_sources hlog hsources, hsplit, Check.entries, hsteps, List.filterMap_append,
    hfindings, List.flatMap_append, hentries, List.flatMap_cons, Check.entries_of_matching,
    List.nil_append, List.nil_append, List.append_assoc, List.cons_append]
  exact ⟨known, _, _, hknown, rfl, rfl⟩

/-- A check that begins at its entry. -/
theorem reference_aligned_asked :
    let index := Listing.Index.ofLines Check.listingLines
    ∃ log known findings, Check.inputs.opened .trace Check.asked.trace = .ok log ∧
      Check.sources Check.inputs Check.asked = .ok (index, some [Check.expected]) ∧
      index.entry? Check.asked.entry = some Check.fetched.address ∧
      (Check.course Check.asked index (some [Check.expected]) log.lines).2.filterMap
          Check.Step.finding? =
        { row := .paired .matching known (some Check.expected) } :: findings := by
  intro index
  have hreads := Check.reads_inputs
  obtain ⟨log, hopen, hread⟩ := hreads.trace
  have hlog : Check.inputs.opened .trace Check.asked.trace = .ok log :=
    Files.opened_eq_ok_iff.mpr hopen
  have hsources := Check.sources_eq_ok_iff.mpr ⟨hreads.listing, hreads.reference⟩
  have hentry : index.entry? Check.asked.entry = some Check.fetched.address := by
    show Listing.Index.entry? (Listing.Index.ofClassified _) _ = _
    rw [Listing.entry?_ofClassified]
    decide +kernel
  obtain ⟨head, rest, hqueue, _, hfirst⟩ := reference_aligned.2.2.2 Check.inputs Check.asked log
    index [Check.expected] Check.fetched.address hlog hsources hentry (List.cons_ne_nil _ _)
  obtain ⟨rfl, rfl⟩ := List.cons.inj hqueue
  obtain ⟨_, hlines⟩ := Run.readAll_eq_ok_iff.mp hread
  obtain ⟨known, findings, _, _, hfindings, _⟩ := hfirst [] Check.logLine [] Check.fetched hlines
    (by simp) (by decide) rfl
  exact ⟨log, known.text, findings, hlog, hsources, hentry, hfindings⟩

end Lockstep
