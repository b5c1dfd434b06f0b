import Lockstep.Proofs.Run.Script

/-! Lines that hold nothing for a check.

Lines are put in between the lines of an input, in any number and anywhere (`Interspersed`). Where
each of them holds nothing — noise in a listing, no record or a malformed one in a reference or a
log — a listing has the same index, a reference loads the same queue, and a log has the same pieces
to show. So a check that completes writes what it wrote before, and counts the malformed lines of
the log on top: `foreign_lines_unseen`. -/
namespace Lockstep

/-! ### Items put in between others -/

/-- Items, those put in between them, and all of them in order. -/
inductive Interspersed {α : Type} : List α → List α → List α → Prop where
  | nil : Interspersed [] [] []
  | own {item : α} {items added all : List α} :
      Interspersed items added all → Interspersed (item :: items) added (item :: all)
  | added {item : α} {items added all : List α} :
      Interspersed items added all → Interspersed items (item :: added) (item :: all)

namespace Interspersed

variable {α β : Type} {items added all : List α}

/-- A fold that the added items do not move. -/
theorem foldl_eq (h : Interspersed items added all) {step : β → α → β}
    (hidle : ∀ item ∈ added, ∀ state, step state item = state) (state : β) :
    all.foldl step state = items.foldl step state := by
  induction h generalizing state with
  | nil => rfl
  | own _ ih => exact ih hidle _
  | added _ ih =>
    obtain ⟨hitem, hadded⟩ := List.forall_mem_cons.mp hidle
    rw [List.foldl_cons, hitem, ih hadded]

theorem filterMap_eq (h : Interspersed items added all) {f : α → Option β}
    (hnone : ∀ item ∈ added, f item = none) : all.filterMap f = items.filterMap f := by
  induction h with
  | nil => rfl
  | own _ ih => rw [List.filterMap_cons, List.filterMap_cons, ih hnone]
  | added _ ih =>
    obtain ⟨hitem, hadded⟩ := List.forall_mem_cons.mp hnone
    rw [List.filterMap_cons_none hitem, ih hadded]

theorem countP_eq (h : Interspersed items added all) (p : α → Bool) :
    all.countP p = items.countP p + added.countP p := by
  induction h with
  | nil => rfl
  | own _ ih =>
    rw [List.countP_cons, List.countP_cons, ih]
    omega
  | added _ ih =>
    rw [List.countP_cons, List.countP_cons, ih]
    omega

end Interspersed

/-! ### What each input is read for -/

/-- A line of which no record is read, be it malformed or about something else. -/
def Void {α : Type} (read : Text → Except Malformed (Option α)) (line : Text) : Prop :=
  read line = .ok none ∨ ∃ cause, read line = .error cause

theorem Void.join_eq_none {α : Type} {read : Text → Except Malformed (Option α)} {line : Text}
    (h : Void read line) : (read line).toOption.join = none := by
  rcases h with h | ⟨cause, h⟩ <;> rw [h] <;> rfl

/-- Noise leaves an index as it is. -/
theorem Listing.Index.ofLines_interspersed {lines added all : List Text}
    (h : Interspersed lines added all) (hnoise : ∀ line ∈ added, Line.read line = .noise) :
    ofLines all = ofLines lines := by
  rw [ofLines, ofLines, ofClassified, ofClassified, List.foldl_map, List.foldl_map]
  have hidle : ∀ line ∈ added, ∀ reading : Reading, reading.line (Line.read line) = reading := by
    intro line hline reading
    rw [hnoise line hline]
    rfl
  rw [h.foldl_eq hidle]

/-- Lines without a record leave a queue as it is, wherever it starts. -/
theorem Reference.Queue.ofLines_interspersed {lines added all : List Text}
    (h : Interspersed lines added all)
    (hvoid : ∀ line ∈ added, Void Record.read line) (start : Option Address) :
    ofLines start all = ofLines start lines := by
  rw [ofLines, ofLines, records, records,
    h.filterMap_eq fun line hline => (hvoid line hline).join_eq_none]

namespace Check
open Run

/-- Lines without a record have no piece, and move neither the reference nor the call stack. -/
theorem piecesOf_interspersed (index : Listing.Index) {lines added all : List Text}
    (h : Interspersed lines added all) (hnone : ∀ line ∈ added, record? line = none)
    (follower : Follower) (stack : CallStack) :
    piecesOf index follower stack all = piecesOf index follower stack lines := by
  induction h generalizing follower stack with
  | nil => rfl
  | @own line lines added all _ ih =>
    cases hline : record? line with
    | none =>
      rw [piecesOf_cons_of_none _ _ _ hline, piecesOf_cons_of_none _ _ _ hline, ih hnone]
    | some record =>
      rw [piecesOf_cons_of_some _ _ _ hline, piecesOf_cons_of_some _ _ _ hline, ih hnone]
  | added _ ih =>
    obtain ⟨hline, hadded⟩ := List.forall_mem_cons.mp hnone
    rw [piecesOf_cons_of_none _ _ _ hline, ih hadded]

section
variable (plan : Plan) (index : Listing.Index) (queue : Option Reference.Queue)
  {lines added all : List Text}

theorem render_interspersed (h : Interspersed lines added all)
    (hnone : ∀ line ∈ added, record? line = none) :
    Report.render plan.options (entries plan index queue all) =
      Report.render plan.options (entries plan index queue lines) := by
  have hall := render_entries plan plan.tick plan.echo index queue all
  have hlines := render_entries plan plan.tick plan.echo index queue lines
  rw [piecesOf_interspersed index h hnone] at hall
  exact hall.trans hlines.symm

theorem tally_interspersed (h : Interspersed lines added all)
    (hnone : ∀ line ∈ added, record? line = none) :
    tally plan index queue all =
      { tally plan index queue lines with
        malformed := (tally plan index queue lines).malformed +
          added.countP fun line => !(Trace.Executed.read line).isOk } := by
  have hexecuted : executed all = executed lines := h.filterMap_eq hnone
  simp only [tally_eq, compared, hexecuted, h.countP_eq]

end

end Check

/-! ### A whole check -/

theorem Files.Reads.unique {files : Files} {path : Text} {lines lines' : List Text}
    (h : files.Reads path lines) (h' : files.Reads path lines') : lines = lines' := by
  obtain ⟨stream, hopen, hread⟩ := h
  obtain ⟨stream', hopen', hread'⟩ := h'
  obtain rfl := Except.ok.inj (hopen.symm.trans hopen')
  exact Except.ok.inj (hread.symm.trans hread')

/-- A path has its lines in one file system, and in another one has these and more put in. -/
def Files.Intersperses (files others : Files) (path : Text) (added : List Text) : Prop :=
  ∃ lines all, files.Reads path lines ∧ others.Reads path all ∧ Interspersed lines added all

theorem Files.Intersperses.exists_all {files others : Files} {path : Text} {added lines : List Text}
    (h : files.Intersperses others path added) (hlines : files.Reads path lines) :
    ∃ all, others.Reads path all ∧ Interspersed lines added all := by
  obtain ⟨lines', all, hlines', hall, hmixed⟩ := h
  obtain rfl := hlines.unique hlines'
  exact ⟨all, hall, hmixed⟩

/-- **Lines that hold nothing, put in between the lines of all three inputs, leave the report as it
is, and of the counters only the one of malformed lines grows.** -/
theorem foreign_lines_unseen {files others : Files} {plan : Check.Plan} {counted : Report.Tally}
    {output : Text} (hyields : (check files plan).Yields counted output)
    {noise : List Text} (hlisting : files.Intersperses others plan.listing noise)
    (hnoise : ∀ line ∈ noise, Listing.Line.read line = .noise)
    (hreference : ∀ path ∈ plan.reference, ∃ skipped, files.Intersperses others path skipped ∧
      ∀ line ∈ skipped, Void Reference.Record.read line)
    {added : List Text} (htrace : files.Intersperses others plan.trace added)
    (hadded : ∀ line ∈ added, Void Trace.Executed.read line) :
    (check others plan).Yields
      { counted with
        malformed := counted.malformed +
          added.countP fun line => !(Trace.Executed.read line).isOk }
      output := by
  obtain ⟨index, queue, lines, hreads, rfl, rfl⟩ := Check.yields_check.mp hyields
  obtain ⟨listing, hlines, rfl⟩ := hreads.listing
  obtain ⟨listingAll, hlistingAll, hlistingMixed⟩ := hlisting.exists_all hlines
  obtain ⟨all, hall, hmixed⟩ := htrace.exists_all hreads.trace
  have hnone : ∀ line ∈ added, Check.record? line = none :=
    fun line hline => (hadded line hline).join_eq_none
  have hindex : Listing.Index.ofLines listingAll = Listing.Index.ofLines listing :=
    Listing.Index.ofLines_interspersed hlistingMixed hnoise
  refine Check.yields_check.mpr ⟨Listing.Index.ofLines listing, queue, all, ⟨hall, ?_, ?_⟩, ?_, ?_⟩
  · exact ⟨listingAll, hlistingAll, hindex.symm⟩
  · have hqueue := hreads.reference
    generalize plan.reference = path at hreference hqueue
    cases hqueue with
    | none => exact .none
    | some hread =>
      obtain ⟨reference, hreference', rfl⟩ := hread
      obtain ⟨skipped, hskips, hvoid⟩ := hreference _ rfl
      obtain ⟨referenceAll, hreferenceAll, hreferenceMixed⟩ := hskips.exists_all hreference'
      exact .some ⟨referenceAll, hreferenceAll,
        (Reference.Queue.ofLines_interspersed hreferenceMixed hvoid _).symm⟩
  · exact (Check.tally_interspersed plan _ queue hmixed hnone).symm
  · exact (Check.render_interspersed plan _ queue hmixed hnone).symm

/-! ### One instruction among other lines -/

namespace Check

def sectionLine : Text := "Disassembly of section .text:".toList

def detailLine : Text := "core   0:           tval 0x0000000000000000".toList

def bootLine : Text := "RevCPU[cpu0:setup:0]: ready".toList

/-- A deep line whose program counter is no number. -/
def brokenLine : Text := "RDT: Executed PC = ? Inst: nop".toList

/-- The inputs of one instruction with other lines put in. -/
def littered : Files := Tree.files
  [(["listing".toList], .file (bytes ((listingLines.intersperse sectionLine).flatMap Text.line))),
    (["log".toList], .file (bytes ([bootLine, logLine, brokenLine].flatMap Text.line))),
    (["reference".toList], .file (bytes ([detailLine, referenceLine].flatMap Text.line)))]

theorem intersperses_listing : inputs.Intersperses littered asked.listing [sectionLine] :=
  ⟨listingLines, listingLines.intersperse sectionLine, ⟨_, rfl, by decide +kernel⟩,
    ⟨_, rfl, by decide +kernel⟩, .own (.added (.own .nil))⟩

theorem intersperses_reference :
    inputs.Intersperses littered "reference".toList [detailLine] :=
  ⟨[referenceLine], [detailLine, referenceLine], ⟨_, rfl, by decide +kernel⟩,
    ⟨_, rfl, by decide +kernel⟩, .added (.own .nil)⟩

theorem intersperses_trace : inputs.Intersperses littered asked.trace [bootLine, brokenLine] :=
  ⟨[logLine], [bootLine, logLine, brokenLine], ⟨_, rfl, by decide +kernel⟩,
    ⟨_, rfl, by decide +kernel⟩, .added (.own (.added .nil))⟩

end Check

open Check in
/-- One line of the two put into the log is malformed. -/
theorem foreign_lines_unseen_littered : ∃ output,
    (check inputs asked).Yields
      { records := 1, rows := 1, matched := 1, stackShown := true } output ∧
    inputs.Intersperses littered asked.listing [sectionLine] ∧
    Listing.Line.read sectionLine = .noise ∧
    inputs.Intersperses littered "reference".toList [detailLine] ∧
    Void Reference.Record.read detailLine ∧
    inputs.Intersperses littered asked.trace [bootLine, brokenLine] ∧
    Void Trace.Executed.read bootLine ∧ Void Trace.Executed.read brokenLine ∧
    (check littered asked).Yields
      { records := 1, rows := 1, matched := 1, malformed := 1, stackShown := true } output := by
  have hyields := yields_check.mpr ⟨_, _, _, reads_inputs, tally_asked.symm, rfl⟩
  have hsection : Listing.Line.read sectionLine = .noise := by decide
  have hdetail : Void Reference.Record.read detailLine := .inl (by decide)
  have hboot : Void Trace.Executed.read bootLine := .inl (by decide)
  have hbroken : Void Trace.Executed.read brokenLine := .inr ⟨.invalidAddress "?".toList, by decide⟩
  refine ⟨_, hyields, intersperses_listing, hsection, intersperses_reference, hdetail,
    intersperses_trace, hboot, hbroken, ?_⟩
  exact foreign_lines_unseen hyields intersperses_listing (List.forall_mem_singleton.mpr hsection)
    (fun path hpath => Option.some.inj hpath ▸
      ⟨_, intersperses_reference, List.forall_mem_singleton.mpr hdetail⟩)
    intersperses_trace (List.forall_mem_cons.mpr ⟨hboot, List.forall_mem_singleton.mpr hbroken⟩)

end Lockstep
