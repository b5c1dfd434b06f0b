import Lockstep.Proofs.CallStack.Unmatched
import Lockstep.Proofs.Listing.Blocks
import Lockstep.Proofs.Pairing.Conservation
import Lockstep.Proofs.Report.Height
import Lockstep.Proofs.Run.Completed

/-! Reports of inputs that are read line by line.

All that a check shows is a line of an input, a part of one, or the name of the entry. The machine
of a check therefore keeps only texts without line feeds (`Machine.Unbroken`), which one line of a
log preserves (`Machine.step_unbroken`), and so does a whole log (`unbroken_entries`). -/
namespace Lockstep

/-! ### What is read -/

theorem Files.Reads.unbroken {files : Files} {path : Text} {lines : List Text}
    (h : files.Reads path lines) : ∀ line ∈ lines, line.Unbroken := by
  obtain ⟨stream, _, hread⟩ := h
  obtain ⟨hend, rfl⟩ := Run.readAll_eq_ok_iff.mp hread
  intro line hline
  unfold Stream.lines at hline
  rw [hend] at hline
  exact Stream.unbroken_of_mem_textLines hline

/-- The texts and labels of an index are on one line each. -/
structure Listing.Index.Unbroken (index : Listing.Index) : Prop where
  text : ∀ {address : Address} {instruction : Listing.Instruction},
    index.instruction? address = some instruction → instruction.text.Unbroken
  label : ∀ {address : Address} {start : Listing.Boundary},
    index.start? address = some start → start.label.Unbroken

theorem Listing.label_mem_of_mem_blocks {lines : List Listing.Line} {block : Listing.Block}
    (h : block ∈ Listing.blocks lines) : .label block.label ∈ lines := by
  induction lines with
  | nil => cases h
  | cons line lines ih =>
    cases line with
    | label name =>
      rcases List.mem_cons.mp h with rfl | h
      · exact List.mem_cons_self
      · exact List.mem_cons_of_mem _ (ih h)
    | instruction address text => exact List.mem_cons_of_mem _ (ih h)
    | noise => exact List.mem_cons_of_mem _ (ih h)

theorem Listing.Index.unbroken_ofLines {lines : List Text} (h : ∀ line ∈ lines, line.Unbroken) :
    (Listing.Index.ofLines lines).Unbroken where
  text := by
    intro address instruction hinstruction
    rw [instruction?_ofLines, Option.map_eq_some_iff] at hinstruction
    obtain ⟨line, hline, rfl⟩ := hinstruction
    have hmem := (List.mem_filter.mp (List.mem_of_getLast? hline)).1
    exact (h line hmem).of_subset (Text.trim_subset line)
  label := by
    intro address start hstart
    rw [Listing.Index.ofLines, start?_ofClassified, Option.map_eq_some_iff] at hstart
    obtain ⟨block, hblock, rfl⟩ := hstart
    have hmem := (List.mem_filter.mp (List.mem_of_getLast? hblock)).1
    obtain ⟨line, hline, hread⟩ := List.mem_map.mp (label_mem_of_mem_blocks hmem)
    exact (h line hline).of_subset (Listing.Line.label_subset hread)

theorem Reference.Queue.unbroken_ofLines {start : Option Address} {lines : List Text}
    (h : ∀ line ∈ lines, line.Unbroken) :
    ∀ record ∈ Reference.Queue.ofLines start lines, record.raw.Unbroken := by
  intro record hrecord
  have hmem : record ∈ records lines := by
    unfold ofLines fastForward at hrecord
    split at hrecord
    · exact (List.dropWhile_sublist _).subset hrecord
    · exact hrecord
  obtain ⟨line, hline, hread⟩ := List.mem_filterMap.mp hmem
  have hread : Record.read line = .ok (some record) := by
    cases hresult : Record.read line with
    | error cause =>
      rw [hresult] at hread
      cases hread
    | ok found =>
      rw [hresult] at hread
      obtain rfl : found = some record := hread
      rfl
  exact (h line hline).of_subset (Record.raw_subset hread)

/-! ### What is kept -/

namespace Follower

theorem texts_pairedRow {index : Listing.Index} {address : Address} {head : Option Reference.Record}
    (hindex : index.Unbroken) (hhead : ∀ record ∈ head, record.raw.Unbroken) :
    ∀ text ∈ (pairedRow index address head).texts, text.Unbroken := by
  unfold pairedRow
  split
  · next known hknown =>
    refine List.forall_mem_cons.mpr ⟨hindex.text hknown, fun text htext => ?_⟩
    obtain ⟨record, hrecord, rfl⟩ := Option.map_eq_some_iff.mp (Option.mem_toList.mp htext)
    exact hhead record hrecord
  · exact List.forall_mem_nil _

theorem texts_listedRow {index : Listing.Index} (address : Address) (hindex : index.Unbroken) :
    ∀ text ∈ (listedRow index address).texts, text.Unbroken := by
  unfold listedRow
  split
  · next known hknown => exact List.forall_mem_singleton.mpr (hindex.text hknown)
  · exact List.forall_mem_nil _

/-- A step shows texts of the index and of the reference, and takes from the reference only. -/
theorem step_unbroken {index : Listing.Index} (hindex : index.Unbroken) {follower : Follower}
    (hfollower : ∀ record ∈ follower.queue, record.raw.Unbroken) (record : Trace.Executed) :
    (∀ later ∈ (follower.step index record).1.queue, later.raw.Unbroken) ∧
      ∀ text ∈ (follower.step index record).2.row.texts, text.Unbroken := by
  obtain ⟨reference, exhausted⟩ := follower
  cases reference with
  | none => exact ⟨hfollower, texts_listedRow record.address hindex⟩
  | some queue =>
    obtain ⟨dropped, faced, hqueue, _, _, hrow, hnext⟩ :=
      (step_passage index queue exhausted record).parts
    have hfaced : ∀ later ∈ faced, later.raw.Unbroken := fun later hlater =>
      hfollower later (show later ∈ queue from hqueue ▸ List.mem_append_right dropped hlater)
    rw [hrow, hnext]
    exact ⟨fun later hlater => hfaced later (List.mem_of_mem_tail hlater),
      texts_pairedRow hindex fun head hhead => hfaced head (List.mem_of_head? hhead)⟩

end Follower

theorem Watch.unbroken_move {index : Listing.Index} (hindex : index.Unbroken) {stack : CallStack}
    (hstack : ∀ label ∈ stack.labels, label.Unbroken) (address : Address) :
    ∀ label ∈ (move index address stack).labels, label.Unbroken := by
  obtain ⟨hroot, habove⟩ := List.forall_mem_cons.mp hstack
  refine List.forall_mem_cons.mpr ⟨?_, fun label hlabel => ?_⟩
  · rw [root_move]
    exact hroot
  · rw [List.mem_reverse, above_move] at hlabel
    rcases List.mem_append.mp hlabel with hlabel | hlabel
    · obtain ⟨start, hstart, rfl⟩ := Option.map_eq_some_iff.mp (Option.mem_toList.mp hlabel)
      exact hindex.label hstart
    · exact habove label (List.mem_reverse.mpr (List.mem_of_mem_drop hlabel))

namespace Check

/-- The machine keeps texts of one line each. -/
structure Machine.Unbroken (machine : Machine) : Prop where
  reference : ∀ record ∈ machine.follower.queue, record.raw.Unbroken
  stack : ∀ label ∈ machine.watch.stack.labels, label.Unbroken

variable {index : Listing.Index}

theorem Machine.step_unbroken (hindex : index.Unbroken) {machine : Machine}
    (hmachine : machine.Unbroken) {line : Text} (hline : line.Unbroken) :
    (machine.step index line).1.Unbroken ∧
      ∀ entry ∈ (machine.step index line).2.entries, entry.Unbroken := by
  unfold Machine.step
  cases hread : Trace.Executed.read line with
  | error cause => exact ⟨hmachine, List.forall_mem_nil _⟩
  | ok found =>
    cases found with
    | none => exact ⟨hmachine, List.forall_mem_nil _⟩
    | some record =>
      obtain ⟨hreference, hrow⟩ := Follower.step_unbroken hindex hmachine.reference record
      have hstack := Watch.unbroken_move hindex hmachine.stack record.address
      have htext : record.text.Unbroken := hline.of_subset (Trace.Executed.text_subset hread)
      refine ⟨⟨hreference, hstack⟩, ?_⟩
      refine List.forall_mem_append.mpr ⟨List.forall_mem_append.mpr ⟨?_, ?_⟩, ?_⟩
      · split
        · exact List.forall_mem_singleton.mpr (List.forall_mem_singleton.mpr hline)
        · exact List.forall_mem_nil _
      · exact Report.unbroken_findingEntries record.address htext hrow
      · intro entry hentry
        obtain ⟨snapshot, hsnapshot, rfl⟩ := Option.map_eq_some_iff.mp (Option.mem_toList.mp hentry)
        obtain ⟨tick, _, rfl⟩ := Option.map_eq_some_iff.mp hsnapshot
        exact Report.unbroken_stack hstack

/-- Over a whole log, every entry is on lines of its own. -/
theorem unbroken_flatMap_entries (hindex : index.Unbroken) {lines : List Text}
    (hlines : ∀ line ∈ lines, line.Unbroken) {machine : Machine} (hmachine : machine.Unbroken) :
    ∀ entry ∈ (history (Machine.step index) machine lines).2.flatMap Step.entries,
      entry.Unbroken := by
  induction lines generalizing machine with
  | nil => exact List.forall_mem_nil _
  | cons line lines ih =>
    obtain ⟨hline, hlines⟩ := List.forall_mem_cons.mp hlines
    obtain ⟨hnext, hentries⟩ := Machine.step_unbroken hindex hmachine hline
    rw [history_cons, List.flatMap_cons]
    exact List.forall_mem_append.mpr ⟨hentries, ih hlines hnext⟩

/-- **A check of inputs read line by line writes whole entries.** -/
theorem unbroken_entries {files : Files} {plan : Plan} {queue : Option Reference.Queue}
    {lines : List Text} (hreads : Reads files plan index queue lines)
    (hentry : plan.entry.Unbroken) : ∀ entry ∈ entries plan index queue lines, entry.Unbroken := by
  obtain ⟨listing, hlisting, rfl⟩ := hreads.listing
  have hqueue : ∀ record ∈ (Machine.start plan queue).follower.queue, record.raw.Unbroken := by
    have hreference := hreads.reference
    generalize plan.reference = path at hreference
    cases hreference with
    | none => exact List.forall_mem_nil _
    | some h =>
      obtain ⟨reference, hread, rfl⟩ := h
      exact Reference.Queue.unbroken_ofLines hread.unbroken
  refine List.forall_mem_append.mpr ⟨?_, ?_⟩
  · split
    · exact List.forall_mem_singleton.mpr Report.unbroken_heading
    · exact List.forall_mem_nil _
  · exact unbroken_flatMap_entries (Listing.Index.unbroken_ofLines hlisting.unbroken)
      hreads.trace.unbroken ⟨hqueue, List.forall_mem_singleton.mpr hentry⟩

end Check

end Lockstep
