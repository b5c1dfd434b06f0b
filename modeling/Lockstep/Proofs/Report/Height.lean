import Mathlib.Algebra.GroupWithZero.Nat
import Lockstep.Proofs.Text.Unbroken
import Lockstep.Report.Entry

/-! How many lines a report has.

An entry writes each of its texts on a line of its own, so a report has as many lines as its shown
entries have texts, if no text has a line feed in it (`count_render`). No text that a report adds
has one (`unbroken_rowEntry`, `unbroken_findingEntries`): the question is only for the texts that
come from the inputs. -/
namespace Lockstep
open Text (unbroken_append)

/-- The texts that a row takes from the listing and the reference. -/
def Row.texts : Row → List Text
  | listed text => [text]
  | paired _ text reference => text :: (reference.map Reference.Record.raw).toList
  | unlisted => []

namespace Report

/-! ### Lines -/

def Entry.height (entry : Entry) : Nat := entry.texts.length

/-- How many lines the shown entries have. -/
def height (options : Options) (entries : List Entry) : Nat :=
  ((entries.filter options.shows).map Entry.height).sum

theorem height_append (options : Options) (front back : List Entry) :
    height options (front ++ back) = height options front + height options back := by
  simp [height]

theorem height_singleton (options : Options) (entry : Entry) :
    height options [entry] = if options.shows entry then entry.height else 0 := by
  unfold height
  rw [List.filter_singleton]
  cases options.shows entry <;> rfl

/-- The texts of the entry are one line each. -/
def Entry.Unbroken (entry : Entry) : Prop := ∀ text ∈ entry.texts, text.Unbroken

theorem count_line {text : Text} (h : text.Unbroken) : text.line.count '\n' = 1 := by
  rw [Text.line, List.count_append, List.count_eq_zero.mpr h]
  rfl

theorem Entry.count_render {entry : Entry} (h : entry.Unbroken) :
    entry.render.count '\n' = entry.height := by
  have hlines : entry.texts.map (List.count '\n' ∘ Text.line) = entry.texts.map fun _ => 1 :=
    List.map_congr_left fun text htext => count_line (h text htext)
  rw [Entry.render, List.count_flatMap, hlines, List.map_const', List.sum_replicate_nat, Nat.mul_one]
  rfl

/-- **A report has a line for each text that it shows.** -/
theorem count_render (options : Options) {entries : List Entry}
    (h : ∀ entry ∈ entries, entry.Unbroken) :
    (render options entries).count '\n' = height options entries := by
  rw [render, List.count_flatMap, height]
  congr 1
  exact List.map_congr_left fun entry hentry =>
    Entry.count_render (h entry (List.mem_filter.mp hentry).1)

/-! ### Entries on one line each -/

theorem unbroken_padRight {width : Nat} {text : Text} (h : text.Unbroken) :
    (text.padRight width).Unbroken := by
  refine unbroken_append.mpr ⟨h, fun hmem => ?_⟩
  exact absurd (List.eq_of_mem_replicate hmem) (by decide)

theorem unbroken_intercalate {texts : List Text} (h : ∀ text ∈ texts, text.Unbroken) :
    Text.Unbroken (List.intercalate [' '] texts) := by
  induction texts with
  | nil => exact Text.unbroken_nil
  | cons text texts ih =>
    obtain ⟨htext, htexts⟩ := List.forall_mem_cons.mp h
    cases texts with
    | nil => simpa using htext
    | cons next texts =>
      rw [List.intercalate_cons_cons]
      exact unbroken_append.mpr ⟨unbroken_append.mpr ⟨htext, by decide⟩, ih htexts⟩

theorem unbroken_columns {cells : List (Nat × Text)} (h : ∀ cell ∈ cells, cell.2.Unbroken) :
    (columns cells).Unbroken :=
  unbroken_intercalate (List.forall_mem_map.mpr fun cell hcell => unbroken_padRight (h cell hcell))

theorem unbroken_listedRow {listed executed : Text} (hlisted : listed.Unbroken)
    (hexecuted : executed.Unbroken) : (listedRow listed executed).Unbroken := by
  apply unbroken_columns
  simp only [List.forall_mem_cons]
  exact ⟨hlisted, by decide, hexecuted, List.forall_mem_nil _⟩

theorem unbroken_pairedRow {width : Nat} {first listed executed reference : Text}
    (hfirst : first.Unbroken) (hlisted : listed.Unbroken) (hexecuted : executed.Unbroken)
    (hreference : reference.Unbroken) :
    (pairedRow width first listed executed reference).Unbroken := by
  apply unbroken_columns
  simp only [List.forall_mem_cons]
  exact ⟨hfirst, hlisted, by decide, hexecuted, by decide, hreference, List.forall_mem_nil _⟩

theorem unbroken_heading : Entry.heading.Unbroken :=
  List.forall_mem_singleton.mpr
    (unbroken_pairedRow (by decide) (by decide) (by decide) (by decide))

theorem unbroken_hex (address : Address) : address.hex.Unbroken :=
  Numeral.unbroken_toDigits (by decide) _

theorem unbroken_trap (address : Address) (detour : Reference.Detour) :
    (Entry.trap address detour).Unbroken := by
  refine List.forall_mem_singleton.mpr ?_
  have hnumber : Text.Unbroken (Numeral.decimal detour.discarded) :=
    Numeral.unbroken_toDigits (by decide) _
  unfold trapNotice
  simp only [unbroken_append]
  refine ⟨⟨⟨⟨by decide, ?_⟩, by decide⟩, hnumber⟩, by decide⟩
  split <;> simp only [unbroken_append]
  · exact ⟨by decide, unbroken_hex address⟩
  · exact ⟨⟨by decide, unbroken_hex address⟩, by decide⟩

theorem unbroken_exhausted (address : Address) : (Entry.exhausted address).Unbroken :=
  List.forall_mem_singleton.mpr (unbroken_append.mpr ⟨by decide, unbroken_hex address⟩)

theorem unbroken_stack {snapshot : Snapshot} (h : ∀ frame ∈ snapshot.frames, frame.Unbroken) :
    (Entry.stack snapshot).Unbroken := by
  refine List.forall_mem_cons.mpr ⟨?_, h⟩
  have htick : Text.Unbroken snapshot.tick.decimal := Numeral.unbroken_toDigits (by decide) _
  unfold stackHeading
  simp only [unbroken_append]
  exact ⟨⟨⟨by decide, htick⟩, by decide⟩, unbroken_hex _⟩

theorem unbroken_unlisted (address : Address) : (Entry.unlisted address).Unbroken := by
  refine List.forall_mem_singleton.mpr ?_
  unfold unlistedWarning
  simp only [unbroken_append]
  exact ⟨⟨by decide, unbroken_hex address⟩, by decide⟩

/-! ### Entries of a finding -/

theorem unbroken_rowEntry (address : Address) {executed : Text} (hexecuted : executed.Unbroken)
    {row : Row} (hrow : ∀ text ∈ row.texts, text.Unbroken) :
    (rowEntry address executed row).Unbroken := by
  cases row with
  | listed text =>
    exact List.forall_mem_singleton.mpr
      (unbroken_listedRow (hrow text (List.mem_singleton_self text)) hexecuted)
  | paired verdict text reference =>
    obtain ⟨htext, hreference⟩ := List.forall_mem_cons.mp hrow
    have hsign : verdict.sign.Unbroken := by
      cases verdict <;> decide
    have hraw : Text.Unbroken ((reference.map Reference.Record.raw).getD []) := by
      cases reference with
      | none => exact Text.unbroken_nil
      | some record => exact hreference record.raw (List.mem_singleton_self _)
    exact List.forall_mem_singleton.mpr (unbroken_pairedRow hsign htext hexecuted hraw)
  | unlisted => exact unbroken_unlisted address

theorem unbroken_findingEntries (address : Address) {executed : Text}
    (hexecuted : executed.Unbroken) {finding : Finding}
    (hrow : ∀ text ∈ finding.row.texts, text.Unbroken) :
    ∀ entry ∈ findingEntries address executed finding, entry.Unbroken := by
  unfold findingEntries
  refine List.forall_mem_append.mpr ⟨List.forall_mem_append.mpr ⟨?_, ?_⟩, ?_⟩
  · cases finding.detour with
    | none => exact List.forall_mem_nil _
    | some detour => exact List.forall_mem_singleton.mpr (unbroken_trap address detour)
  · split
    · exact List.forall_mem_singleton.mpr (unbroken_exhausted address)
    · exact List.forall_mem_nil _
  · exact List.forall_mem_singleton.mpr (unbroken_rowEntry address hexecuted hrow)

end Report

end Lockstep
