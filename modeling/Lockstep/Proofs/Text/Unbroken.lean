import Lockstep.Proofs.Stages
import Lockstep.Proofs.Text.Decoding
import Lockstep.Trace.Executed
import Lockstep.Listing.Line
import Lockstep.Reference.Record

/-! Texts without line feeds.

The lines of an input have none in them, whatever its bytes (`unbroken_of_mem_textLines`): bytes
are cut at line feeds before they are decoded, and no other bytes decode to one. What is taken out
of a line has the characters of the line alone, and numerals are made of digits, so everything
that a report is put together from stays on one line. -/
namespace Lockstep

/-- No line feed is in the text. -/
def Text.Unbroken (text : Text) : Prop := '\n' ∉ text

instance (text : Text) : Decidable text.Unbroken := inferInstanceAs (Decidable ('\n' ∉ text))

namespace Text

theorem Unbroken.of_subset {part text : Text} (hpart : part ⊆ text) (htext : text.Unbroken) :
    part.Unbroken := fun h => htext (hpart h)

theorem unbroken_append {front back : Text} :
    (front ++ back).Unbroken ↔ front.Unbroken ∧ back.Unbroken := by
  simp [Unbroken]

theorem unbroken_cons {c : Char} {text : Text} :
    Unbroken (c :: text) ↔ c ≠ '\n' ∧ text.Unbroken := by
  simp [Unbroken, eq_comm]

theorem unbroken_nil : Unbroken [] := List.not_mem_nil

/-! ### Parts of a text -/

theorem trim_subset (text : Text) : text.trim ⊆ text := by
  intro c hc
  have hleft := (List.dropWhile_sublist isBlank).subset (List.mem_reverse.mp hc)
  exact (List.dropWhile_sublist isBlank).subset (List.mem_reverse.mp hleft)

theorem upTo_subset (text : Text) (stop : Char) : text.upTo stop ⊆ text :=
  (List.takeWhile_sublist _).subset

theorem after?_subset {pattern text rest : Text} (h : after? pattern text = some rest) :
    rest ⊆ text := by
  obtain ⟨⟨front, back⟩, hsplit, rfl⟩ := Option.map_eq_some_iff.mp h
  rw [eq_of_splitOnce hsplit]
  exact List.subset_append_right _ _

end Text

theorem Listing.Line.labelName?_subset {text name : Text} (h : labelName? text = some name) :
    name ⊆ text := by
  unfold labelName? at h
  split at h
  · next front hreverse =>
    have hafter : Text.after? ['<'] (front.takeWhile (· != '\n')).reverse = some name := by
      split at h
      · cases h
      · exact h
    intro c hc
    have hfront := (List.takeWhile_sublist _).subset (List.mem_reverse.mp (Text.after?_subset hafter hc))
    rw [← List.mem_reverse, hreverse]
    exact List.mem_cons_of_mem _ (List.mem_cons_of_mem _ hfront)
  · cases h

/-- A label is part of its line. -/
theorem Listing.Line.label_subset {line name : Text} (h : read line = .label name) : name ⊆ line := by
  simp only [read] at h
  split at h
  · next hname =>
    cases h
    exact List.Subset.trans (labelName?_subset hname) (Text.trim_subset line)
  · split at h <;> cases h

/-- The text of a reference record is part of its line. -/
theorem Reference.Record.raw_subset {line : Text} {record : Reference.Record}
    (h : Reference.Record.read line = .ok (some record)) : record.raw ⊆ line := by
  unfold read at h
  split at h
  · obtain ⟨kind, _, hrecord⟩ := map_eq_ok_iff.mp h
    cases hrecord
    exact Text.trim_subset line
  · cases h

namespace Trace

theorem Dialect.after_subset {dialect : Dialect} {field line rest : Text}
    (h : dialect.after field line = .ok rest) : rest ⊆ line := by
  unfold after at h
  split at h
  · next hafter =>
    cases h
    exact Text.after?_subset hafter
  · cases h

/-- The text of a record is part of its line. -/
theorem Dialect.text_subset {dialect : Dialect} {line : Text} {record : Executed}
    (h : dialect.read line = .ok record) : record.text ⊆ line := by
  cases dialect with
  | deep =>
    obtain ⟨counter, _, h⟩ := bind_eq_ok_iff.mp h
    obtain ⟨address, _, h⟩ := bind_eq_ok_iff.mp h
    obtain ⟨text, htext, h⟩ := bind_eq_ok_iff.mp h
    cases h
    exact List.Subset.trans (Text.trim_subset text) (after_subset htext)
  | render =>
    obtain ⟨rendered, _, h⟩ := bind_eq_ok_iff.mp h
    obtain ⟨token, _, h⟩ := bind_eq_ok_iff.mp h
    obtain ⟨tick, _, h⟩ := bind_eq_ok_iff.mp h
    obtain ⟨fetched, hfetched, h⟩ := bind_eq_ok_iff.mp h
    obtain ⟨token, _, h⟩ := bind_eq_ok_iff.mp h
    obtain ⟨address, _, h⟩ := bind_eq_ok_iff.mp h
    cases h
    exact List.Subset.trans (Text.trim_subset _)
      (List.Subset.trans (Text.upTo_subset _ _) (after_subset hfetched))

theorem Executed.text_subset {line : Text} {record : Executed}
    (h : Executed.read line = .ok (some record)) : record.text ⊆ line := by
  unfold Executed.read at h
  split at h
  · obtain ⟨found, hread, hrecord⟩ := map_eq_ok_iff.mp h
    cases hrecord
    exact Dialect.text_subset hread
  · cases h

end Trace

/-! ### Numerals -/

theorem Numeral.unbroken_toDigits {base : Nat} (hbase : 1 < base) (n : Nat) :
    Text.Unbroken (Nat.toDigits base n) := by
  induction n using Nat.strongRecOn with
  | ind n ih =>
    have hdigit : ∀ d, '\n' ∉ [Nat.digitChar d] := fun d h =>
      Nat.digitChar_ne '\n' rfl (List.mem_singleton.mp h).symm
    rw [Nat.toDigits_eq_if hbase]
    split
    · exact hdigit n
    · next hlarge =>
      refine Text.unbroken_append.mpr ⟨ih (n / base) ?_, hdigit _⟩
      exact Nat.div_lt_self (by omega) hbase

/-! ### Lines of bytes -/

theorem dropReturn_subset {α : Type} [BEq α] (cr : α) (piece : List α) : dropReturn cr piece ⊆ piece := by
  unfold dropReturn
  split
  · exact List.dropLast_subset piece
  · exact List.Subset.refl piece

theorem not_mem_of_mem_lines {lf cr : UInt8} {items line : List UInt8}
    (h : line ∈ lines lf cr items) : lf ∉ line := by
  induction items using lines_induction lf with
  | last last hlast =>
    rw [lines_of_not_mem hlast] at h
    split at h
    · cases h
    · exact List.mem_singleton.mp h ▸ hlast
  | ended first rest hfirst ih =>
    rw [lines_line_append hfirst] at h
    rcases List.mem_cons.mp h with rfl | h
    · exact fun hlf => hfirst (dropReturn_subset cr first hlf)
    · exact ih h

/-- Lines that are delivered have no line feed, whatever the bytes. -/
theorem Stream.unbroken_of_mem_textLines {bytes : List UInt8} {line : Text}
    (h : line ∈ textLines bytes) : line.Unbroken := by
  obtain ⟨piece, hpiece, rfl⟩ := List.mem_map.mp h
  exact Utf8.not_mem_decode (not_mem_of_mem_lines hpiece)

end Lockstep
