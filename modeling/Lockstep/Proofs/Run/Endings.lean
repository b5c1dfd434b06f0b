import Lockstep.Proofs.Run.Account
import Lockstep.Proofs.Text.Endings

/-! Inputs that differ in their line endings.

A check depends on its inputs by their lines and by how they end. Where carriage returns are put in
before the line feeds of an input that had none (`Files.Restyles`), these are the same, so the check
writes what it wrote and results in what it resulted in: `line_endings_unseen`, which also says that an
input has the lines of the text that its bytes decode to. -/
namespace Lockstep

/-- A path opens as it does in another file system, or an input without carriage returns has one
before each line feed in the other. -/
def Files.Restyles (files others : Files) (path : Text) : Prop :=
  others.openStream path = files.openStream path ∨
    ∃ stream, files.openStream path = .ok stream ∧ 0x0D ∉ stream.bytes ∧
      others.openStream path =
        .ok { stream with bytes := withReturns 0x0A 0x0D stream.bytes }

namespace Files.Restyles

variable {files others : Files} {path : Text}

/-- Either way the path opens to the same lines and ends alike. -/
theorem opened_cases (h : files.Restyles others path) (input : Input) :
    others.opened input path = files.opened input path ∨
      ∃ stream other, files.opened input path = .ok stream ∧ others.opened input path = .ok other ∧
        other.lines = stream.lines ∧ other.whole input = stream.whole input := by
  obtain hsame | ⟨stream, hopen, hreturn, hother⟩ := h
  · exact .inl (by rw [opened, opened, hsame])
  · have hlines := Stream.lines_withReturns hreturn stream.failure
    refine .inr ⟨stream, { stream with bytes := withReturns 0x0A 0x0D stream.bytes },
      by rw [opened, hopen], by rw [opened, hother], hlines, ?_⟩
    rw [Stream.whole, Stream.whole, hlines]

theorem linesOf_eq (h : files.Restyles others path) (input : Input) :
    others.linesOf input path = files.linesOf input path := by
  rw [linesOf, linesOf]
  obtain hsame | ⟨stream, other, hopen, hother, _, hwhole⟩ := h.opened_cases input
  · rw [hsame]
  · rw [hopen, hother]
    exact hwhole

end Files.Restyles

theorem Check.outcome_of_restyles {files others : Files} {plan : Plan}
    (h : ∀ path ∈ plan.listing :: plan.trace :: plan.reference.toList,
      files.Restyles others path) :
    (check others plan).outcome = (check files plan).outcome := by
  have hsources : sources others plan = sources files plan := by
    refine sources_congr ((h _ (by simp)).linesOf_eq .listing) fun path hpath => ?_
    have hmem := Option.mem_toList.mpr hpath
    exact (h path (by simp [hmem])).linesOf_eq .reference
  rw [outcome_check, outcome_check, hsources]
  obtain hsame | ⟨log, other, hopen, hother, hlines, hwhole⟩ :=
    (h plan.trace (by simp)).opened_cases .trace
  · rw [hsame]
  · rw [hopen, hother]
    simp only [Run.onward, hlines, hwhole]

/-- **Cutting into lines commutes with decoding, and the style of line endings is not seen**: bytes
have the lines of their text, a text has its lines in one way, lines are read back with either ending,
and a check does not depend on it. -/
theorem line_endings_unseen :
    (∀ bytes, Stream.textLines bytes = (Utf8.decode bytes).lines) ∧
    (∀ text, Utf8.decode (Utf8.encode text) = text ∧
      ∀ lines, Divides text lines ↔ lines = Stream.textLines (Utf8.encode text)) ∧
    (∀ lines : List Text, (∀ line ∈ lines, line.Unbroken ∧ line.getLast? ≠ some '\r') →
      Stream.textLines (Utf8.encode (lines.flatMap (· ++ ['\n']))) = lines ∧
      Stream.textLines (Utf8.encode (lines.flatMap (· ++ ['\r', '\n']))) = lines) ∧
    ∀ (files others : Files) (plan : Check.Plan),
      (∀ path ∈ plan.listing :: plan.trace :: plan.reference.toList,
        files.Restyles others path) →
      (check others plan).output = (check files plan).output ∧
        (check others plan).result = (check files plan).result := by
  have htext : ∀ text, Stream.textLines (Utf8.encode text) = text.lines := by
    intro text
    rw [Stream.textLines_eq_lines_decode, Utf8.decode_encode]
  refine ⟨Stream.textLines_eq_lines_decode, fun text => ⟨Utf8.decode_encode text, fun lines => ?_⟩,
    fun lines hlines => ?_, fun files others plan h => Prod.mk.inj (Check.outcome_of_restyles h)⟩
  · rw [htext]
    exact divides_iff
  · obtain ⟨hfeed, hreturnFeed⟩ := divides_flatMap hlines
    rw [htext, htext]
    exact ⟨(lines_of_divides hfeed).symm, (lines_of_divides hreturnFeed).symm⟩

/-! ### One instruction with carriage returns -/

namespace Check

/-- The inputs of one instruction, the listing and the log with carriage returns. -/
def returned : Files := Tree.files
  [(["listing".toList], .file (withReturns 0x0A 0x0D (bytes (listingLines.flatMap Text.line)))),
    (["log".toList], .file (withReturns 0x0A 0x0D (bytes logLine.line))),
    (["reference".toList], .file (bytes referenceLine.line))]

theorem restyles_returned : ∀ path ∈ asked.listing :: asked.trace :: asked.reference.toList,
    inputs.Restyles returned path := by
  refine List.forall_mem_cons.mpr ⟨?_, List.forall_mem_cons.mpr ⟨?_, List.forall_mem_singleton.mpr ?_⟩⟩
  · exact .inr ⟨_, rfl, by decide +kernel, rfl⟩
  · exact .inr ⟨_, rfl, by decide +kernel, rfl⟩
  · exact .inl rfl

end Check

open Check in
/-- A character that a line feed cuts short is decoded by itself, lines are read back with either
ending, and one instruction is checked as before. -/
theorem line_endings_unseen_returned :
    Stream.textLines [0xE2, 0x82, 0x0A, 0x80, 0x0D, 0x0A] = ["\uFFFD".toList, "\uFFFD".toList] ∧
    (∀ line ∈ listingLines, line.Unbroken ∧ line.getLast? ≠ some '\r') ∧
    Stream.textLines (Utf8.encode (listingLines.flatMap (· ++ ['\r', '\n']))) = listingLines ∧
    (∀ path ∈ asked.listing :: asked.trace :: asked.reference.toList,
      inputs.Restyles returned path) ∧
    (check returned asked).output = (check inputs asked).output ∧
      (check returned asked).result = (check inputs asked).result := by
  obtain ⟨hdecoded, _, hread, hchecked⟩ := line_endings_unseen
  have hlines : ∀ line ∈ listingLines, line.Unbroken ∧ line.getLast? ≠ some '\r' := by decide
  exact ⟨(hdecoded _).trans (by decide), hlines, (hread _ hlines).2, restyles_returned,
    hchecked _ _ _ restyles_returned⟩

end Lockstep
