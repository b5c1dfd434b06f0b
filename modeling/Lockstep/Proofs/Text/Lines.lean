import Mathlib.Data.List.Basic
import Lockstep.Source.Stream

/-! Bytes read line by line, in parts.

What follows the last line feed is the only thing that later bytes can change. Bytes that end
with a line feed therefore have their lines whatever comes after them (`Stream.lines_append`),
and the lines that are delivered before an input breaks off are those of a front of its bytes
(`Stream.exists_whole`). The first line feed ends the first line (`lines_line_append`), so what holds
of lines is proved line by line (`lines_induction`). -/
namespace Lockstep

section
variable {α : Type} {separates : α → Bool}

/-- A separator ends what was open. -/
theorem cut_concat {s : α} (hs : separates s = true) (items : List α) :
    cut separates (items ++ [s]) =
      ((cut separates items).1 ++ [(cut separates items).2], []) := by
  induction items with
  | nil => exact cut_cons_of_separates hs []
  | cons a items ih =>
    rw [List.cons_append]
    cases ha : separates a with
    | true => rw [cut_cons_of_separates ha, cut_cons_of_separates ha, ih, List.cons_append]
    | false =>
      rw [cut_cons_of_not_separates ha, cut_cons_of_not_separates ha, ih]
      cases (cut separates items).1 <;> rfl

/-- Where nothing is open, what comes after is cut by itself. -/
theorem cut_append {front : List α} (h : (cut separates front).2 = []) (back : List α) :
    cut separates (front ++ back) =
      ((cut separates front).1 ++ (cut separates back).1, (cut separates back).2) := by
  induction front with
  | nil => rfl
  | cons a front ih =>
    rw [List.cons_append]
    cases ha : separates a with
    | true =>
      rw [cut_cons_of_separates ha] at h
      rw [cut_cons_of_separates ha, cut_cons_of_separates ha, ih h, List.cons_append]
    | false =>
      rw [cut_cons_of_not_separates ha] at h
      rw [cut_cons_of_not_separates ha, cut_cons_of_not_separates ha]
      cases hpieces : (cut separates front).1 with
      | nil =>
        rw [hpieces] at h
        cases h
      | cons piece pieces =>
        rw [hpieces] at h
        rw [ih h, hpieces]
        rfl

/-- Where nothing is ended, all is open. -/
theorem cut_snd_of_fst_eq_nil {items : List α} (h : (cut separates items).1 = []) :
    (cut separates items).2 = items := by
  induction items with
  | nil => rfl
  | cons a items ih =>
    cases ha : separates a with
    | true =>
      rw [cut_cons_of_separates ha] at h
      cases h
    | false =>
      rw [cut_cons_of_not_separates ha] at h ⊢
      cases hpieces : (cut separates items).1 with
      | nil => exact congrArg (a :: ·) (ih hpieces)
      | cons piece pieces =>
        rw [hpieces] at h
        cases h

/-- The pieces that are ended are those of a front. -/
theorem exists_front_of_cut (separates : α → Bool) (items : List α) :
    ∃ front, items = front ++ (cut separates items).2 ∧
      cut separates front = ((cut separates items).1, []) := by
  induction items with
  | nil => exact ⟨[], rfl, rfl⟩
  | cons a items ih =>
    obtain ⟨front, hitems, hfront⟩ := ih
    cases ha : separates a with
    | true =>
      rw [cut_cons_of_separates ha]
      refine ⟨a :: front, congrArg (a :: ·) hitems, ?_⟩
      rw [cut_cons_of_separates ha, hfront]
    | false =>
      rw [cut_cons_of_not_separates ha]
      cases hpieces : (cut separates items).1 with
      | nil => exact ⟨[], congrArg (a :: ·) (cut_snd_of_fst_eq_nil hpieces).symm, rfl⟩
      | cons piece pieces =>
        refine ⟨a :: front, congrArg (a :: ·) hitems, ?_⟩
        rw [cut_cons_of_not_separates ha, hfront, hpieces]

theorem openLine_eq_nil [BEq α] [LawfulBEq α] {lf : α} {items : List α}
    (h : items = [] ∨ items.getLast? = some lf) : openLine lf items = [] := by
  rcases h with rfl | h
  · rfl
  · obtain ⟨front, rfl⟩ := List.getLast?_eq_some_iff.mp h
    exact congrArg Prod.snd (@cut_concat α (· == lf) lf (beq_self_eq_true lf) front)

end

/-- Items are a line that nothing ends, or a line that a line feed ends and then others. -/
theorem lines_induction {α : Type} {motive : List α → Prop} (lf : α)
    (last : ∀ line, lf ∉ line → motive line)
    (ended : ∀ line rest, lf ∉ line → motive rest → motive (line ++ lf :: rest))
    (items : List α) : motive items := by
  suffices h : ∀ line, lf ∉ line → motive (line ++ items) from h [] List.not_mem_nil
  induction items with
  | nil =>
    intro line hline
    rw [List.append_nil]
    exact last line hline
  | cons a items ih =>
    intro line hline
    by_cases ha : a = lf
    · subst ha
      exact ended line items hline (ih [] List.not_mem_nil)
    · have hmore := ih (line ++ [a]) (by simp [hline, Ne.symm ha])
      rwa [List.append_assoc, List.singleton_append] at hmore

section
variable {α : Type} [BEq α] [LawfulBEq α] {lf cr : α} {line : List α}

theorem cut_of_not_mem (h : lf ∉ line) : cut (· == lf) line = ([], line) :=
  cut_of_forall_not_separates fun _ ha => beq_false_of_ne (ne_of_mem_of_not_mem ha h)

theorem cut_line_append (h : lf ∉ line) (rest : List α) :
    cut (· == lf) (line ++ lf :: rest) =
      (line :: (cut (· == lf) rest).1, (cut (· == lf) rest).2) :=
  cut_append_of_separates (fun _ ha => beq_false_of_ne (ne_of_mem_of_not_mem ha h))
    (beq_self_eq_true lf) rest

theorem pieces_of_not_mem (h : lf ∉ line) : pieces (· == lf) line = [line] := by
  rw [pieces, cut_of_not_mem h]
  rfl

theorem pieces_line_append (h : lf ∉ line) (rest : List α) :
    pieces (· == lf) (line ++ lf :: rest) = line :: pieces (· == lf) rest := by
  rw [pieces, cut_line_append h]
  rfl

theorem endedLines_of_not_mem (h : lf ∉ line) : endedLines lf cr line = [] := by
  rw [endedLines, cut_of_not_mem h, List.map_nil]

/-- The first line is ended by the first line feed. -/
theorem endedLines_line_append (h : lf ∉ line) (rest : List α) :
    endedLines lf cr (line ++ lf :: rest) = dropReturn cr line :: endedLines lf cr rest := by
  rw [endedLines, cut_line_append h, List.map_cons, endedLines]

theorem lines_of_not_mem (h : lf ∉ line) :
    lines lf cr line = if line.isEmpty then [] else [line] := by
  rw [lines, endedLines_of_not_mem h, openLine, cut_of_not_mem h, List.nil_append]

theorem lines_line_append (h : lf ∉ line) (rest : List α) :
    lines lf cr (line ++ lf :: rest) = dropReturn cr line :: lines lf cr rest := by
  rw [lines, endedLines_line_append h, openLine, cut_line_append h, lines, List.cons_append]
  rfl

end

namespace Stream

/-- Lines that are ended stay as they are, whatever follows and however it ends. -/
theorem lines_append {front : List UInt8} (h : front = [] ∨ front.getLast? = some 0x0A)
    (back : List UInt8) (failure : Option ReadError) :
    lines { bytes := front ++ back, failure } =
      lines { bytes := front } ++ lines { bytes := back, failure } := by
  have hopen : (cut (· == (0x0A : UInt8)) front).2 = [] := openLine_eq_nil h
  cases failure <;>
    simp [lines, textLines, Lockstep.lines, endedLines, openLine, cut_append hopen, hopen]

/-- What is delivered of an input that breaks off is all of a front of it. -/
theorem exists_whole {stream : Stream} {cause : ReadError} (h : stream.failure = some cause) :
    ∃ whole, whole <+: stream.bytes ∧ readAll { bytes := whole } = .ok stream.lines := by
  obtain ⟨front, hbytes, hfront⟩ := exists_front_of_cut (· == (0x0A : UInt8)) stream.bytes
  refine ⟨front, ⟨_, hbytes.symm⟩, congrArg Except.ok ?_⟩
  simp [lines, h, textLines, Lockstep.lines, endedLines, openLine, hfront]

end Stream

end Lockstep
