import Lockstep.Proofs.Text.Encoding

/-! Line endings.

A line is ended by a line feed, alone or behind a carriage return, and the last line may be ended by
nothing (`Divides`). So a text has its lines in one way (`divides_iff`), and it has the same lines with
either ending. Where no carriage return stands in the bytes of an input, one may be put before each of
its line feeds (`withReturns`), and its lines are the same, however it ends (`lines_withReturns`). -/
namespace Lockstep

/-! ### The lines of a text -/

/-- A text and its lines. -/
inductive Divides : Text → List Text → Prop where
  | nil : Divides [] []
  | last {line : Text} (hline : line.Unbroken) (hne : line ≠ []) : Divides line [line]
  | feed {line rest : Text} {lines : List Text} (hline : line.Unbroken)
      (hreturn : line.getLast? ≠ some '\r') (hrest : Divides rest lines) :
      Divides (line ++ '\n' :: rest) (line :: lines)
  | returnFeed {line rest : Text} {lines : List Text} (hline : line.Unbroken)
      (hrest : Divides rest lines) : Divides (line ++ '\r' :: '\n' :: rest) (line :: lines)

theorem lines_of_divides {text : Text} {lines : List Text} (h : Divides text lines) :
    lines = text.lines := by
  induction h with
  | nil => rfl
  | last hline hne =>
    rw [Text.lines, lines_of_not_mem hline, if_neg (by simpa using hne)]
  | feed hline hreturn _ ih =>
    rw [Text.lines, lines_line_append hline, dropReturn_of_ne hreturn, ih, Text.lines]
  | @returnFeed line rest lines hline _ ih =>
    have hreturn : (line ++ ['\r']).Unbroken := Text.unbroken_append.mpr ⟨hline, by decide⟩
    have htext : line ++ '\r' :: '\n' :: rest = (line ++ ['\r']) ++ '\n' :: rest := by simp
    rw [htext, Text.lines, lines_line_append hreturn, dropReturn_concat, ih, Text.lines]

theorem divides_lines (text : Text) : Divides text text.lines := by
  induction text using lines_induction '\n' with
  | last line hline =>
    rw [Text.lines, lines_of_not_mem hline]
    split
    · next hempty => exact List.isEmpty_iff.mp hempty ▸ .nil
    · next hempty => exact .last hline (by simpa using hempty)
  | ended line rest hline ih =>
    rw [Text.lines, lines_line_append hline]
    by_cases hreturn : line.getLast? = some '\r'
    · obtain ⟨front, rfl⟩ := List.getLast?_eq_some_iff.mp hreturn
      rw [dropReturn_concat, List.append_assoc]
      exact .returnFeed (Text.unbroken_append.mp hline).1 ih
    · rw [dropReturn_of_ne hreturn]
      exact .feed hline hreturn ih

/-- A text has its lines in one way. -/
theorem divides_iff {text : Text} {lines : List Text} : Divides text lines ↔ lines = text.lines :=
  ⟨lines_of_divides, fun h => h ▸ divides_lines text⟩

/-- Lines are read back with either ending, if no carriage return is at their end. -/
theorem divides_flatMap {lines : List Text}
    (h : ∀ line ∈ lines, line.Unbroken ∧ line.getLast? ≠ some '\r') :
    Divides (lines.flatMap (· ++ ['\n'])) lines ∧
      Divides (lines.flatMap (· ++ ['\r', '\n'])) lines := by
  induction lines with
  | nil => exact ⟨.nil, .nil⟩
  | cons line lines ih =>
    obtain ⟨⟨hline, hreturn⟩, hlines⟩ := List.forall_mem_cons.mp h
    obtain ⟨hfeed, hreturnFeed⟩ := ih hlines
    rw [List.flatMap_cons, List.flatMap_cons, List.append_assoc, List.append_assoc]
    exact ⟨.feed hline hreturn hfeed, .returnFeed hline hreturnFeed⟩

/-! ### Carriage returns put in -/

section
variable {α : Type} [DecidableEq α] {lf cr : α} {items line : List α}

/-- A carriage return before each line feed. -/
def withReturns (lf cr : α) (items : List α) : List α :=
  items.flatMap fun a => if a = lf then [cr, lf] else [a]

theorem withReturns_of_not_mem (h : lf ∉ line) : withReturns lf cr line = line := by
  induction line with
  | nil => rfl
  | cons a line ih =>
    obtain ⟨ha, hline⟩ := List.ne_and_not_mem_of_not_mem_cons h
    have hrest := ih hline
    rw [withReturns] at hrest ⊢
    rw [List.flatMap_cons, if_neg ha.symm, hrest, List.singleton_append]

theorem withReturns_append (h : lf ∉ line) (rest : List α) :
    withReturns lf cr (line ++ lf :: rest) =
      (line ++ [cr]) ++ lf :: withReturns lf cr rest := by
  have hline := @withReturns_of_not_mem α _ lf cr line h
  rw [withReturns] at hline ⊢
  rw [List.flatMap_append, hline, List.flatMap_cons, if_pos rfl]
  simp [withReturns]

/-- A line with a carriage return put at its end is read as the line without. -/
theorem dropReturn_withReturns (hcr : cr ∉ line) :
    dropReturn cr (line ++ [cr]) = dropReturn cr line := by
  rw [dropReturn_concat, dropReturn_of_ne fun h => hcr (List.mem_of_getLast? h)]

theorem lines_withReturns (hne : cr ≠ lf) (hcr : cr ∉ items) :
    endedLines lf cr (withReturns lf cr items) = endedLines lf cr items ∧
      lines lf cr (withReturns lf cr items) = lines lf cr items := by
  induction items using lines_induction lf with
  | last line hline =>
    rw [withReturns_of_not_mem hline]
    exact ⟨rfl, rfl⟩
  | ended line rest hline ih =>
    rw [List.mem_append, List.mem_cons, not_or, not_or] at hcr
    obtain ⟨hended, hlines⟩ := ih hcr.2.2
    have hreturn : lf ∉ line ++ [cr] := by simp [hline, hne.symm]
    rw [withReturns_append hline, endedLines_line_append hreturn, endedLines_line_append hline,
      lines_line_append hreturn, lines_line_append hline, dropReturn_withReturns hcr.1, hended, hlines]
    exact ⟨rfl, rfl⟩

end

/-- **An input without carriage returns is delivered as it was with one before each line feed**,
wherever it breaks off. -/
theorem Stream.lines_withReturns {bytes : List UInt8} (h : 0x0D ∉ bytes)
    (failure : Option ReadError) :
    lines { bytes := withReturns 0x0A 0x0D bytes, failure } = lines { bytes, failure } := by
  cases failure with
  | none => exact congrArg (List.map Utf8.decode) (Lockstep.lines_withReturns (by decide) h).2
  | some cause => exact congrArg (List.map Utf8.decode) (Lockstep.lines_withReturns (by decide) h).1

end Lockstep
