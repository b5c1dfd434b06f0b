import Lockstep.Proofs.Printed.Strings
import Lockstep.Proofs.Run.Outcome

/-! Stamped prints beside plain ones.

A stamp is searched for on its own, not at the tag that opens the string: it is the leftmost mark of
a line (`stamp?_eq_some_iff`), of whichever opening tag it is. Only a line that opens a string and
closes none has one (`Stamp`), so a step differs from the plain one in the stamp that goes before
the text, and not in the state (`exists_stamp`). Whole logs follow line by line
(`history_stamped`). -/
namespace Lockstep.Printed

/-- Behind a front of a line stand a colon, digits, and the end of a stamp. -/
def Mark (line front digits : Text) : Prop :=
  digits ≠ [] ∧ (∀ c ∈ digits, Text.isDecimalDigit c = true) ∧
    ∃ back, line = front ++ ':' :: (digits ++ (stampEnd ++ back))

/-- The digits of the leftmost mark. -/
def Marked (line digits : Text) : Prop :=
  ∃ front, Mark line front digits ∧ ∀ other more, Mark line other more → front.length ≤ other.length

/-- What is put before the text of a line. -/
inductive Stamp (line : Text) : Text → Prop where
  | tick {digits : Text} (hopen : openTag <:+: line) (hclose : ¬ closeTag <:+: line)
      (hmarked : Marked line digits) : Stamp line (Text.line ('#' :: digits))
  | none
      (h : ¬ (openTag <:+: line ∧ ¬ closeTag <:+: line ∧ ∃ front digits, Mark line front digits)) :
      Stamp line []

/-- Texts of the lines of a log, each with its stamp, make up both prints. -/
structure Stamped (lines : List Text) (parts : List (Text × Text)) : Prop where
  stamps : List.Forall₂ Stamp lines (parts.map Prod.fst)
  plain : (history (step false) false lines).2 = parts.map Prod.snd
  stamped : (history (step true) false lines).2 = parts.map fun (stamp, text) => stamp ++ text

/-! ### The leftmost mark -/

section
variable {line rest front digits : Text} {c d : Char}

theorem isStamp_iff :
    isStamp rest = true ∧ rest.takeWhile Text.isDecimalDigit = digits ↔
      digits ≠ [] ∧ (∀ c ∈ digits, Text.isDecimalDigit c = true) ∧
        ∃ back, rest = digits ++ (stampEnd ++ back) := by
  rw [isStamp, Bool.and_eq_true, List.isPrefixOf_iff_prefix]
  constructor
  · rintro ⟨⟨hhead, back, hback⟩, rfl⟩
    refine ⟨?_, fun c hc => List.mem_takeWhile_imp hc, back, ?_⟩
    · cases rest with
      | nil => cases hhead
      | cons c rest =>
        have hc : Text.isDecimalDigit c = true := hhead
        rw [List.takeWhile_cons_of_pos hc]
        exact List.cons_ne_nil _ _
    · rw [hback, List.takeWhile_append_dropWhile]
  · rintro ⟨hne, hdigits, back, rfl⟩
    have hstop : (stampEnd ++ back).takeWhile Text.isDecimalDigit = [] := rfl
    have hrest : (stampEnd ++ back).dropWhile Text.isDecimalDigit = stampEnd ++ back := rfl
    rw [List.takeWhile_append_of_pos hdigits, List.dropWhile_append_of_pos hdigits, hstop, hrest,
      List.append_nil]
    refine ⟨⟨?_, List.prefix_append stampEnd back⟩, rfl⟩
    cases digits with
    | nil => exact absurd rfl hne
    | cons c digits => exact hdigits c List.mem_cons_self

theorem mark_nil_iff :
    Mark (c :: rest) [] digits ↔
      (c == ':' && isStamp rest) = true ∧ rest.takeWhile Text.isDecimalDigit = digits := by
  rw [Bool.and_eq_true, beq_iff_eq, and_assoc, isStamp_iff, Mark]
  simp [and_left_comm]

theorem mark_cons_iff : Mark (c :: rest) (d :: front) digits ↔ c = d ∧ Mark rest front digits := by
  rw [Mark, Mark]
  simp [and_left_comm]

theorem not_mark_nil (front digits : Text) : ¬ Mark [] front digits := by
  rintro ⟨_, _, back, hline⟩
  cases front <;> cases hline

/-- A mark that begins a line is its leftmost one. -/
theorem marked_cons_of_begins (h : (c == ':' && isStamp rest) = true) :
    Marked (c :: rest) digits ↔ rest.takeWhile Text.isDecimalDigit = digits := by
  constructor
  · rintro ⟨front, hmark, hleast⟩
    have hle := hleast [] _ (mark_nil_iff.mpr ⟨h, rfl⟩)
    obtain rfl := List.length_eq_zero_iff.mp (Nat.le_zero.mp hle)
    exact (mark_nil_iff.mp hmark).2
  · intro hdigits
    exact ⟨[], mark_nil_iff.mpr ⟨h, hdigits⟩, fun _ _ _ => Nat.zero_le _⟩

/-- Where no mark begins, the leftmost one is that of the rest. -/
theorem marked_cons_of_not_begins (h : ¬ (c == ':' && isStamp rest) = true) :
    Marked (c :: rest) digits ↔ Marked rest digits := by
  constructor
  · rintro ⟨front, hmark, hleast⟩
    cases front with
    | nil => exact absurd (mark_nil_iff.mp hmark).1 h
    | cons d front =>
      refine ⟨front, (mark_cons_iff.mp hmark).2, fun other more hother => ?_⟩
      exact Nat.le_of_succ_le_succ (hleast (c :: other) more (mark_cons_iff.mpr ⟨rfl, hother⟩))
  · rintro ⟨front, hmark, hleast⟩
    refine ⟨c :: front, mark_cons_iff.mpr ⟨rfl, hmark⟩, fun other more hother => ?_⟩
    cases other with
    | nil => exact absurd (mark_nil_iff.mp hother).1 h
    | cons d other => exact Nat.succ_le_succ (hleast other more (mark_cons_iff.mp hother).2)

theorem stamp?_eq_some_iff : stamp? line = some digits ↔ Marked line digits := by
  induction line with
  | nil =>
    refine ⟨nofun, ?_⟩
    rintro ⟨front, hmark, _⟩
    exact absurd hmark (not_mark_nil front digits)
  | cons c rest ih =>
    rw [stamp?]
    by_cases hbegins : (c == ':' && isStamp rest) = true
    · rw [if_pos hbegins, marked_cons_of_begins hbegins, Option.some_inj]
    · rw [if_neg hbegins, marked_cons_of_not_begins hbegins, ih]

theorem not_mark_of_stamp? (h : stamp? line = none) (front digits : Text) :
    ¬ Mark line front digits := by
  induction line generalizing front with
  | nil => exact not_mark_nil front digits
  | cons c rest ih =>
    rw [stamp?] at h
    split at h
    · cases h
    · next hbegins =>
      intro hmark
      cases front with
      | nil => exact hbegins (mark_nil_iff.mp hmark).1
      | cons d front => exact ih h front (mark_cons_iff.mp hmark).2

end

/-- A mark ends with an opening tag. -/
theorem Marked.openTag_infix {line digits : Text} (h : Marked line digits) : openTag <:+: line := by
  obtain ⟨front, ⟨_, _, back, rfl⟩, _⟩ := h
  exact ⟨front ++ ':' :: (digits ++ "]: ".toList), back, by simp [stampEnd]⟩

/-! ### One line -/

section
variable {line : Text}

/-- No tag goes on over a line feed. -/
theorem includes_pieces (isOpen : Bool) (line : Text) :
    Text.includes (tag isOpen) line =
      (pieces (· == '\n') line).any (Text.includes (tag isOpen)) := by
  have hfeed : '\n' ∉ tag isOpen := not_mem_tag (by decide) (by decide) isOpen
  induction line using lines_induction '\n' with
  | last line hline => rw [pieces_of_not_mem hline, List.any_cons, List.any_nil, Bool.or_false]
  | ended line rest hline ih =>
    rw [Text.includes_append_cons hfeed, pieces_line_append hline, List.any_cons, ih]

theorem step_of_not_includes (h : Text.includes (tag true) line = false) (stamped isOpen : Bool) :
    step stamped isOpen line =
      match opened? line with
      | some text => (true, (if stamped then stampLine line else []) ++ text.line)
      | none => (isOpen, if isOpen then line.line else []) := by
  rw [includes_pieces, List.any_eq_false] at h
  have hclosed : (pieces (· == '\n') line).findSome? closed? = none :=
    List.findSome?_eq_none_iff.mpr fun piece hpiece =>
      closed?_eq_none_iff.mpr (Bool.eq_false_iff.mpr (h piece hpiece))
  have henclosed : (pieces (· == '\n') line).findSome? enclosed? = none :=
    List.findSome?_eq_none_iff.mpr fun piece hpiece =>
      enclosed?_eq_none_of_not_closed (Bool.eq_false_iff.mpr (h piece hpiece))
  cases hopened : opened? line <;> simp only [step, henclosed, hclosed, hopened]

theorem step_of_includes (h : Text.includes (tag true) line = true) (isOpen : Bool) :
    step true isOpen line = step false isOpen line := by
  rw [includes_pieces, List.any_eq_true] at h
  obtain ⟨piece, hpiece, hincludes⟩ := h
  have hclosed : (pieces (· == '\n') line).findSome? closed? ≠ none := by
    intro hnone
    have hpieceNone := List.findSome?_eq_none_iff.mp hnone piece hpiece
    rw [closed?_eq_none_iff.mp hpieceNone] at hincludes
    cases hincludes
  obtain ⟨text, htext⟩ := Option.ne_none_iff_exists'.mp hclosed
  simp only [step, htext]

/-- **A stamp is all that a line has more in a stamped print.** -/
theorem exists_stamp (isOpen : Bool) (line : Text) :
    ∃ stamp, Stamp line stamp ∧
      step true isOpen line =
        ((step false isOpen line).1, stamp ++ (step false isOpen line).2) := by
  cases hincludes : Text.includes (tag true) line with
  | true =>
    have hclose : closeTag <:+: line := Text.includes_iff.mp hincludes
    exact ⟨[], .none fun h => h.2.1 hclose, step_of_includes hincludes isOpen⟩
  | false =>
    have hclose : ¬ closeTag <:+: line := Text.not_infix_iff.mpr hincludes
    rw [step_of_not_includes hincludes, step_of_not_includes hincludes]
    cases hopened : opened? line with
    | none =>
      have hopen : ¬ openTag <:+: line := Text.not_infix_iff.mpr (opened?_eq_none_iff.mp hopened)
      exact ⟨[], .none fun h => hopen h.1, rfl⟩
    | some text =>
      refine ⟨stampLine line, ?_, rfl⟩
      rw [stampLine]
      cases hstamp : stamp? line with
      | none => exact .none fun ⟨_, _, front, digits, h⟩ => not_mark_of_stamp? hstamp front digits h
      | some digits =>
        have hmarked := stamp?_eq_some_iff.mp hstamp
        exact .tick hmarked.openTag_infix hclose hmarked

end

/-! ### All lines -/

theorem history_stamped (isOpen : Bool) (lines : List Text) :
    ∃ parts : List (Text × Text), List.Forall₂ Stamp lines (parts.map Prod.fst) ∧
      (history (step false) isOpen lines).2 = parts.map Prod.snd ∧
      history (step true) isOpen lines =
        ((history (step false) isOpen lines).1, parts.map fun (stamp, text) => stamp ++ text) := by
  induction lines generalizing isOpen with
  | nil => exact ⟨[], .nil, rfl, rfl⟩
  | cons line lines ih =>
    obtain ⟨stamp, hstamp, hstep⟩ := exists_stamp isOpen line
    obtain ⟨parts, hstamps, hplain, hstamped⟩ := ih (step false isOpen line).1
    refine ⟨(stamp, (step false isOpen line).2) :: parts, .cons hstamp hstamps, ?_, ?_⟩
    · rw [history_cons, hplain, List.map_cons]
    · rw [history_cons, history_cons, hstep, hstamped, List.map_cons]

theorem fst_extract (lines : List Text) : (extract true lines).1 = (extract false lines).1 := by
  obtain ⟨parts, _, _, hstamped⟩ := history_stamped false lines
  rw [extract, hstamped]
  rfl

theorem exists_stamped (lines : List Text) : ∃ parts, Stamped lines parts := by
  obtain ⟨parts, hstamps, hplain, hstamped⟩ := history_stamped false lines
  exact ⟨parts, hstamps, hplain, congrArg Prod.snd hstamped⟩

/-! ### The print of a log -/

/-- The lines at a path, as far as they can be read. -/
def linesAt (files : Files) (path : Text) : List Text :=
  match files.openStream path with
  | .ok log => log.lines
  | .error _ => []

theorem output_print (files : Files) (stamped : Bool) (path : Text) :
    (print files stamped path).output = (extract stamped (linesAt files path)).2 := by
  refine (congrArg Prod.fst (outcome_print files stamped path)).trans ?_
  rw [Files.opened, linesAt]
  cases files.openStream path <;> rfl

/-- A stamped print says what a plain one says, and ends like it. -/
theorem print_stamped (files : Files) (path : Text) :
    (print files true path).notes = (print files false path).notes ∧
      (print files true path).result = (print files false path).result := by
  unfold print Run.openStream
  cases files.openStream path with
  | error cause => exact ⟨rfl, rfl⟩
  | ok log =>
    unfold Run.toEnd
    simp only [fst_extract]
    cases log.failure <;> exact ⟨rfl, rfl⟩

/-- **Stamps are only inserted.** Over any lines a stamped print is in a string where the plain one
is, and a line contributes its stamp to it and then what it contributes to the plain one. So the
print of a log is its plain print once the stamps are taken out. -/
theorem stamps_inserted (files : Files) (path : Text) (lines : List Text) :
    (∀ n, (extract true (lines.take n)).1 = (extract false (lines.take n)).1) ∧
      (∃ parts, Stamped lines parts) ∧
      ∃ parts, Stamped (linesAt files path) parts ∧
        (print files true path).output = parts.flatMap (fun (stamp, text) => stamp ++ text) ∧
        (print files false path).output = parts.flatMap Prod.snd ∧
        (print files true path).notes = (print files false path).notes ∧
        (print files true path).result = (print files false path).result := by
  refine ⟨fun n => fst_extract _, exists_stamped lines, ?_⟩
  obtain ⟨parts, hparts⟩ := exists_stamped (linesAt files path)
  refine ⟨parts, hparts, ?_, ?_, print_stamped files path⟩
  · rw [output_print, List.flatMap_def, ← hparts.stamped]
    rfl
  · rw [output_print, List.flatMap_def, ← hparts.plain]
    rfl

/-- The first stamp stands at the second tag, in digits of another script. -/
example : (extract true ["<rev-print>a:१२]: <rev-print>b:3]: <rev-print>".toList]).2 =
    "#१२\na:१२]: <rev-print>b:3]: <rev-print>\n".toList := by decide +kernel

end Lockstep.Printed
