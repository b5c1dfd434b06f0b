import Lockstep.Proofs.Printed.Strings

/-! What is printed, by where the tags are.

Two positions decide what a line contributes: behind its first opening tag (`opening?`), and where
its last closing tag begins (`closing?`). If the line has neither, it is decided by the last line
before it that has a tag (`leftOpen`). This is the meaning of a step (`step_eq_portion`), for every
arrangement of tags on a line, and over a log the state before a line is that of the lines before it
(`fst_history`). -/
namespace Lockstep.Printed

/-- The position behind the first opening tag. -/
def opening? (line : Text) : Option Nat :=
  (Text.places openTag line).min?.map (· + openTag.length)

/-- The position where the last closing tag begins. -/
def closing? (line : Text) : Option Nat := (Text.places closeTag line).max?

/-- What a line contributes by the positions of its tags, with a string open before it or not. -/
def portion (isOpen : Bool) (line : Text) : Text :=
  match opening? line, closing? line with
  | some start, some stop => if start ≤ stop then (line.take stop).drop start else line.take stop
  | none, some stop => line.take stop
  | some start, none => Text.line (line.drop start)
  | none, none => if isOpen then line.line else []

/-- Whether there is a line with a tag, and the last such line has no closing tag. -/
def leftOpen (lines : List Text) : Bool :=
  (lines.filter fun line => ¬ TagFree line).getLast?.any fun line => !Text.includes closeTag line

/-- What the lines of a log contribute, each after the lines before it. -/
def portions (lines : List Text) : List Text :=
  lines.mapIdx fun i line => portion (leftOpen (lines.take i)) line

/-! ### The positions on a line -/

section
variable {line : Text} {start : Nat}

theorem after?_eq_opening (line : Text) :
    Text.after? openTag line = (opening? line).map line.drop := by
  rw [Text.after?, Text.splitOnce_eq_places, opening?, Option.map_map, Option.map_map]
  rfl

theorem closed?_eq_closing (line : Text) : closed? line = (closing? line).map line.take := by
  rw [closed?, Text.splitLast_eq_places, closing?, Option.map_map]
  rfl

theorem opening?_eq_none_iff : opening? line = none ↔ Text.includes openTag line = false := by
  rw [opening?, Option.map_eq_none_iff, List.min?_eq_none_iff, Text.places_eq_nil_iff]

theorem closing?_eq_none_iff : closing? line = none ↔ Text.includes closeTag line = false := by
  rw [closing?, List.max?_eq_none_iff, Text.places_eq_nil_iff]

theorem tagFree_iff : TagFree line ↔ opening? line = none ∧ closing? line = none := by
  rw [opening?_eq_none_iff, closing?_eq_none_iff, TagFree, Bool.forall_bool]
  rfl

theorem opening?_le_length (h : opening? line = some start) : start ≤ line.length := by
  obtain ⟨n, hn, rfl⟩ := Option.map_eq_some_iff.mp h
  obtain ⟨front, back, rfl, rfl⟩ :=
    Text.mem_places_iff_split.mp (List.min?_eq_some_iff.mp hn).1
  simp

/-- The last closing tag behind a position is the last one of the line, if that is behind it. -/
theorem closing?_drop (h : start ≤ line.length) :
    closing? (line.drop start) = ((closing? line).filter (start ≤ ·)).map (· - start) := by
  cases hclosing : closing? line with
  | none =>
    have hnil := List.max?_eq_none_iff.mp hclosing
    refine List.max?_eq_none_iff.mpr (List.eq_nil_iff_forall_not_mem.mpr fun n hn => ?_)
    rw [Text.mem_places_drop h, hnil] at hn
    cases hn
  | some stop =>
    obtain ⟨hstop, hlast⟩ := List.max?_eq_some_iff.mp hclosing
    by_cases hle : start ≤ stop
    · rw [Option.filter_some_pos (by simpa using hle), Option.map_some, closing?,
        List.max?_eq_some_iff, Text.mem_places_drop h, Nat.add_sub_cancel' hle]
      exact ⟨hstop, fun n hn => Nat.le_sub_of_add_le' (hlast _ ((Text.mem_places_drop h).mp hn))⟩
    · rw [Option.filter_some_neg (by simpa using hle), Option.map_none, closing?,
        List.max?_eq_none_iff, List.eq_nil_iff_forall_not_mem]
      intro n hn
      have hle' := hlast _ ((Text.mem_places_drop h).mp hn)
      omega

theorem enclosed?_eq_positions (line : Text) :
    enclosed? line = (opening? line).bind fun start =>
      ((closing? line).filter (start ≤ ·)).map fun stop => (line.take stop).drop start := by
  have hafter : Text.after? (tag false) line = (opening? line).map line.drop :=
    after?_eq_opening line
  rw [enclosed?_eq, hafter, Option.bind_map]
  refine Option.bind_congr fun start hstart => ?_
  rw [Function.comp_apply, closed?_eq_closing, closing?_drop (opening?_le_length hstart),
    Option.map_map]
  refine congrArg (Option.map · _) (funext fun stop => ?_)
  rw [Function.comp_apply, List.drop_take]

theorem opened?_eq_opening (h : line.Unbroken) : opened? line = (opening? line).map line.drop := by
  rw [opened?, after?_eq_opening, Option.map_map]
  refine congrArg (Option.map · _) (funext fun start => ?_)
  exact Text.upTo_of_not_mem (h.of_subset (List.drop_subset start line))

/-- **A line contributes what the positions of its tags say**, and a string is open after it by its
last closing tag, by its first opening tag, or as before. -/
theorem step_eq_portion (h : line.Unbroken) (isOpen : Bool) :
    step false isOpen line =
      ((closing? line).isNone && ((opening? line).isSome || isOpen), portion isOpen line) := by
  rw [step_of_unbroken h, enclosed?_eq_positions, closed?_eq_closing, opened?_eq_opening h, portion]
  cases opening? line with
  | none => cases closing? line <;> rfl
  | some start =>
    cases closing? line with
    | none => rfl
    | some stop =>
      by_cases hle : start ≤ stop
      · simp [Option.filter, hle]
      · simp [Option.filter, hle]

end

/-! ### The last line with a tag -/

section
variable {lines : List Text}

theorem leftOpen_concat (lines : List Text) (line : Text) :
    leftOpen (lines ++ [line]) =
      ((closing? line).isNone && ((opening? line).isSome || leftOpen lines)) := by
  rw [leftOpen, List.filter_append]
  by_cases hfree : TagFree line
  · obtain ⟨hopening, hclosing⟩ := tagFree_iff.mp hfree
    rw [List.filter_cons_of_neg (by simpa using hfree), List.filter_nil, List.append_nil, hopening,
      hclosing]
    rfl
  · rw [List.filter_cons_of_pos (by simpa using hfree), List.filter_nil, List.getLast?_concat,
      Option.any_some]
    cases hclosing : closing? line with
    | none =>
      rw [closing?_eq_none_iff.mp hclosing]
      cases hopening : opening? line with
      | none => exact absurd (tagFree_iff.mpr ⟨hopening, hclosing⟩) hfree
      | some start => rfl
    | some stop =>
      have hincludes : Text.includes closeTag line = true := by
        rw [← Bool.not_eq_false, ← closing?_eq_none_iff, hclosing]
        exact Option.some_ne_none stop
      rw [hincludes]
      rfl

theorem leftOpen_iff :
    leftOpen lines = true ↔ ∃ earlier line later, lines = earlier ++ line :: later ∧
      ¬ TagFree line ∧ Text.includes closeTag line = false ∧ ∀ other ∈ later, TagFree other := by
  rw [leftOpen, Option.any_eq_true]
  constructor
  · rintro ⟨line, hlast, hclose⟩
    obtain ⟨tagged, hfilter⟩ := List.getLast?_eq_some_iff.mp hlast
    obtain ⟨front, back, rfl, _, hback⟩ := List.filter_eq_append_iff.mp hfilter
    obtain ⟨between, later, rfl, _, hline, hlater⟩ := List.filter_eq_cons_iff.mp hback
    refine ⟨front ++ between, line, later, by simp, by simpa using hline, by simpa using hclose, ?_⟩
    simpa using List.filter_eq_nil_iff.mp hlater
  · rintro ⟨earlier, line, later, rfl, hline, hclose, hlater⟩
    have hnil : later.filter (fun line => ¬ TagFree line) = [] :=
      List.filter_eq_nil_iff.mpr (by simpa using hlater)
    refine ⟨line, ?_, by simpa using hclose⟩
    rw [List.filter_append, List.filter_cons_of_pos (by simpa using hline), hnil]
    exact List.getLast?_concat

theorem fst_history (hlines : ∀ line ∈ lines, line.Unbroken) :
    (history (step false) false lines).1 = leftOpen lines := by
  induction lines using List.reverseRecOn with
  | nil => rfl
  | append_singleton lines line ih =>
    obtain ⟨hlines, hline⟩ := List.forall_mem_append.mp hlines
    rw [history_append, ih hlines, history_cons, history_nil, leftOpen_concat,
      step_eq_portion (hline line List.mem_cons_self)]

theorem history_eq_portions (hlines : ∀ line ∈ lines, line.Unbroken) :
    history (step false) false lines = (leftOpen lines, portions lines) := by
  refine Prod.ext (fst_history hlines) (List.ext_getElem? fun i => ?_)
  rw [getElem?_history, portions, List.getElem?_mapIdx]
  refine Option.map_congr fun line hline => ?_
  rw [fst_history fun other hother => hlines other (List.mem_of_mem_take hother),
    step_eq_portion (hlines line (List.mem_of_getElem? hline))]

/-- **A log is printed by the positions of its tags**, a line with the lines before it in mind: a
string is open if the last line with a tag has no closing tag. -/
theorem prints_by_position (hlines : ∀ line ∈ lines, line.Unbroken) :
    history (step false) false lines = (leftOpen lines, portions lines) ∧
      extract false lines = (leftOpen lines, (portions lines).flatten) ∧
      (leftOpen lines = true ↔ ∃ earlier line later, lines = earlier ++ line :: later ∧
        ¬ TagFree line ∧ Text.includes closeTag line = false ∧ ∀ other ∈ later, TagFree other) :=
  ⟨history_eq_portions hlines, by rw [extract, history_eq_portions hlines], leftOpen_iff⟩

end

/-- Tags that stand more than once on a line, in the wrong order, and inside one another. -/
def tangled : List Text :=
  ["<rev-print>a<rev-print>b".toList, "c".toList, "d</rev-print>e<rev-print>f".toList, "g".toList,
    "<rev-print>h<rev-print>i</rev-print>j</rev-print>k".toList, "</rev-print></rev-print>".toList,
    "l<rev-print>".toList, "m".toList]

theorem prints_by_position_tangled : (∀ line ∈ tangled, line.Unbroken) ∧
    extract false tangled = (true,
      "a<rev-print>b\nc\ndh<rev-print>i</rev-print>j</rev-print>\nm\n".toList) :=
  ⟨by decide, (prints_by_position (by decide)).2.1.trans (by decide +kernel)⟩

end Lockstep.Printed
