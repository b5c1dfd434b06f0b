import Lockstep.Proofs.Printed.Tags

/-! Which strings are printed as they were.

What a string has of a line is told line by line (`Told`), and the parts put together are the
strings of the log. A line contributes its part, and leaves the right strings open, unless it opens a
string after one that it closed (`step_eq_of_sound`); of these lines only those do that begin with a
closing tag and have one whole string behind it (`sound_of_step`). For what a line contributes
reaches to its last closing tag: where there are two strings or more it has tags in it, more of them
than could come about where the parts of the strings meet (`Exceeds.ne`). So a log is printed string
by string exactly if no line goes on with another string: `prints_strings`. -/
namespace Lockstep.Printed

/-! ### What a line contributes -/

section
variable {line text rest : Text}

theorem exists_closeTag : ∃ front, closeTag = front ++ ['>'] ∧ '>' ∉ front :=
  ⟨"</rev-print".toList, by decide, by decide⟩

theorem closed?_eq_none_iff : closed? line = none ↔ Text.includes (tag true) line = false := by
  rw [closed?, Option.map_eq_none_iff]
  exact Text.splitLast_eq_none_iff

theorem closed?_subset (h : closed? line = some text) : text ⊆ line := by
  obtain ⟨⟨_, back⟩, hsplit, rfl⟩ := Option.map_eq_some_iff.mp h
  rw [Text.eq_of_splitLast hsplit, List.append_assoc]
  exact List.subset_append_left _ _

theorem closed?_tag (h : Text.includes (tag true) rest = false) (text : Text) :
    closed? (text ++ (tag true ++ rest)) = some text := by
  obtain ⟨front, htag, hfront⟩ := exists_closeTag
  have htag' : tag true = front ++ ['>'] := htag
  rw [htag'] at h ⊢
  rw [closed?, htag, Text.splitLast_of_not_includes hfront h]
  rfl

theorem enclosed?_eq (line : Text) :
    enclosed? line = (Text.after? (tag false) line).bind closed? := by
  unfold enclosed? closed?
  change _ = (Text.after? openTag line).bind _
  cases Text.after? openTag line with
  | none => rfl
  | some inside =>
    simp only [Option.bind_eq_bind, Option.bind_some]
    cases Text.splitLast closeTag inside <;> rfl

theorem after?_eq_none {pattern : Text} (h : Text.includes pattern line = false) :
    Text.after? pattern line = none := by
  rw [Text.after?, Text.splitOnce_eq_none_iff.mpr h]
  rfl

theorem enclosed?_subset (h : enclosed? line = some text) : text ⊆ line := by
  rw [enclosed?_eq] at h
  obtain ⟨inside, hinside, hclosed⟩ := Option.bind_eq_some_iff.mp h
  exact List.Subset.trans (closed?_subset hclosed) (Text.after?_subset hinside)

theorem enclosed?_eq_none (h : Text.includes (tag false) line = false) : enclosed? line = none := by
  rw [enclosed?_eq, after?_eq_none h]
  rfl

theorem enclosed?_eq_none_of_not_closed (h : Text.includes (tag true) line = false) :
    enclosed? line = none := by
  rw [enclosed?_eq, Option.bind_eq_none_iff]
  intro inside hinside
  obtain ⟨front, hfirst⟩ := Text.after?_eq_some_iff.mp hinside
  have hpart : inside <:+: line := hfirst.split ▸ (List.suffix_append _ inside).isInfix
  exact closed?_eq_none_iff.mpr (Text.not_includes_of_infix h hpart)

theorem enclosed?_tag (h : TagFree text) (rest : Text) :
    enclosed? (text ++ (tag false ++ rest)) = closed? rest := by
  rw [enclosed?_eq, after?_tag h]
  rfl

theorem enclosed?_other (h : TagFree text) (rest : Text) :
    enclosed? (text ++ (tag true ++ rest)) = enclosed? rest := by
  rw [enclosed?_eq, enclosed?_eq]
  exact congrArg (Option.bind · closed?) (after?_other h false rest)

theorem opened?_eq_none_iff : opened? line = none ↔ Text.includes (tag false) line = false := by
  rw [opened?, Text.after?, Option.map_map, Option.map_eq_none_iff]
  exact Text.splitOnce_eq_none_iff

theorem opened?_tag (h : TagFree text) (hrest : rest.Unbroken) :
    opened? (text ++ (tag false ++ rest)) = some rest := by
  have hafter : Text.after? openTag (text ++ (tag false ++ rest)) = some rest :=
    after?_tag h false rest
  rw [opened?, hafter]
  exact congrArg some (Text.upTo_of_not_mem hrest)

theorem step_of_unbroken (h : line.Unbroken) (isOpen : Bool) :
    step false isOpen line =
      match enclosed? line, closed? line, opened? line with
      | some text, _, _ => (false, text)
      | none, some text, _ => (false, text)
      | none, none, some text => (true, text.line)
      | none, none, none => (isOpen, given isOpen line.line) := by
  simp only [step, pieces_of_not_mem h, List.findSome?_cons, List.findSome?_nil]
  cases enclosed? line with
  | some text => rfl
  | none =>
    cases closed? line with
    | some text => rfl
    | none => cases opened? line <;> rfl

/-- A line without tags is the string's, if one is open. -/
theorem step_of_tagFree (h : line.Unbroken) (hfree : TagFree line) (isOpen : Bool) :
    step false isOpen line = (isOpen, given isOpen line.line) := by
  rw [step_of_unbroken h, enclosed?_eq_none (hfree false), closed?_eq_none_iff.mpr (hfree true),
    opened?_eq_none_iff.mpr (hfree false)]

/-- A closing tag takes the end of its line with it. -/
theorem unbroken_step (h : line.Unbroken) (hclose : Text.includes (tag true) line = true)
    (isOpen : Bool) : (step false isOpen line).2.Unbroken := by
  rw [step_of_unbroken h]
  cases henclosed : enclosed? line with
  | some text => exact h.of_subset (enclosed?_subset henclosed)
  | none =>
    cases hclosed : closed? line with
    | some text => exact h.of_subset (closed?_subset hclosed)
    | none =>
      rw [closed?_eq_none_iff.mp hclosed] at hclose
      cases hclose

end

/-! ### More tags than the strings can have -/

/-- Two texts have the same end, and before it the first one has more tags than the second one, by
two or more. -/
def Exceeds (text told : Text) : Prop :=
  ∃ front short back, text = front ++ back ∧ told = short ++ back ∧ tagsIn short + 2 ≤ tagsIn front

/-- A front without tags does not make up for them. -/
theorem Exceeds.ne {text told : Text} (h : Exceeds text told) {gap : Text} (hgap : TagFree gap) :
    text ≠ gap ++ told := by
  obtain ⟨front, short, back, rfl, rfl, hcount⟩ := h
  intro heq
  rw [← List.append_assoc] at heq
  have hfront : front = gap ++ short := List.append_cancel_right heq
  have hmeet := tagsIn_append_le gap short
  rw [← hfront, tagsIn_eq_zero hgap] at hmeet
  omega

theorem tagsIn_between (text gap rest : Text) :
    tagsIn text + tagsIn rest + 2 ≤
      tagsIn (text ++ (tag true ++ (gap ++ (tag false ++ rest)))) := by
  have hclose : tagsIn (tag true) = 1 := by decide
  have hopen : tagsIn (tag false) = 1 := by decide
  have h₁ := le_tagsIn_append text (tag true ++ (gap ++ (tag false ++ rest)))
  have h₂ := le_tagsIn_append (tag true) (gap ++ (tag false ++ rest))
  have h₃ := le_tagsIn_append gap (tag false ++ rest)
  have h₄ := le_tagsIn_append (tag false) rest
  omega

/-- What stands between the first opening tag and the last closing tag: the one string, or more
tags than the strings together have. -/
theorem Tagged.exists_inner {line first : Text} {strings : List Text}
    (h : Tagged line (first :: strings)) :
    ∃ gap inner back, line = gap ++ (tag false ++ (inner ++ (tag true ++ back))) ∧ TagFree gap ∧
      Text.includes closeTag back = false ∧
      (strings = [] ∧ inner = first ∨ Exceeds inner (first :: strings).flatten) := by
  generalize hall : first :: strings = all at h
  induction h generalizing first strings with
  | gap _ => cases hall
  | @string gap text rest more hgap htext hrest ih =>
    obtain ⟨rfl, rfl⟩ := List.cons.inj hall
    cases strings with
    | nil =>
      cases hrest with
      | gap hback => exact ⟨gap, first, rest, rfl, hgap, hback true, .inl ⟨rfl, rfl⟩⟩
    | cons second strings =>
      obtain ⟨between, inner, back, rfl, hbetween, hback, hinner⟩ := ih rfl
      refine ⟨gap, first ++ (tag true ++ (between ++ (tag false ++ inner))), back, by simp, hgap,
        hback, .inr ?_⟩
      rcases hinner with ⟨rfl, rfl⟩ | ⟨front, short, back, rfl, htold, hcount⟩
      · have hmeet := tagsIn_between first between []
        refine ⟨first ++ (tag true ++ (between ++ (tag false ++ []))), first, inner, by simp,
          by simp, ?_⟩
        omega
      · have hmeet := tagsIn_between first between front
        have hshort := tagsIn_append_le first short
        rw [tagsIn_eq_zero htext] at hshort
        refine ⟨first ++ (tag true ++ (between ++ (tag false ++ front))), first ++ short, back,
          by simp, by rw [List.flatten_cons, htold, List.append_assoc], ?_⟩
        omega

/-! ### Lines that open a string after one that they close -/

/-- An opening tag stands behind the first closing tag. -/
def Reopens (line : Text) : Prop :=
  ∃ rest, Text.after? closeTag line = some rest ∧ Text.includes openTag rest = true

instance (line : Text) : Decidable (Reopens line) :=
  decidable_of_iff ((Text.after? closeTag line).any (Text.includes openTag) = true)
    (Option.any_eq_true _ _)

/-- A closing tag stands first, and one whole string behind it. -/
def ClosesFirst (line : Text) : Prop :=
  ∃ text rest, line = closeTag ++ rest ∧ Tagged rest [text]

section
variable {isOpen last : Bool} {line told : Text}

/-- A line that begins with a closing tag is none of a log with no string open. -/
theorem tag_ne_tag {text : Text} (h : TagFree text) (rest rest' : Text) :
    text ++ (tag false ++ rest) ≠ tag true ++ rest' := by
  intro heq
  have hother := splitOnce_other h true rest
  rw [Bool.not_true, heq, Text.splitOnce_of_isPrefixOf] at hother
  obtain ⟨_, _, hbefore⟩ := Option.map_eq_some_iff.mp hother.symm
  have hnil := List.append_eq_nil_iff.mp (Prod.mk.inj hbefore).1
  obtain ⟨tail, htag, _⟩ := exists_tag false
  rw [htag] at hnil
  cases (List.append_eq_nil_iff.mp hnil.2).1

theorem step_of_closed (hline : line.Unbroken) (h : Reads false line last told)
    (hsound : Reopens line → ClosesFirst line) :
    step false false line = (last, told ++ given last ['\n']) := by
  rcases h.cases_closed with ⟨hfree, rfl, rfl⟩ | ⟨gap, rest, rfl, hgap, hrest⟩
  · exact step_of_tagFree hline hfree false
  · rw [step_of_unbroken hline, enclosed?_tag hgap]
    rcases hrest.cases_open with ⟨hfree, rfl, rfl⟩ | ⟨text, back, told', rfl, htext, hback, rfl⟩
    · have hclose : Text.includes (tag true) (gap ++ (tag false ++ told)) = false :=
        (includes_other hgap true told).trans (hfree true)
      rw [closed?_eq_none_iff.mpr (hfree true), closed?_eq_none_iff.mpr hclose,
        opened?_tag hgap (hline.of_subset (by simp))]
      rfl
    · rcases hback.cases_closed with ⟨hfree, rfl, rfl⟩ | ⟨between, rest, rfl, _, _⟩
      · rw [closed?_tag (hfree true)]
        simp [given]
      · have hafter := (after?_other hgap true _).trans
          (after?_tag htext true (between ++ (tag false ++ rest)))
        obtain ⟨_, rest', heq, _⟩ := hsound ⟨_, hafter, includes_tag between false rest⟩
        exact absurd heq (tag_ne_tag hgap _ rest')

theorem step_of_open (hline : line.Unbroken) (h : Reads true line last told)
    (hsound : Reopens line → ClosesFirst line) :
    step false true line = (last, told ++ given last ['\n']) := by
  rcases h.cases_open with ⟨hfree, rfl, rfl⟩ | ⟨text, rest, told', rfl, htext, hrest, rfl⟩
  · exact step_of_tagFree hline hfree true
  · rw [step_of_unbroken hline, enclosed?_other htext]
    rcases hrest.cases_closed with ⟨hfree, rfl, rfl⟩ | ⟨gap, back, rfl, hgap, hback⟩
    · rw [enclosed?_eq_none (hfree false), closed?_tag (hfree true)]
      simp [given]
    · -- A string is opened again, so the line begins with the closing tag.
      have hafter := after?_tag htext true (gap ++ (tag false ++ back))
      obtain ⟨whole, rest', heq, htagged⟩ := hsound ⟨_, hafter, includes_tag gap false back⟩
      have hafter' : Text.after? (tag true) (tag true ++ rest') = some rest' :=
        after?_tag tagFree_nil true rest'
      have heq' : text ++ (tag true ++ (gap ++ (tag false ++ back))) = tag true ++ rest' := heq
      rw [heq', hafter'] at hafter
      obtain rfl := Option.some.inj hafter
      obtain rfl : text = [] := List.append_cancel_right heq'
      obtain ⟨rfl, rfl⟩ := htagged.reads.unique hrest
      obtain ⟨gap', rest, hrest', hgap', _, hnone⟩ := htagged.exists_of_cons
      rw [hrest', enclosed?_tag hgap', closed?_tag (hnone.gap_of_nil true)]
      simp [given]

/-- **A line contributes what the strings have of it**, if it does not open a string after one that
it closed, or closes one at once. -/
theorem step_eq_of_sound (hline : line.Unbroken) (h : Reads isOpen line last told)
    (hsound : Reopens line → ClosesFirst line) :
    step false isOpen line = (last, told ++ given last ['\n']) := by
  cases isOpen with
  | false => exact step_of_closed hline h hsound
  | true => exact step_of_open hline h hsound

/-- A line with a closing tag leaves no string open. -/
theorem last_of_step (hline : line.Unbroken) (hclose : Text.includes (tag true) line = true)
    (hstep : (step false isOpen line).2 = told ++ given last ['\n']) : last = false := by
  cases last with
  | false => rfl
  | true =>
    have hunbroken := unbroken_step hline hclose isOpen
    rw [hstep] at hunbroken
    exact absurd (List.mem_append_right told List.mem_cons_self) hunbroken

theorem sound_of_closed (hline : line.Unbroken) (h : Reads false line false told)
    (hstep : (step false false line).2 = told) : ¬ Reopens line := by
  intro hreopens
  obtain ⟨rest, hafter, hopens⟩ := hreopens
  rw [step_of_unbroken hline] at hstep
  obtain ⟨strings, htagged, rfl⟩ := h.tagged_of_reads rfl
  cases strings with
  | nil =>
    have hnone : Text.after? closeTag line = none := after?_eq_none (htagged.gap_of_nil true)
    rw [hnone] at hafter
    cases hafter
  | cons first strings =>
    obtain ⟨gap, inner, back, hinnerLine, hgap, hback, hinner⟩ := htagged.exists_inner
    rw [hinnerLine, enclosed?_tag hgap, closed?_tag hback] at hstep
    rcases hinner with ⟨rfl, rfl⟩ | hexceeds
    · -- Behind the one string there is no other.
      obtain ⟨gap', rest', hrestLine, hgap', hinner', hrest'⟩ := htagged.exists_of_cons
      have hafter' : Text.after? closeTag line = some rest' := by
        rw [hrestLine]
        exact (after?_other hgap' true _).trans (after?_tag hinner' true rest')
      rw [hafter'] at hafter
      obtain rfl := Option.some.inj hafter
      have hnone : Text.includes openTag rest' = false := hrest'.gap_of_nil false
      rw [hnone] at hopens
      cases hopens
    · exact hexceeds.ne tagFree_nil hstep

theorem sound_of_open (hline : line.Unbroken) (h : Reads true line false told)
    (hstep : (step false true line).2 = told) (hreopens : Reopens line) : ClosesFirst line := by
  obtain ⟨rest', hafter, hopens⟩ := hreopens
  rw [step_of_unbroken hline] at hstep
  obtain ⟨front, rest, strings, hfront, htagged, rfl, rfl⟩ := h.tagged_of_reads rfl
  have hafter' : Text.after? closeTag (front ++ (tag true ++ rest)) = some rest :=
    after?_tag hfront true rest
  rw [hafter'] at hafter
  obtain rfl := Option.some.inj hafter
  cases strings with
  | nil =>
    have hnone : Text.includes openTag rest = false := htagged.gap_of_nil false
    rw [hnone] at hopens
    cases hopens
  | cons first strings =>
    obtain ⟨gap, inner, back, hinnerLine, hgap, hback, hinner⟩ := htagged.exists_inner
    rw [enclosed?_other hfront, hinnerLine, enclosed?_tag hgap, closed?_tag hback] at hstep
    rcases hinner with ⟨rfl, rfl⟩ | hexceeds
    · have hnil : front = [] := by
        have hlength := congrArg List.length hstep
        simp only [List.flatten_cons, List.flatten_nil, List.length_append, List.length_nil]
          at hlength
        exact List.length_eq_zero_iff.mp (by omega)
      subst hnil
      exact ⟨inner, rest, rfl, htagged⟩
    · exact absurd hstep (hexceeds.ne hfront)

/-- **A line that contributes what the strings have of it** does not open a string after one that it
closed, or closes one at once. -/
theorem sound_of_step (hline : line.Unbroken) (h : Reads isOpen line last told)
    (hstep : (step false isOpen line).2 = told ++ given last ['\n']) (hreopens : Reopens line) :
    ClosesFirst line := by
  have hclose : Text.includes (tag true) line = true := by
    obtain ⟨_, hafter, _⟩ := hreopens
    obtain ⟨split, hsplit, _⟩ := Option.map_eq_some_iff.mp hafter
    exact Option.isSome_iff_exists.mpr ⟨split, hsplit⟩
  obtain rfl := last_of_step hline hclose hstep
  have hstep' : (step false isOpen line).2 = told := hstep.trans (List.append_nil told)
  cases isOpen with
  | false => exact absurd hreopens (sound_of_closed hline h hstep')
  | true => exact sound_of_open hline h hstep' hreopens

end

/-! ### All lines -/

/-- Whether a string is open before some lines, the lines, whether one is open after them, and what
strings have of each line. -/
inductive Told : Bool → List Text → Bool → List Text → Prop where
  | nil {isOpen : Bool} : Told isOpen [] isOpen []
  | cons {isOpen middle last : Bool} {line told : Text} {lines parts : List Text}
      (hline : Reads isOpen line middle told) (hlines : Told middle lines last parts) :
      Told isOpen (line :: lines) last ((told ++ given middle ['\n']) :: parts)

theorem Reads.exists_told {isOpen last : Bool} {lines : List Text} {told : Text}
    (h : Reads isOpen (lines.flatMap Text.line) last told) :
    ∃ parts, Told isOpen lines last parts ∧ parts.flatten = told := by
  induction lines generalizing isOpen told with
  | nil =>
    obtain ⟨rfl, rfl⟩ := h.of_tagFree tagFree_nil
    exact ⟨[], .nil, by cases last <;> rfl⟩
  | cons line lines ih =>
    rw [List.flatMap_cons, Text.line, List.append_assoc, List.singleton_append] at h
    obtain ⟨middle, front, back, hline, hlines, rfl⟩ := h.split
    obtain ⟨parts, hparts, rfl⟩ := ih hlines
    exact ⟨_, .cons hline hparts, by rw [List.flatten_cons, List.append_assoc]⟩

/-- No line opens a string after one that it closed, but one that closes a string at once. -/
def Sound (lines : List Text) : Prop := ∀ line ∈ lines, Reopens line → ClosesFirst line

namespace Told

variable {isOpen last : Bool} {lines parts : List Text}

theorem history_eq (h : Told isOpen lines last parts) (hlines : ∀ line ∈ lines, line.Unbroken)
    (hsound : Sound lines) : history (step false) isOpen lines = (last, parts) := by
  induction h with
  | nil => rfl
  | cons hline _ ih =>
    obtain ⟨hunbroken, hlines⟩ := List.forall_mem_cons.mp hlines
    obtain ⟨hsoundLine, hsound⟩ := List.forall_mem_cons.mp hsound
    rw [history_cons, step_eq_of_sound hunbroken hline hsoundLine, ih hlines hsound]

theorem sound_of_history (h : Told isOpen lines last parts)
    (hlines : ∀ line ∈ lines, line.Unbroken)
    (hparts : (history (step false) isOpen lines).2 = parts) : Sound lines := by
  induction h with
  | nil => exact List.forall_mem_nil _
  | cons hline _ ih =>
    obtain ⟨hunbroken, hlines⟩ := List.forall_mem_cons.mp hlines
    rw [history_cons] at hparts
    obtain ⟨hpart, hparts⟩ := List.cons.inj hparts
    have hsoundLine := sound_of_step hunbroken hline hpart
    rw [step_eq_of_sound hunbroken hline hsoundLine] at hparts
    exact List.forall_mem_cons.mpr ⟨hsoundLine, ih hlines hparts⟩

end Told

/-- **A log is printed string by string exactly if none of its lines opens a string after one that
it closed**, lines that close a string at once and have one whole string behind it apart. -/
theorem prints_strings {lines strings : List Text} (hlines : ∀ line ∈ lines, line.Unbroken)
    (h : Tagged (lines.flatMap Text.line) strings) :
    (Sound lines → extract false lines = (false, strings.flatten)) ∧
      ∃ parts, Told false lines false parts ∧ parts.flatten = strings.flatten ∧
        ((history (step false) false lines).2 = parts ↔ Sound lines) := by
  obtain ⟨parts, htold, hflatten⟩ := h.reads.exists_told
  refine ⟨fun hsound => ?_, parts, htold, hflatten, htold.sound_of_history hlines,
    fun hsound => congrArg Prod.snd (htold.history_eq hlines hsound)⟩
  rw [extract, htold.history_eq hlines hsound, ← hflatten]

/-! ### Logs with several strings -/

/-- A string closes on the line where the next one opens. -/
def abutting : List Text :=
  ["<rev-print>a".toList, "b</rev-print><rev-print>c".toList, "d</rev-print>".toList]

theorem tagged_abutting :
    Tagged (abutting.flatMap Text.line) ["a\nb".toList, "c\nd".toList] := by
  have htext : abutting.flatMap Text.line = [] ++ (tag false ++ ("a\nb".toList ++ (tag true ++
      ([] ++ (tag false ++ ("c\nd".toList ++ (tag true ++ "\n".toList))))))) := by decide
  rw [htext]
  exact .string (by decide) (by decide) (.string (by decide) (by decide) (.gap (by decide)))

/-- The first line of the second string is lost. -/
theorem loses_abutting : (∀ line ∈ abutting, line.Unbroken) ∧
    Tagged (abutting.flatMap Text.line) ["a\nb".toList, "c\nd".toList] ∧
    extract false abutting = (false, "a\nbd".toList) ∧
    extract false abutting ≠ (false, ["a\nb".toList, "c\nd".toList].flatten) :=
  ⟨by decide, tagged_abutting, by decide, by decide⟩

/-- One string has its line to itself, one is closed at once on the line of the next one. -/
def spaced : List Text :=
  ["boot".toList, "x <rev-print>one</rev-print> y".toList, "<rev-print>two".toList, "three".toList,
    "</rev-print> <rev-print>four</rev-print>".toList]

theorem tagged_spaced : Tagged (spaced.flatMap Text.line)
    ["one".toList, "two\nthree\n".toList, "four".toList] := by
  have htext : spaced.flatMap Text.line = "boot\nx ".toList ++ (tag false ++ ("one".toList ++
      (tag true ++ (" y\n".toList ++ (tag false ++ ("two\nthree\n".toList ++ (tag true ++
      (" ".toList ++ (tag false ++ ("four".toList ++ (tag true ++ "\n".toList))))))))))) := by
    decide
  rw [htext]
  exact .string (by decide) (by decide) (.string (by decide) (by decide)
    (.string (by decide) (by decide) (.gap (by decide))))

theorem sound_spaced : Sound spaced := by
  have hlast : ClosesFirst "</rev-print> <rev-print>four</rev-print>".toList :=
    ⟨"four".toList, " ".toList ++ (tag false ++ ("four".toList ++ (tag true ++ []))), by decide,
      .string (by decide) (by decide) (.gap (by decide))⟩
  have hothers : ∀ line ∈ spaced, Reopens line →
      line = "</rev-print> <rev-print>four</rev-print>".toList := by decide
  exact fun line hline hreopens => hothers line hline hreopens ▸ hlast

/-- A log without two strings on a line is printed as it should be, and so is this one. -/
theorem prints_strings_spaced : (∀ line ∈ spaced, line.Unbroken) ∧
    Tagged (spaced.flatMap Text.line) ["one".toList, "two\nthree\n".toList, "four".toList] ∧
    Sound spaced ∧ extract false spaced = (false, "onetwo\nthree\nfour".toList) :=
  ⟨by decide, tagged_spaced, sound_spaced,
    (prints_strings (by decide) tagged_spaced).1 sound_spaced⟩

end Lockstep.Printed
