import Lockstep.Printed
import Lockstep.Proofs.Text.Searching
import Lockstep.Proofs.Text.Unbroken

/-! Texts with tags in them.

The two tags take turns: where no string is open the opening tag comes next, and the closing tag
where one is (`tag`). A text is read from tag to tag (`Reads`): what stands while a string is open
is the string's, and all else is not. So a whole log with its strings (`Tagged`) is read to the end
with no string open (`Tagged.reads`), and what is read so has strings (`Reads.tagged_of_reads`). It
is read line by line, because no tag has a line feed in it (`Reads.split`). A tag begins with a
character that it does not have again. Therefore the first tag of a text is found where it was
written (`splitOnce_tag`), tags do not overlap, and two texts that are put together have at most one
tag more than they had (`tagsIn_append_le`). -/
namespace Lockstep.Printed

/-- The tag that comes next. -/
def tag (isOpen : Bool) : Text := if isOpen then closeTag else openTag

theorem exists_tag (isOpen : Bool) : ∃ rest, tag isOpen = '<' :: rest ∧ '<' ∉ rest := by
  cases isOpen with
  | false => exact ⟨"rev-print>".toList, by decide, by decide⟩
  | true => exact ⟨"/rev-print>".toList, by decide, by decide⟩

theorem isPrefixOf_tag (isOpen : Bool) (rest : Text) :
    (tag isOpen).isPrefixOf (tag (!isOpen) ++ rest) = false := by
  cases isOpen <;> rfl

theorem not_mem_tag {c : Char} (hopen : c ∉ openTag) (hclose : c ∉ closeTag) (isOpen : Bool) :
    c ∉ tag isOpen := by
  cases isOpen with
  | false => exact hopen
  | true => exact hclose

/-- Neither tag occurs. -/
def TagFree (text : Text) : Prop := ∀ isOpen, Text.includes (tag isOpen) text = false

instance (text : Text) : Decidable (TagFree text) :=
  inferInstanceAs (Decidable (∀ isOpen, Text.includes (tag isOpen) text = false))

theorem TagFree.of_infix {part text : Text} (h : TagFree text) (hpart : part <:+: text) :
    TagFree part := fun isOpen => Text.not_includes_of_infix (h isOpen) hpart

theorem tagFree_nil : TagFree [] := fun isOpen => by cases isOpen <;> rfl

/-! ### The first tag -/

section
variable {text : Text}

theorem splitOnce_tag (h : TagFree text) (isOpen : Bool) (rest : Text) :
    Text.splitOnce (tag isOpen) (text ++ (tag isOpen ++ rest)) = some (text, rest) := by
  obtain ⟨tail, htag, htail⟩ := exists_tag isOpen
  have hfree := h isOpen
  rw [htag] at hfree ⊢
  rw [List.cons_append, Text.splitOnce_of_not_includes htail hfree, ← List.cons_append,
    Text.splitOnce_of_isPrefixOf]
  simp

/-- A tag is passed over in the search for the other one. -/
theorem splitOnce_other (h : TagFree text) (isOpen : Bool) (rest : Text) :
    Text.splitOnce (tag isOpen) (text ++ (tag (!isOpen) ++ rest)) =
      (Text.splitOnce (tag isOpen) rest).map
        fun (before, after) => (text ++ (tag (!isOpen) ++ before), after) := by
  have hhead := isPrefixOf_tag isOpen rest
  obtain ⟨tail, htag, htail⟩ := exists_tag isOpen
  obtain ⟨other, hother, hrest⟩ := exists_tag (!isOpen)
  have hfree := h isOpen
  rw [htag, hother, List.cons_append] at hhead
  rw [htag] at hfree
  rw [htag, hother, List.cons_append, Text.splitOnce_of_not_includes htail hfree,
    Text.splitOnce_cons, hhead, Text.splitOnce_append_of_not_mem hrest, if_neg (by decide),
    Option.map_map, Option.map_map]
  rfl

theorem includes_tag (text : Text) (isOpen : Bool) (rest : Text) :
    Text.includes (tag isOpen) (text ++ (tag isOpen ++ rest)) = true :=
  Text.includes_iff.mpr ⟨text, rest, List.append_assoc ..⟩

theorem includes_other (h : TagFree text) (isOpen : Bool) (rest : Text) :
    Text.includes (tag isOpen) (text ++ (tag (!isOpen) ++ rest)) =
      Text.includes (tag isOpen) rest := by
  rw [Text.includes, Text.includes, splitOnce_other h, Option.isSome_map]

theorem after?_tag (h : TagFree text) (isOpen : Bool) (rest : Text) :
    Text.after? (tag isOpen) (text ++ (tag isOpen ++ rest)) = some rest := by
  rw [Text.after?, splitOnce_tag h]
  rfl

theorem after?_other (h : TagFree text) (isOpen : Bool) (rest : Text) :
    Text.after? (tag isOpen) (text ++ (tag (!isOpen) ++ rest)) = Text.after? (tag isOpen) rest := by
  rw [Text.after?, Text.after?, splitOnce_other h, Option.map_map]
  rfl

end

/-! ### Reading from tag to tag -/

/-- What a stretch without tags gives to the string that is open. -/
def given (isOpen : Bool) (text : Text) : Text := if isOpen then text else []

theorem given_append (isOpen : Bool) (front back : Text) :
    given isOpen (front ++ back) = given isOpen front ++ given isOpen back := by
  cases isOpen <;> rfl

/-- Whether a string is open before a text, the text, whether one is open after it, and what strings
have of the text. -/
inductive Reads : Bool → Text → Bool → Text → Prop where
  | plain {isOpen : Bool} {text : Text} (h : TagFree text) :
      Reads isOpen text isOpen (given isOpen text)
  | tag {isOpen last : Bool} {text rest told : Text} (htext : TagFree text)
      (hrest : Reads (!isOpen) rest last told) :
      Reads isOpen (text ++ (Printed.tag isOpen ++ rest)) last (given isOpen text ++ told)

/-- The strings of a text, and the gaps around them. -/
inductive Tagged : Text → List Text → Prop where
  | gap {text : Text} (h : TagFree text) : Tagged text []
  | string {gap text rest : Text} {strings : List Text} (hgap : TagFree gap) (htext : TagFree text)
      (hrest : Tagged rest strings) :
      Tagged (gap ++ (tag false ++ (text ++ (tag true ++ rest)))) (text :: strings)

namespace Reads

variable {isOpen last last' : Bool} {text rest told told' : Text}

theorem of_tagFree (h : Reads isOpen text last told) (htext : TagFree text) :
    last = isOpen ∧ told = given isOpen text := by
  cases h with
  | plain _ => exact ⟨rfl, rfl⟩
  | @tag _ _ front rest _ _ _ =>
    have hin := includes_tag front isOpen rest
    rw [htext isOpen] at hin
    cases hin

theorem of_tag (h : Reads isOpen (text ++ (Printed.tag isOpen ++ rest)) last told)
    (htext : TagFree text) :
    ∃ told', Reads (!isOpen) rest last told' ∧ told = given isOpen text ++ told' := by
  generalize hwhole : text ++ (Printed.tag isOpen ++ rest) = whole at h
  cases h with
  | plain hfree =>
    have hin := includes_tag text isOpen rest
    rw [hwhole, hfree isOpen] at hin
    cases hin
  | @tag _ _ front rest' told' hfront hrest =>
    have hsplit := splitOnce_tag htext isOpen rest
    rw [hwhole, splitOnce_tag hfront] at hsplit
    obtain ⟨rfl, rfl⟩ := Prod.mk.inj (Option.some.inj hsplit)
    exact ⟨told', hrest, rfl⟩

/-- A text is read in one way. -/
theorem unique (h : Reads isOpen text last told) (h' : Reads isOpen text last' told') :
    last' = last ∧ told' = told := by
  induction h generalizing told' with
  | plain hfree => exact h'.of_tagFree hfree
  | tag hfront _ ih =>
    obtain ⟨rest, hrest, rfl⟩ := h'.of_tag hfront
    obtain ⟨rfl, rfl⟩ := ih hrest
    exact ⟨rfl, rfl⟩

/-- A text is read up to a line feed, and from there on. -/
theorem split {line rest : Text} (h : Reads isOpen (line ++ '\n' :: rest) last told) :
    ∃ middle front back, Reads isOpen line middle front ∧ Reads middle rest last back ∧
      told = front ++ (given middle ['\n'] ++ back) := by
  generalize hwhole : line ++ '\n' :: rest = whole at h
  induction h generalizing line with
  | @plain isOpen text hfree =>
    subst hwhole
    refine ⟨isOpen, _, _, .plain (hfree.of_infix ⟨[], '\n' :: rest, rfl⟩),
      .plain (hfree.of_infix ⟨line ++ ['\n'], [], by simp⟩), ?_⟩
    rw [given_append, ← given_append isOpen ['\n'], List.singleton_append]
  | @tag isOpen last text rest' told htext hrest ih =>
    have hfeed : '\n' ∉ Printed.tag isOpen := not_mem_tag (by decide) (by decide) isOpen
    rcases List.append_eq_append_iff.mp hwhole with ⟨between, htext', hbetween⟩ |
      ⟨between, hline, hbetween⟩
    · -- The line feed stands before the tag.
      cases between with
      | nil =>
        obtain ⟨tail, htag, _⟩ := exists_tag isOpen
        rw [htag] at hbetween
        cases hbetween
      | cons c between =>
        obtain ⟨rfl, hrest'⟩ := List.cons.inj hbetween
        subst htext' hrest'
        refine ⟨isOpen, _, _, .plain (htext.of_infix ⟨[], '\n' :: between, rfl⟩),
          .tag (htext.of_infix ⟨line ++ ['\n'], [], by simp⟩) hrest, ?_⟩
        rw [given_append, ← List.singleton_append (x := '\n'), given_append]
        simp
    · -- No tag has a line feed in it, so it stands behind the tag.
      obtain ⟨line', rfl, rfl⟩ := Text.exists_of_append_eq hfeed hbetween
      subst hline
      obtain ⟨middle, front, back, hfront, hback, rfl⟩ := ih rfl
      exact ⟨middle, given isOpen text ++ front, back, .tag htext hfront, hback,
        (List.append_assoc ..).symm⟩

/-- With no string open, nothing is told up to an opening tag. -/
theorem cases_closed (h : Reads false text last told) :
    (TagFree text ∧ last = false ∧ told = []) ∨
      ∃ gap rest, text = gap ++ (Printed.tag false ++ rest) ∧ TagFree gap ∧
        Reads true rest last told := by
  cases h with
  | plain hfree => exact .inl ⟨hfree, rfl, rfl⟩
  | tag hgap hrest => exact .inr ⟨_, _, rfl, hgap, hrest⟩

/-- A string that is open has all up to a closing tag. -/
theorem cases_open (h : Reads true text last told) :
    (TagFree text ∧ last = true ∧ told = text) ∨
      ∃ front rest told', text = front ++ (Printed.tag true ++ rest) ∧ TagFree front ∧
        Reads false rest last told' ∧ told = front ++ told' := by
  cases h with
  | plain hfree => exact .inl ⟨hfree, rfl, rfl⟩
  | tag hfront hrest => exact .inr ⟨_, _, _, rfl, hfront, hrest, rfl⟩

theorem tagged_of_reads (h : Reads isOpen text last told) (hlast : last = false) :
    match isOpen with
    | false => ∃ strings, Tagged text strings ∧ told = strings.flatten
    | true => ∃ front rest strings, TagFree front ∧ Tagged rest strings ∧
        text = front ++ (Printed.tag true ++ rest) ∧ told = front ++ strings.flatten := by
  induction h with
  | plain hfree =>
    subst hlast
    exact ⟨[], .gap hfree, rfl⟩
  | @tag isOpen last text rest told htext hrest ih =>
    cases isOpen with
    | false =>
      obtain ⟨front, rest, strings, hfront, hstrings, rfl, rfl⟩ := ih hlast
      exact ⟨front :: strings, .string htext hfront hstrings, rfl⟩
    | true =>
      obtain ⟨strings, hstrings, rfl⟩ := ih hlast
      exact ⟨text, rest, strings, htext, hstrings, rfl, rfl⟩

end Reads

theorem Tagged.gap_of_nil {text : Text} (h : Tagged text []) : TagFree text := by
  cases h with
  | gap hfree => exact hfree

theorem Tagged.exists_of_cons {text string : Text} {strings : List Text}
    (h : Tagged text (string :: strings)) :
    ∃ gap rest, text = gap ++ (tag false ++ (string ++ (tag true ++ rest))) ∧ TagFree gap ∧
      TagFree string ∧ Tagged rest strings := by
  cases h with
  | string hgap htext hrest => exact ⟨_, _, rfl, hgap, htext, hrest⟩

theorem Tagged.reads {text : Text} {strings : List Text} (h : Tagged text strings) :
    Reads false text false strings.flatten := by
  induction h with
  | gap hfree => exact .plain hfree
  | string hgap htext _ ih => exact .tag hgap (.tag htext ih)

/-! ### Counting tags -/

/-- A tag stands at the beginning. -/
def startsTag (text : Text) : Bool := openTag.isPrefixOf text || closeTag.isPrefixOf text

/-- How many tags there are. -/
def tagsIn (text : Text) : Nat := text.tails.countP startsTag

theorem startsTag_iff {text : Text} :
    startsTag text = true ↔ ∃ isOpen, tag isOpen <+: text := by
  rw [startsTag, Bool.or_eq_true, List.isPrefixOf_iff_prefix, List.isPrefixOf_iff_prefix,
    Bool.exists_bool]
  rfl

theorem tagsIn_cons (c : Char) (text : Text) :
    tagsIn (c :: text) = tagsIn text + if startsTag (c :: text) then 1 else 0 := by
  rw [tagsIn, List.tails_cons, List.countP_cons, tagsIn]

theorem tagsIn_eq_zero {text : Text} (h : TagFree text) : tagsIn text = 0 := by
  refine List.countP_eq_zero.mpr fun rest hrest hstarts => ?_
  obtain ⟨isOpen, htag⟩ := startsTag_iff.mp hstarts
  have hin : Text.includes (tag isOpen) text = true :=
    Text.includes_iff.mpr (htag.isInfix.trans ((List.mem_tails _ _).mp hrest).isInfix)
  rw [h isOpen] at hin
  cases hin

theorem le_tagsIn_append (front back : Text) :
    tagsIn front + tagsIn back ≤ tagsIn (front ++ back) := by
  induction front with
  | nil =>
    rw [List.nil_append, tagsIn_eq_zero tagFree_nil, Nat.zero_add]
  | cons c front ih =>
    have hstarts : startsTag (c :: front) = true → startsTag (c :: (front ++ back)) = true := by
      intro h
      obtain ⟨isOpen, htag⟩ := startsTag_iff.mp h
      exact startsTag_iff.mpr ⟨isOpen, htag.trans (List.prefix_append (c :: front) back)⟩
    rw [List.cons_append, tagsIn_cons, tagsIn_cons]
    by_cases hfits : startsTag (c :: front) = true
    · rw [if_pos hfits, if_pos (hstarts hfits)]
      omega
    · rw [if_neg hfits]
      omega

theorem tagsIn_append_of_not_mem {front : Text} (h : '<' ∉ front) (back : Text) :
    tagsIn (front ++ back) = tagsIn back := by
  induction front with
  | nil => rfl
  | cons c front ih =>
    obtain ⟨hc, hfront⟩ := List.ne_and_not_mem_of_not_mem_cons h
    have hstarts : startsTag (c :: (front ++ back)) = false := by
      rw [Bool.eq_false_iff]
      intro hstarts
      obtain ⟨isOpen, htag⟩ := startsTag_iff.mp hstarts
      obtain ⟨tail, hhead, _⟩ := exists_tag isOpen
      rw [hhead] at htag
      exact hc (List.cons_prefix_cons.mp htag).1
    rw [List.cons_append, tagsIn_cons, hstarts, ih hfront]
    rfl

/-- Where two texts meet there is at most one tag that neither has. -/
theorem tagsIn_append_le (front back : Text) :
    tagsIn (front ++ back) ≤ tagsIn front + tagsIn back + 1 := by
  induction front with
  | nil =>
    rw [List.nil_append]
    omega
  | cons c front ih =>
    rw [List.cons_append, tagsIn_cons, tagsIn_cons]
    by_cases hstarts : startsTag (c :: (front ++ back)) = true
    · by_cases hfits : startsTag (c :: front) = true
      · rw [if_pos hstarts, if_pos hfits]
        omega
      · -- The tag reaches past the front, so no other one begins in the front.
        have hfront : '<' ∉ front := by
          obtain ⟨isOpen, htag⟩ := startsTag_iff.mp hstarts
          obtain ⟨tail, hhead, htail⟩ := exists_tag isOpen
          rw [hhead] at htag
          obtain ⟨rfl, hprefix⟩ := List.cons_prefix_cons.mp htag
          rcases List.prefix_or_prefix_of_prefix hprefix (List.prefix_append front back) with
            hinside | hpast
          · exact absurd (startsTag_iff.mpr ⟨isOpen, hhead ▸ (List.prefix_cons_inj _).mpr hinside⟩)
              hfits
          · exact fun hmem => htail (hpast.subset hmem)
        rw [tagsIn_append_of_not_mem hfront, if_pos hstarts]
        omega
    · rw [if_neg hstarts]
      omega

end Lockstep.Printed
