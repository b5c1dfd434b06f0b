import Mathlib.Data.List.Infix
import Mathlib.Data.List.TakeWhile
import Lockstep.Text.Blank

/-! Where a pattern is found.

A pattern is found where it first occurs (`includes_iff`, `splitOnce_eq_some_iff`). Characters that
it does not begin with are passed over (`splitOnce_append_of_not_mem`), so a pattern is found at once
behind a front without its first character (`splitOnce_of_not_mem`). Where the first character of a
pattern is not in the rest of it, no occurrence reaches past that character, so a front without the
pattern is passed over as well (`splitOnce_of_not_includes`); the same from the other end holds of
the last occurrence (`splitLast_of_not_includes`). Of the places where a pattern begins, these two
are the least and the greatest (`splitOnce_eq_places`, `splitLast_eq_places`). Blanks around a text
do not matter where it is trimmed, and a text is cut before the first character of a kind
(`upTo_eq_iff`). -/
namespace Lockstep.Text

variable {c : Char} {pattern front back text : Text}

theorem splitOnce_of_isPrefixOf (pattern back : Text) :
    splitOnce pattern (pattern ++ back) = some ([], back) := by
  cases pattern with
  | nil => cases back <;> simp [splitOnce_nil, splitOnce_cons]
  | cons c pattern => simp [splitOnce_cons]

theorem includes_iff : includes pattern text = true ↔ pattern <:+: text := by
  constructor
  · intro h
    obtain ⟨⟨front, back⟩, hsplit⟩ := Option.isSome_iff_exists.mp h
    exact ⟨front, back, (eq_of_splitOnce hsplit).symm⟩
  · intro h
    obtain ⟨front, back, rfl⟩ := h
    unfold includes
    induction front with
    | nil => rw [List.nil_append, splitOnce_of_isPrefixOf]; rfl
    | cons c front ih =>
      rw [List.cons_append, List.cons_append, splitOnce_cons]
      split
      · rfl
      · rw [Option.isSome_map]
        exact ih

theorem includes_of_infix_of_includes {part : Text} (h : includes pattern part = true)
    (hpart : part <:+: text) : includes pattern text = true :=
  includes_iff.mpr ((includes_iff.mp h).trans hpart)

theorem not_includes_of_infix {part : Text} (h : includes pattern text = false)
    (hpart : part <:+: text) : includes pattern part = false := by
  rw [Bool.eq_false_iff] at h ⊢
  exact fun hincludes => h (includes_of_infix_of_includes hincludes hpart)

theorem splitOnce_eq_none_iff : splitOnce pattern text = none ↔ includes pattern text = false := by
  rw [includes, Option.isSome_eq_false_iff, Option.isNone_iff_eq_none]

theorem not_infix_iff : ¬ pattern <:+: text ↔ includes pattern text = false := by
  rw [← includes_iff, Bool.not_eq_true]

/-- Characters that a pattern does not begin with are passed over. -/
theorem splitOnce_append_of_not_mem (h : c ∉ front) (text : Text) :
    splitOnce (c :: pattern) (front ++ text) =
      (splitOnce (c :: pattern) text).map fun (before, after) => (front ++ before, after) := by
  induction front with
  | nil => simp
  | cons d front ih =>
    obtain ⟨hd, hfront⟩ := List.ne_and_not_mem_of_not_mem_cons h
    have hhead : (c :: pattern).isPrefixOf (d :: (front ++ text)) = false := by
      simp [List.isPrefixOf, hd]
    rw [List.cons_append, splitOnce_cons, hhead, ih hfront, Option.map_map]
    rfl

/-- A pattern is found behind a front without its first character. -/
theorem splitOnce_of_not_mem (h : c ∉ front) (back : Text) :
    splitOnce (c :: pattern) (front ++ (c :: pattern ++ back)) = some (front, back) := by
  rw [splitOnce_append_of_not_mem h, splitOnce_of_isPrefixOf]
  simp

theorem includes_of_prefix (pattern back : Text) : includes pattern (pattern ++ back) = true :=
  includes_iff.mpr (List.prefix_append pattern back).isInfix

/-- No occurrence reaches past a character that a pattern has at its beginning only. -/
theorem not_isPrefixOf_of_not_includes (hpattern : c ∉ pattern) {d : Char}
    (h : includes (c :: pattern) (d :: front) = false) (text : Text) :
    (c :: pattern).isPrefixOf (d :: front ++ c :: text) = false := by
  rw [Bool.eq_false_iff]
  intro hprefix
  obtain ⟨back, hback⟩ := List.isPrefixOf_iff_prefix.mp hprefix
  rcases List.append_eq_append_iff.mp hback with ⟨rest, hrest, _⟩ | ⟨rest, hrest, htext⟩
  · -- The pattern ends before the character.
    have hin : includes (c :: pattern) (d :: front) = true := hrest ▸ includes_of_prefix _ rest
    rw [h] at hin
    cases hin
  · cases rest with
    | nil =>
      have hin : includes (c :: pattern) (d :: front) = true := by
        rw [List.append_nil] at hrest
        rw [hrest]
        exact includes_iff.mpr List.infix_rfl
      rw [h] at hin
      cases hin
    | cons e rest =>
      -- The pattern has the character inside.
      obtain ⟨rfl, _⟩ := List.cons.inj htext
      obtain ⟨_, htail⟩ := List.cons.inj hrest
      exact hpattern (htail ▸ List.mem_append_right front List.mem_cons_self)

/-- A front without the pattern is passed over, up to where the first character stands again. -/
theorem splitOnce_of_not_includes (hpattern : c ∉ pattern)
    (h : includes (c :: pattern) front = false) (text : Text) :
    splitOnce (c :: pattern) (front ++ c :: text) =
      (splitOnce (c :: pattern) (c :: text)).map
        fun (before, after) => (front ++ before, after) := by
  induction front with
  | nil => simp
  | cons d front ih =>
    have hfront : includes (c :: pattern) front = false :=
      not_includes_of_infix h (List.suffix_cons d front).isInfix
    have hhead := not_isPrefixOf_of_not_includes hpattern h text
    rw [List.cons_append] at hhead ⊢
    rw [splitOnce_cons, hhead, ih hfront, Option.map_map]
    rfl

/-- An item that is not in the front of a list stands behind that front. -/
theorem exists_of_append_eq {α : Type} {c : α} {front back line rest : List α} (hc : c ∉ front)
    (h : front ++ back = line ++ c :: rest) :
    ∃ line', line = front ++ line' ∧ back = line' ++ c :: rest := by
  rcases List.append_eq_append_iff.mp h with ⟨line', hline, hback⟩ | ⟨between, hfront, hrest⟩
  · exact ⟨line', hline, hback⟩
  · cases between with
    | nil => exact ⟨[], by simpa using hfront.symm, by simpa using hrest.symm⟩
    | cons d between =>
      obtain ⟨rfl, _⟩ := List.cons.inj hrest
      exact absurd (hfront ▸ List.mem_append_right line List.mem_cons_self) hc

/-- A pattern without a character is found on one side of it. -/
theorem includes_append_cons (hc : c ∉ pattern) (front back : Text) :
    includes pattern (front ++ c :: back) = (includes pattern front || includes pattern back) := by
  rw [Bool.eq_iff_iff, Bool.or_eq_true, includes_iff, includes_iff, includes_iff]
  constructor
  · rintro ⟨before, after, htext⟩
    rw [List.append_assoc] at htext
    rcases List.append_eq_append_iff.mp htext with ⟨rest, rfl, hrest⟩ | ⟨rest, _, hrest⟩
    · -- The pattern begins in the front, so it ends there.
      obtain ⟨more, rfl, _⟩ := exists_of_append_eq hc hrest
      exact .inl ⟨before, more, List.append_assoc ..⟩
    · cases rest with
      | nil =>
        have hhead : pattern ++ after = [] ++ c :: back := hrest.symm
        obtain ⟨more, hnil, _⟩ := exists_of_append_eq hc hhead
        rw [(List.append_eq_nil_iff.mp hnil.symm).1]
        exact .inl List.nil_infix
      | cons d rest =>
        obtain ⟨_, rfl⟩ := List.cons.inj hrest
        exact .inr ⟨rest, after, List.append_assoc ..⟩
  · rintro (h | h)
    · exact h.trans (List.prefix_append front (c :: back)).isInfix
    · exact h.trans ((List.suffix_cons c back).trans (List.suffix_append front _)).isInfix

/-! ### The first occurrence -/

/-- A pattern stands in a text between two parts of it, and nowhere earlier. -/
structure First (pattern text front back : Text) : Prop where
  split : text = front ++ pattern ++ back
  first : ∀ other rest, text = other ++ pattern ++ rest → front.length ≤ other.length

/-- What follows the first occurrence of a pattern. -/
def Follows (pattern text rest : Text) : Prop := ∃ front, First pattern text front rest

/-- What stands before the first stop, or all of a text that has none. -/
def Token (stop : Char) (text token : Text) : Prop :=
  stop ∉ token ∧ (text = token ∨ token ++ [stop] <+: text)

theorem length_le_of_splitOnce {other rest : Text} (h : splitOnce pattern text = some (front, back))
    (htext : text = other ++ pattern ++ rest) : front.length ≤ other.length := by
  induction text generalizing front other with
  | nil =>
    obtain ⟨hfront, _⟩ := List.append_eq_nil_iff.mp (eq_of_splitOnce h).symm
    rw [(List.append_eq_nil_iff.mp hfront).1]
    exact Nat.zero_le _
  | cons c text ih =>
    rw [splitOnce_cons] at h
    split at h
    · obtain ⟨rfl, _⟩ := Prod.mk.inj (Option.some.inj h)
      exact Nat.zero_le _
    · next hprefix =>
      obtain ⟨⟨before, after⟩, hsplit, heq⟩ := Option.map_eq_some_iff.mp h
      obtain ⟨rfl, rfl⟩ := Prod.mk.inj heq
      cases other with
      | nil => exact absurd (List.isPrefixOf_iff_prefix.mpr ⟨rest, htext.symm⟩) hprefix
      | cons d other =>
        obtain ⟨_, htail⟩ := List.cons.inj htext
        exact Nat.succ_le_succ (ih hsplit htail)

theorem splitOnce_eq_some_iff :
    splitOnce pattern text = some (front, back) ↔ First pattern text front back := by
  constructor
  · intro h
    exact ⟨eq_of_splitOnce h, fun other rest htext => length_le_of_splitOnce h htext⟩
  · intro ⟨hsplit, hfirst⟩
    have hin : includes pattern text = true := includes_iff.mpr ⟨front, back, hsplit.symm⟩
    obtain ⟨⟨before, after⟩, hfound⟩ := Option.isSome_iff_exists.mp hin
    have hfound' := eq_of_splitOnce hfound
    -- Neither of the two occurrences is before the other.
    have hlength : before.length = front.length :=
      Nat.le_antisymm (length_le_of_splitOnce hfound hsplit) (hfirst before after hfound')
    rw [hsplit, List.append_assoc, List.append_assoc] at hfound'
    obtain ⟨rfl, hback⟩ := List.append_inj hfound' hlength.symm
    rw [hfound, List.append_cancel_left hback]

theorem after?_eq_some_iff {rest : Text} :
    after? pattern text = some rest ↔ Follows pattern text rest := by
  rw [after?, Option.map_eq_some_iff]
  constructor
  · rintro ⟨⟨front, back⟩, hsplit, rfl⟩
    exact ⟨front, splitOnce_eq_some_iff.mp hsplit⟩
  · rintro ⟨front, hfirst⟩
    exact ⟨(front, rest), splitOnce_eq_some_iff.mpr hfirst, rfl⟩

theorem before?_eq_some_iff :
    before? pattern text = some front ↔ ∃ back, First pattern text front back := by
  rw [before?, Option.map_eq_some_iff]
  constructor
  · rintro ⟨⟨before, back⟩, hsplit, rfl⟩
    exact ⟨back, splitOnce_eq_some_iff.mp hsplit⟩
  · rintro ⟨back, hfirst⟩
    exact ⟨(front, back), splitOnce_eq_some_iff.mpr hfirst, rfl⟩

/-- A single character is found first where it is not in the front. -/
theorem first_singleton_iff :
    First [c] text front back ↔ text = front ++ c :: back ∧ c ∉ front := by
  constructor
  · intro ⟨hsplit, hfirst⟩
    rw [List.append_assoc, List.singleton_append] at hsplit
    refine ⟨hsplit, fun hc => ?_⟩
    obtain ⟨other, rest, rfl⟩ := List.append_of_mem hc
    have hle := hfirst other (rest ++ c :: back) (by simp [hsplit])
    simp only [List.length_append, List.length_cons] at hle
    omega
  · rintro ⟨rfl, hc⟩
    exact splitOnce_eq_some_iff.mp (splitOnce_of_not_mem hc back)

/-! ### The last occurrence -/

theorem includes_reverse (pattern text : Text) :
    includes pattern.reverse text.reverse = includes pattern text := by
  rw [Bool.eq_iff_iff, includes_iff, includes_iff, List.reverse_infix]

theorem splitLast_eq_none_iff : splitLast pattern text = none ↔ includes pattern text = false := by
  rw [splitLast, Option.map_eq_none_iff, splitOnce_eq_none_iff, includes_reverse]

/-- Where the last character of a pattern is not in the rest of it, a pattern is found before a back
that does not have it. -/
theorem splitLast_of_not_includes (hpattern : c ∉ pattern)
    (h : includes (pattern ++ [c]) back = false) (front : Text) :
    splitLast (pattern ++ [c]) (front ++ (pattern ++ [c] ++ back)) = some (front, back) := by
  have hback : includes (c :: pattern.reverse) back.reverse = false := by
    rw [← List.reverse_concat, includes_reverse, h]
  have htext : (front ++ (pattern ++ [c] ++ back)).reverse =
      back.reverse ++ c :: (pattern.reverse ++ front.reverse) := by simp
  rw [splitLast, htext, List.reverse_concat,
    splitOnce_of_not_includes (by simpa using hpattern) hback, ← List.cons_append,
    splitOnce_of_isPrefixOf]
  simp

/-- A pattern stands in a text between two parts of it, and nowhere later. -/
structure Last (pattern text front back : Text) : Prop where
  split : text = front ++ pattern ++ back
  last : ∀ other rest, text = other ++ pattern ++ rest → back.length ≤ rest.length

theorem first_reverse_iff :
    First pattern.reverse text.reverse back.reverse front.reverse ↔
      Last pattern text front back := by
  have hsplit (other rest : Text) :
      text.reverse = rest.reverse ++ pattern.reverse ++ other.reverse ↔
        text = other ++ pattern ++ rest := by
    rw [← List.reverse_append, ← List.reverse_append, List.reverse_inj, List.append_assoc]
  constructor
  · intro ⟨h, hfirst⟩
    refine ⟨(hsplit front back).mp h, fun other rest htext => ?_⟩
    simpa using hfirst rest.reverse other.reverse ((hsplit other rest).mpr htext)
  · intro ⟨h, hlast⟩
    refine ⟨(hsplit front back).mpr h, fun rest other htext => ?_⟩
    have htext' := (hsplit other.reverse rest.reverse).mp (by simpa using htext)
    simpa using hlast other.reverse rest.reverse htext'

theorem splitLast_eq_some_iff :
    splitLast pattern text = some (front, back) ↔ Last pattern text front back := by
  rw [← first_reverse_iff, ← splitOnce_eq_some_iff, splitLast, Option.map_eq_some_iff]
  constructor
  · rintro ⟨⟨later, earlier⟩, hsplit, heq⟩
    obtain ⟨rfl, rfl⟩ := Prod.mk.inj heq
    rw [hsplit, List.reverse_reverse, List.reverse_reverse]
  · intro hsplit
    exact ⟨(back.reverse, front.reverse), hsplit, by simp⟩

/-! ### Places -/

/-- Where a pattern begins in a text, from left to right. -/
def places (pattern text : Text) : List Nat :=
  (List.range (text.length + 1)).filter fun n => pattern.isPrefixOf (text.drop n)

variable {n : Nat}

theorem mem_places : n ∈ places pattern text ↔ n ≤ text.length ∧ pattern <+: text.drop n := by
  rw [places, List.mem_filter, List.mem_range, List.isPrefixOf_iff_prefix, Nat.lt_succ_iff]

theorem mem_places_iff_split :
    n ∈ places pattern text ↔ ∃ front back, text = front ++ pattern ++ back ∧ front.length = n := by
  rw [mem_places]
  constructor
  · rintro ⟨hn, back, hback⟩
    refine ⟨text.take n, back, ?_, List.length_take_of_le hn⟩
    rw [List.append_assoc, hback, List.take_append_drop]
  · rintro ⟨front, back, rfl, rfl⟩
    refine ⟨by simp, back, ?_⟩
    rw [List.append_assoc, List.drop_left]

theorem mem_places_drop {start : Nat} (h : start ≤ text.length) :
    n ∈ places pattern (text.drop start) ↔ start + n ∈ places pattern text := by
  rw [mem_places, mem_places, List.drop_drop, List.length_drop, Nat.le_sub_iff_add_le' h]

theorem places_eq_nil_iff : places pattern text = [] ↔ includes pattern text = false := by
  rw [← not_infix_iff, List.eq_nil_iff_forall_not_mem]
  constructor
  · rintro h ⟨front, back, htext⟩
    exact h front.length (mem_places_iff_split.mpr ⟨front, back, htext.symm, rfl⟩)
  · intro h n hn
    obtain ⟨front, back, htext, _⟩ := mem_places_iff_split.mp hn
    exact h ⟨front, back, htext.symm⟩

/-- The first occurrence is at the least place. -/
theorem splitOnce_eq_places (pattern text : Text) :
    splitOnce pattern text = (places pattern text).min?.map fun n =>
      (text.take n, text.drop (n + pattern.length)) := by
  cases hplace : (places pattern text).min? with
  | none => exact splitOnce_eq_none_iff.mpr (places_eq_nil_iff.mp (List.min?_eq_none_iff.mp hplace))
  | some n =>
    obtain ⟨hmem, hleast⟩ := List.min?_eq_some_iff.mp hplace
    obtain ⟨front, back, rfl, rfl⟩ := mem_places_iff_split.mp hmem
    have hfirst : First pattern (front ++ pattern ++ back) front back :=
      ⟨rfl, fun other rest h => hleast _ (mem_places_iff_split.mpr ⟨other, rest, h, rfl⟩)⟩
    rw [splitOnce_eq_some_iff.mpr hfirst]
    simp

/-- The last occurrence is at the greatest place. -/
theorem splitLast_eq_places (pattern text : Text) :
    splitLast pattern text = (places pattern text).max?.map fun n =>
      (text.take n, text.drop (n + pattern.length)) := by
  cases hplace : (places pattern text).max? with
  | none => exact splitLast_eq_none_iff.mpr (places_eq_nil_iff.mp (List.max?_eq_none_iff.mp hplace))
  | some n =>
    obtain ⟨hmem, hgreatest⟩ := List.max?_eq_some_iff.mp hplace
    obtain ⟨front, back, rfl, rfl⟩ := mem_places_iff_split.mp hmem
    have hlast : Last pattern (front ++ pattern ++ back) front back := by
      refine ⟨rfl, fun other rest h => ?_⟩
      have hle := hgreatest _ (mem_places_iff_split.mpr ⟨other, rest, h, rfl⟩)
      have hlength := congrArg List.length h
      simp only [List.length_append] at hlength
      omega
    rw [splitLast_eq_some_iff.mpr hlast]
    simp

/-! ### Blanks -/

theorem trim_cons_of_isBlank (h : isBlank c = true) (text : Text) :
    trim (c :: text) = trim text := by
  rw [trim, trim, trimLeft, List.dropWhile_cons_of_pos h, trimLeft]

theorem trimRight_concat_of_isBlank (h : isBlank c = true) (text : Text) :
    trimRight (text ++ [c]) = trimRight text := by
  rw [trimRight, trimRight, List.reverse_concat, List.dropWhile_cons_of_pos h]

theorem trim_concat_of_isBlank (h : isBlank c = true) (text : Text) :
    trim (text ++ [c]) = trim text := by
  induction text with
  | nil => rw [List.nil_append, trim_cons_of_isBlank h]
  | cons d text ih =>
    rw [List.cons_append]
    by_cases hd : isBlank d = true
    · rw [trim_cons_of_isBlank hd, trim_cons_of_isBlank hd, ih]
    · rw [trim, trim, trimLeft, trimLeft, List.dropWhile_cons_of_neg hd,
        List.dropWhile_cons_of_neg hd, ← List.cons_append, trimRight_concat_of_isBlank h]

/-- Blanks around a text are taken away with its own. -/
theorem trim_surrounded (hfront : ∀ c ∈ front, isBlank c = true) (text : Text)
    (hback : ∀ c ∈ back, isBlank c = true) : trim (front ++ text ++ back) = trim text := by
  induction back using List.reverseRecOn with
  | nil =>
    rw [List.append_nil, trim, trimLeft, List.dropWhile_append_of_pos hfront, trim, trimLeft]
  | append_singleton back c ih =>
    obtain ⟨hback, hc⟩ := List.forall_mem_append.mp hback
    rw [← List.append_assoc, trim_concat_of_isBlank (hc c List.mem_cons_self), ih hback]

/-- Blanks are taken away up to a character that is none. -/
theorem trimLeft_append_of_not_isBlank (h : isBlank c = false) (front back : Text) :
    trimLeft (front ++ c :: back) = trimLeft front ++ c :: back := by
  have hc : ¬ isBlank c = true := by
    rw [h]
    decide
  rw [trimLeft, List.dropWhile_append, List.dropWhile_cons_of_neg hc, trimLeft]
  split
  · next hnil => rw [List.isEmpty_iff.mp hnil, List.nil_append]
  · rfl

theorem trimRight_append_of_not_isBlank (h : isBlank c = false) (front back : Text) :
    trimRight (front ++ c :: back) = front ++ c :: trimRight back := by
  have hleft := trimLeft_append_of_not_isBlank h back.reverse front.reverse
  rw [trimLeft, trimLeft] at hleft
  rw [trimRight, List.reverse_append, List.reverse_cons, List.append_assoc, List.singleton_append,
    hleft, List.reverse_append, List.reverse_cons, List.reverse_reverse, List.append_assoc,
    List.singleton_append, trimRight]

theorem mem_trim (h : isBlank c = false) (hc : c ∈ text) : c ∈ trim text := by
  obtain ⟨front, back, rfl⟩ := List.append_of_mem hc
  rw [trim, trimLeft_append_of_not_isBlank h, trimRight_append_of_not_isBlank h]
  exact List.mem_append_right _ List.mem_cons_self

theorem trimLeft_of_forall_not_isBlank (h : ∀ c ∈ text, isBlank c = false) :
    trimLeft text = text := by
  cases text with
  | nil => rfl
  | cons c text => exact List.dropWhile_cons_of_neg (by simp [h c List.mem_cons_self])

theorem trim_of_forall_not_isBlank (h : ∀ c ∈ text, isBlank c = false) : trim text = text := by
  have hback : trimLeft text.reverse = text.reverse :=
    trimLeft_of_forall_not_isBlank (by simpa using h)
  rw [trimLeft] at hback
  rw [trim, trimLeft_of_forall_not_isBlank h, trimRight, hback, List.reverse_reverse]

theorem exists_trim (text : Text) : ∃ front back, text = front ++ text.trim ++ back ∧
    (∀ c ∈ front, isBlank c = true) ∧ ∀ c ∈ back, isBlank c = true := by
  have hleft := List.takeWhile_append_dropWhile (p := isBlank) (l := text)
  have hright := List.takeWhile_append_dropWhile (p := isBlank) (l := (trimLeft text).reverse)
  refine ⟨text.takeWhile isBlank, ((trimLeft text).reverse.takeWhile isBlank).reverse, ?_,
    fun c hc => List.mem_takeWhile_imp hc,
    fun c hc => List.mem_takeWhile_imp (List.mem_reverse.mp hc)⟩
  rw [List.append_assoc, trim, trimRight, ← List.reverse_append, hright, List.reverse_reverse]
  exact hleft.symm

/-- What stands between characters that are no blanks is not taken away. -/
theorem mem_trim_of_inner {front back : Text} (hfront : ∃ d ∈ front, isBlank d = false) (c : Char)
    (hback : ∃ e ∈ back, isBlank e = false) : c ∈ trim (front ++ c :: back) := by
  obtain ⟨d, hd, hdblank⟩ := hfront
  obtain ⟨e, he, heblank⟩ := hback
  obtain ⟨before, front, rfl⟩ := List.append_of_mem hd
  obtain ⟨back, after, rfl⟩ := List.append_of_mem he
  have htext : before ++ d :: front ++ c :: (back ++ e :: after) =
      before ++ d :: (front ++ c :: back ++ e :: after) := by simp
  rw [htext, trim, trimLeft_append_of_not_isBlank hdblank, ← List.cons_append, ← List.append_assoc,
    trimRight_append_of_not_isBlank heblank]
  simp

/-! ### Up to a character -/

theorem upTo_append_of_not_mem (h : c ∉ front) (back : Text) :
    upTo (front ++ c :: back) c = front := by
  rw [upTo, List.takeWhile_append_of_pos (fun d hd => by simpa using ne_of_mem_of_not_mem hd h),
    List.takeWhile_cons_of_neg (by simp), List.append_nil]

theorem upTo_of_not_mem (h : c ∉ text) : upTo text c = text :=
  List.takeWhile_eq_self_iff.mpr fun d hd => by simpa using ne_of_mem_of_not_mem hd h

theorem upTo_eq_iff {token : Text} : upTo text c = token ↔ Token c text token := by
  constructor
  · rintro rfl
    refine ⟨fun hc => by simpa using List.mem_takeWhile_imp hc, ?_⟩
    have hsplit := List.takeWhile_append_dropWhile (p := (· != c)) (l := text)
    cases hrest : text.dropWhile (· != c) with
    | nil =>
      rw [hrest, List.append_nil] at hsplit
      exact .inl hsplit.symm
    | cons d rest =>
      have hstop := List.head?_dropWhile_not (· != c) text
      rw [hrest] at hstop hsplit
      obtain rfl : d = c := by simpa using hstop
      refine .inr ⟨rest, ?_⟩
      rw [List.append_assoc, List.singleton_append]
      exact hsplit
  · rintro ⟨hstop, rfl | ⟨rest, rfl⟩⟩
    · exact upTo_of_not_mem hstop
    · rw [List.append_assoc, List.singleton_append]
      exact upTo_append_of_not_mem hstop rest

end Lockstep.Text
