/-! Texts as lists of characters, and where a pattern stands in them.

Lines, tokens, labels and reports are all texts. A text is searched for a pattern in
two ways only: the first occurrence divides it (`splitOnce`), or the last one does
(`splitLast`). Either way nothing is lost: the part before, the pattern and the part
after are the text again (`eq_of_splitOnce`, `eq_of_splitLast`). -/
namespace Lockstep

/-- A line, a token or a whole report, one Unicode scalar value after the other. -/
abbrev Text := List Char

namespace Text

/-- A text's hash is that of its code points. -/
instance : Hashable Text := ⟨fun text => hash (text.map Char.val)⟩

/-- The first occurrence of a pattern in the text to come, after a front that was passed
and is kept last character first. -/
def splitFrom (pattern front : Text) : Text → Option (Text × Text)
  | [] => if pattern.isEmpty then some (front.reverse, []) else none
  | c :: rest =>
    if pattern.isPrefixOf (c :: rest) then some (front.reverse, (c :: rest).drop pattern.length)
    else splitFrom pattern (c :: front) rest

/-- The text before the first occurrence of a pattern, and the text after it. -/
def splitOnce (pattern text : Text) : Option (Text × Text) := splitFrom pattern [] text

/-- The text before the last occurrence of a pattern, and the text after it: the first
occurrence from the end. -/
def splitLast (pattern text : Text) : Option (Text × Text) :=
  (splitOnce pattern.reverse text.reverse).map fun (back, front) => (front.reverse, back.reverse)

/-- Whether the pattern occurs. -/
def includes (pattern text : Text) : Bool := (splitOnce pattern text).isSome

def after? (pattern text : Text) : Option Text := (splitOnce pattern text).map Prod.snd

def before? (pattern text : Text) : Option Text := (splitOnce pattern text).map Prod.fst

/-- What stands before the first character of a kind, or all of the text. -/
def upTo (text : Text) (stop : Char) : Text := text.takeWhile (· != stop)

def line (text : Text) : Text := text ++ ['\n']

/-- The text and then blanks up to a width; a longer text stays whole. -/
def padRight (width : Nat) (text : Text) : Text :=
  text ++ List.replicate (width - text.length) ' '

/-! ### Dividing a text -/

theorem splitFrom_eq_map (pattern front text : Text) :
    splitFrom pattern front text =
      (splitOnce pattern text).map fun (before, after) => (front.reverse ++ before, after) := by
  induction text generalizing front with
  | nil => by_cases h : pattern.isEmpty <;> simp [splitOnce, splitFrom, h]
  | cons c rest ih =>
    by_cases h : pattern.isPrefixOf (c :: rest)
    · simp [splitOnce, splitFrom, h]
    · simp only [splitOnce, splitFrom, h] at ih ⊢
      simp only [Bool.false_eq_true, if_false]
      rw [ih (c :: front), ih [c]]
      simp [Function.comp_def]

theorem splitOnce_nil (pattern : Text) :
    splitOnce pattern [] = if pattern.isEmpty then some ([], []) else none := by
  simp [splitOnce, splitFrom]

/-- An occurrence at the start of a text is the first one; without it the first one is the
rest's. -/
theorem splitOnce_cons (pattern : Text) (c : Char) (rest : Text) :
    splitOnce pattern (c :: rest) =
      if pattern.isPrefixOf (c :: rest) then some ([], (c :: rest).drop pattern.length)
      else (splitOnce pattern rest).map fun (front, back) => (c :: front, back) := by
  rw [splitOnce, splitFrom, splitFrom_eq_map]
  simp

theorem eq_append_drop_of_isPrefixOf {pattern text : Text} (h : pattern.isPrefixOf text = true) :
    text = pattern ++ text.drop pattern.length := by
  obtain ⟨tail, rfl⟩ := List.isPrefixOf_iff_prefix.1 h
  simp

theorem eq_of_splitOnce {pattern text front back : Text}
    (h : splitOnce pattern text = some (front, back)) : text = front ++ pattern ++ back := by
  induction text generalizing front with
  | nil => simp_all [splitOnce_nil]
  | cons c rest ih =>
    rw [splitOnce_cons] at h
    split at h
    · next hp =>
      obtain ⟨rfl, rfl⟩ := Prod.mk.inj (Option.some.inj h)
      simpa using eq_append_drop_of_isPrefixOf hp
    · obtain ⟨⟨f, b⟩, hr, he⟩ := Option.map_eq_some_iff.1 h
      obtain ⟨rfl, rfl⟩ := Prod.mk.inj he
      simp [ih hr]

theorem eq_of_splitLast {pattern text front back : Text}
    (h : splitLast pattern text = some (front, back)) : text = front ++ pattern ++ back := by
  obtain ⟨⟨b, f⟩, hr, he⟩ := Option.map_eq_some_iff.1 h
  obtain ⟨rfl, rfl⟩ := Prod.mk.inj he
  simpa using congrArg List.reverse (eq_of_splitOnce hr)

theorem length_padRight (width : Nat) (text : Text) :
    (padRight width text).length = max width text.length := by
  simp only [padRight, List.length_append, List.length_replicate]
  omega

end Text

end Lockstep
