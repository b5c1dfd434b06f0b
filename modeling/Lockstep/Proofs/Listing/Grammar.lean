import Lockstep.Listing.Line
import Lockstep.Proofs.Text.Addresses
import Lockstep.Proofs.Text.Unbroken

/-! The grammar of a listing's lines.

A line is read without the blanks around it. It is a label if its last physical line ends in a
bracket and a colon and has a name before them, from its first opening bracket on (`Names`). That is
where a search for `<(.+)>:$` succeeds first: no shorter front has brackets around a name behind it
(`names_iff_leftmost`). Any other line is an instruction if an address stands before its first colon
(`HasAddress`), and else it is noise. So every label line of a listing is read as its name, whatever
brackets, colons and blanks the name has, and every line that begins with an address and a colon as an
instruction there, if it is no label: `listing_grammar`. -/
namespace Lockstep.Listing.Line

open Text (First Follows)

/-! ### The grammar -/

/-- What a text has after its last line feed, or all of a text that has none. -/
def LastLine (text line : Text) : Prop :=
  line.Unbroken ∧ (text = line ∨ '\n' :: line <:+ text)

/-- The name is what stands between the first opening bracket of the last physical line and the
closing bracket and colon at its end. -/
def Names (text name : Text) : Prop :=
  name ≠ [] ∧ ∃ line, LastLine text line ∧ Follows ['<'] line (name ++ ['>', ':'])

/-- The address is what stands before the first colon. -/
def HasAddress (text : Text) (address : Address) : Prop :=
  ∃ token rest, First [':'] text token rest ∧ Address.read? token = some address

/-- Behind a front there is a name of one character or more in brackets, without a line feed, and
then a colon at the end. -/
structure Brackets (text front name : Text) : Prop where
  split : text = front ++ '<' :: (name ++ ['>', ':'])
  ne_nil : name ≠ []
  unbroken : name.Unbroken

/-! ### Labels -/

section
variable {text line front name : Text}

theorem lastLine_iff : LastLine text line ↔ Text.upTo text.reverse '\n' = line.reverse := by
  rw [Text.upTo_eq_iff, Text.Token, ← List.reverse_cons, List.reverse_prefix, List.mem_reverse,
    List.reverse_inj]
  rfl

theorem exists_lastLine (text : Text) : ∃ line, LastLine text line :=
  ⟨(Text.upTo text.reverse '\n').reverse, lastLine_iff.mpr (List.reverse_reverse _).symm⟩

theorem LastLine.append (h : LastLine front line) {tail : Text} (htail : tail.Unbroken) :
    LastLine (front ++ tail) (line ++ tail) := by
  obtain ⟨hline, rfl | ⟨above, rfl⟩⟩ := h
  · exact ⟨Text.unbroken_append.mpr ⟨hline, htail⟩, .inl rfl⟩
  · exact ⟨Text.unbroken_append.mpr ⟨hline, htail⟩, .inr ⟨above, by simp⟩⟩

theorem LastLine.unique {line' : Text} (h : LastLine text line) (h' : LastLine text line') :
    line = line' :=
  List.reverse_inj.mp ((lastLine_iff.mp h).symm.trans (lastLine_iff.mp h'))

theorem LastLine.suffix (h : LastLine text line) : line <:+ text := by
  obtain ⟨_, rfl | hsuffix⟩ := h
  · exact List.suffix_rfl
  · exact (List.suffix_cons '\n' line).trans hsuffix

theorem Brackets.unbroken_tail (h : Brackets text front name) :
    Text.Unbroken ('<' :: (name ++ ['>', ':'])) :=
  Text.unbroken_cons.mpr ⟨by decide, Text.unbroken_append.mpr ⟨h.unbroken, by decide⟩⟩

/-- The name begins behind a front of which the last physical line has no opening bracket. -/
theorem names_iff : Names text name ↔
    ∃ front line, LastLine front line ∧ '<' ∉ line ∧ Brackets text front name := by
  constructor
  · rintro ⟨hname, whole, ⟨hwhole, htext⟩, line, hfirst⟩
    obtain ⟨rfl, hbracket⟩ := Text.first_singleton_iff.mp hfirst
    obtain ⟨hline, htail⟩ := Text.unbroken_append.mp hwhole
    have hunbroken : name.Unbroken := htail.of_subset (by simp)
    rcases htext with rfl | ⟨above, rfl⟩
    · exact ⟨line, line, ⟨hline, .inl rfl⟩, hbracket, rfl, hname, hunbroken⟩
    · exact ⟨above ++ '\n' :: line, line, ⟨hline, .inr ⟨above, rfl⟩⟩, hbracket, by simp, hname,
        hunbroken⟩
  · rintro ⟨front, line, hline, hbracket, hbrackets⟩
    refine ⟨hbrackets.ne_nil, line ++ '<' :: (name ++ ['>', ':']), ?_, line,
      Text.first_singleton_iff.mpr ⟨rfl, hbracket⟩⟩
    rw [hbrackets.split]
    exact hline.append hbrackets.unbroken_tail

/-- The front of a name is the shortest one that brackets stand behind. -/
theorem names_iff_leftmost : Names text name ↔ ∃ front, Brackets text front name ∧
    ∀ other name', Brackets text other name' → front.length ≤ other.length := by
  rw [names_iff]
  constructor
  · rintro ⟨front, line, hline, hbracket, hbrackets⟩
    refine ⟨front, hbrackets, fun other name' hother => ?_⟩
    have heq := hbrackets.split.symm.trans hother.split
    rcases List.append_eq_append_iff.mp heq with ⟨between, rfl, _⟩ | ⟨between, hfront, htail⟩
    · simp
    · cases between with
      | nil => simp [hfront]
      | cons c between =>
        -- The other bracket stands in the front, and on its last physical line.
        obtain ⟨rfl, _⟩ := List.cons.inj htail
        have hunbroken := hother.unbroken_tail
        rw [htail] at hunbroken
        obtain ⟨line', hline'⟩ := exists_lastLine other
        rw [hfront] at hline
        rw [hline.unique (hline'.append (Text.unbroken_append.mp hunbroken).1)] at hbracket
        simp at hbracket
  · rintro ⟨front, hbrackets, hleft⟩
    obtain ⟨line, hline⟩ := exists_lastLine front
    refine ⟨front, line, hline, fun hbracket => ?_, hbrackets⟩
    -- A bracket on the last physical line of the front would be the first one.
    obtain ⟨above, rfl⟩ := hline.suffix
    obtain ⟨before, between, rfl⟩ := List.append_of_mem hbracket
    have hbetween : Text.Unbroken (between ++ '<' :: name) :=
      Text.unbroken_append.mpr ⟨hline.1.of_subset (by simp),
        Text.unbroken_cons.mpr ⟨by decide, hbrackets.unbroken⟩⟩
    have hother : Brackets text (above ++ before) (between ++ '<' :: name) :=
      ⟨by rw [hbrackets.split]; simp, by simp, hbetween⟩
    have hle := hleft _ _ hother
    simp only [List.length_append, List.length_cons] at hle
    omega

theorem labelName?_of_reverse {front : Text} (h : text.reverse = ':' :: '>' :: front) :
    labelName? text = some name ↔
      name ≠ [] ∧ Text.after? ['<'] (Text.upTo front '\n').reverse = some name := by
  simp only [labelName?, h, Text.upTo]
  cases Text.after? ['<'] (front.takeWhile (· != '\n')).reverse with
  | none => simp
  | some other => cases other <;> cases name <;> simp

/-- A text with a label ends in a bracket and a colon. -/
theorem exists_reverse_of_labelName? (h : labelName? text = some name) :
    ∃ front, text.reverse = ':' :: '>' :: front := by
  unfold labelName? at h
  split at h
  · next front hreverse => exact ⟨front, hreverse⟩
  · cases h

theorem labelName?_eq_some_iff : labelName? text = some name ↔ Names text name := by
  constructor
  · intro h
    obtain ⟨front, hreverse⟩ := exists_reverse_of_labelName? h
    obtain ⟨hname, hafter⟩ := (labelName?_of_reverse hreverse).mp h
    obtain ⟨line, hfirst⟩ := Text.after?_eq_some_iff.mp hafter
    obtain ⟨hbody, hbracket⟩ := Text.first_singleton_iff.mp hfirst
    refine ⟨hname, line ++ '<' :: (name ++ ['>', ':']), lastLine_iff.mpr ?_, line,
      Text.first_singleton_iff.mpr ⟨rfl, hbracket⟩⟩
    have hupTo : Text.upTo front '\n' = (line ++ '<' :: name).reverse := by
      rw [← hbody, List.reverse_reverse]
    rw [hreverse]
    show ':' :: '>' :: Text.upTo front '\n' = _
    rw [hupTo]
    simp
  · rintro ⟨hname, whole, hline, line, hfirst⟩
    obtain ⟨rfl, hbracket⟩ := Text.first_singleton_iff.mp hfirst
    obtain ⟨above, habove⟩ := hline.suffix
    have hreverse : text.reverse =
        ':' :: '>' :: ((line ++ '<' :: name).reverse ++ above.reverse) := by
      rw [← habove]
      simp
    have hupTo : ':' :: '>' :: Text.upTo ((line ++ '<' :: name).reverse ++ above.reverse) '\n' =
        ':' :: '>' :: (line ++ '<' :: name).reverse := by
      have hlast := lastLine_iff.mp hline
      rw [hreverse] at hlast
      refine hlast.trans ?_
      simp
    have hbody := (List.cons.inj (List.cons.inj hupTo).2).2
    refine (labelName?_of_reverse hreverse).mpr ⟨hname, ?_⟩
    rw [hbody, List.reverse_reverse]
    exact Text.after?_eq_some_iff.mpr ⟨line, Text.first_singleton_iff.mpr ⟨rfl, hbracket⟩⟩

/-- What stands between brackets behind a front without an opening bracket is a name. -/
theorem names_of_not_mem (hfront : '<' ∉ front) (hname : name ≠ []) (hunbroken : name.Unbroken) :
    Names (front ++ '<' :: (name ++ ['>', ':'])) name := by
  obtain ⟨line, hline⟩ := exists_lastLine front
  exact names_iff.mpr ⟨front, line, hline, fun h => hfront (hline.suffix.mem h), rfl, hname,
    hunbroken⟩

end

/-! ### Instructions -/

section
variable {line text name : Text} {address : Address}

theorem address?_eq_some_iff : address? text = some address ↔ HasAddress text address := by
  rw [address?, Option.bind_eq_some_iff]
  simp only [Text.before?_eq_some_iff]
  constructor
  · rintro ⟨token, ⟨rest, hfirst⟩, hread⟩
    exact ⟨token, rest, hfirst, hread⟩
  · rintro ⟨token, rest, hfirst, hread⟩
    exact ⟨token, ⟨rest, hfirst⟩, hread⟩

theorem read_eq (line : Text) : read line =
    match labelName? line.trim, address? line.trim with
    | some name, _ => label name
    | none, some address => instruction address line.trim
    | none, none => noise := by
  rw [read]
  cases labelName? line.trim with
  | some name => rfl
  | none => cases address? line.trim <;> rfl

theorem labelName?_eq_none_iff : labelName? text = none ↔ ∀ name, ¬ Names text name := by
  simp only [← labelName?_eq_some_iff, Option.eq_none_iff_forall_ne_some]

theorem address?_eq_none_iff : address? text = none ↔ ∀ address, ¬ HasAddress text address := by
  simp only [← address?_eq_some_iff, Option.eq_none_iff_forall_ne_some]

theorem read_eq_label_iff : read line = .label name ↔ Names line.trim name := by
  rw [read_eq, ← labelName?_eq_some_iff]
  cases labelName? line.trim with
  | some name => simp
  | none => cases address? line.trim <;> simp

theorem read_eq_instruction_iff : read line = .instruction address text ↔
    (∀ name, ¬ Names line.trim name) ∧ HasAddress line.trim address ∧ text = line.trim := by
  rw [read_eq, ← labelName?_eq_none_iff, ← address?_eq_some_iff]
  cases labelName? line.trim with
  | some name => simp
  | none => cases address? line.trim <;> simp [eq_comm]

theorem read_eq_noise_iff : read line = .noise ↔
    (∀ name, ¬ Names line.trim name) ∧ ∀ address, ¬ HasAddress line.trim address := by
  rw [read_eq, ← labelName?_eq_none_iff, ← address?_eq_none_iff]
  cases labelName? line.trim with
  | some name => simp
  | none => cases address? line.trim <;> simp

/-! ### Lines as listings have them -/

theorem trim_bracketed (front name : Text) :
    Text.trim (front ++ '<' :: (name ++ ['>', ':'])) =
      Text.trimLeft front ++ '<' :: (name ++ ['>', ':']) := by
  have hcolon : ∀ front : Text, front ++ '<' :: (name ++ ['>', ':']) =
      (front ++ '<' :: (name ++ ['>'])) ++ ':' :: [] := by
    intro front
    simp
  rw [Text.trim, Text.trimLeft_append_of_not_isBlank (by decide), hcolon,
    Text.trimRight_append_of_not_isBlank (by decide)]
  rfl

theorem read_labelled {token : Text} (htoken : Address.read? token = some address)
    (hname : name ≠ []) (hunbroken : name.Unbroken) :
    read (token ++ " <".toList ++ name ++ ">:".toList) = .label name := by
  have hbracket : '<' ∉ token := by
    intro hmem
    rw [Address.read?_of_foreign (by decide) (by decide) (by decide) hmem] at htoken
    cases htoken
  have hfront : '<' ∉ Text.trimLeft (token ++ [' ']) := by
    intro h
    have hmem := (List.dropWhile_sublist Text.isBlank).subset h
    simp [hbracket] at hmem
  have hline : token ++ " <".toList ++ name ++ ">:".toList =
      (token ++ [' ']) ++ '<' :: (name ++ ['>', ':']) := by simp
  rw [read_eq_label_iff, hline, trim_bracketed]
  exact names_of_not_mem hfront hname hunbroken

theorem hasAddress_hex (address : Address) (rest : Text) :
    HasAddress (Text.trim (address.hex ++ ':' :: rest)) address := by
  have htrim : Text.trim (address.hex ++ ':' :: rest) =
      address.hex ++ ':' :: Text.trimRight rest := by
    rw [Text.trim, Text.trimLeft_append_of_not_isBlank (by decide),
      Text.trimLeft_of_forall_not_isBlank address.not_isBlank_hex,
      Text.trimRight_append_of_not_isBlank (by decide)]
  rw [htrim]
  exact ⟨address.hex, Text.trimRight rest,
    Text.first_singleton_iff.mpr ⟨rfl, Address.not_mem_hex (by decide) address⟩, address.read?_hex⟩

end

/-- **A line is read by its grammar**: the label rule comes first, wherever an address stands, and
blanks around a line do not come into it. -/
theorem listing_grammar :
    (∀ line name, read line = .label name ↔ Names line.trim name) ∧
    (∀ text name, Names text name ↔ ∃ front, Brackets text front name ∧
      ∀ other name', Brackets text other name' → front.length ≤ other.length) ∧
    (∀ line address text, read line = .instruction address text ↔
      (∀ name, ¬ Names line.trim name) ∧ HasAddress line.trim address ∧ text = line.trim) ∧
    (∀ line, read line = .noise ↔
      (∀ name, ¬ Names line.trim name) ∧ ∀ address, ¬ HasAddress line.trim address) ∧
    (∀ token address name, Address.read? token = some address → name ≠ [] → Text.Unbroken name →
      read (token ++ " <".toList ++ name ++ ">:".toList) = .label name) ∧
    (∀ (address : Address) (rest : Text),
      (∀ name, ¬ Names (Text.trim (address.hex ++ ':' :: rest)) name) →
      read (address.hex ++ ':' :: rest) =
        .instruction address (Text.trim (address.hex ++ ':' :: rest))) ∧
    ∀ front line back : Text, (∀ c ∈ front, Text.isBlank c = true) →
      (∀ c ∈ back, Text.isBlank c = true) → read (front ++ line ++ back) = read line := by
  refine ⟨fun _ _ => read_eq_label_iff, fun _ _ => names_iff_leftmost,
    fun _ _ _ => read_eq_instruction_iff, fun _ => read_eq_noise_iff,
    fun _ _ _ => read_labelled, fun address rest hlabel => ?_, fun front line back hfront hback => ?_⟩
  · exact read_eq_instruction_iff.mpr ⟨hlabel, hasAddress_hex address rest, rfl⟩
  · rw [read, read, Text.trim_surrounded hfront line hback]

/-- A name with brackets, colons and blanks of its own, an instruction, and blanks around it. -/
theorem listing_grammar_nested :
    (Address.read? "00000000000100b0".toList = some 0x100b0 ∧
      read "00000000000100b0 <std::map<int, A<B>>::at(int) const>:".toList =
        .label "std::map<int, A<B>>::at(int) const".toList) ∧
    (∀ name, ¬ Names (Text.trim (Address.hex 0x10074 ++ ':' :: "\t1141 ".toList)) name) ∧
    read "10074:\t1141 ".toList = .instruction 0x10074 "10074:\t1141".toList ∧
    read "   10074:\t1141 \r".toList = .instruction 0x10074 "10074:\t1141".toList := by
  obtain ⟨_, _, _, _, hlabelled, hinstruction, hsurrounded⟩ := listing_grammar
  have hnone : ∀ name, ¬ Names (Text.trim (Address.hex 0x10074 ++ ':' :: "\t1141 ".toList)) name :=
    labelName?_eq_none_iff.mp (by decide)
  have hread := hinstruction 0x10074 "\t1141 ".toList hnone
  have haddress : Address.read? "00000000000100b0".toList = some 0x100b0 := by decide +kernel
  have hname := hlabelled "00000000000100b0".toList 0x100b0
    "std::map<int, A<B>>::at(int) const".toList haddress (by decide +kernel) (by decide +kernel)
  have hblanks := hsurrounded "   ".toList "10074:\t1141 ".toList "\r".toList
    (List.all_eq_true.mp (by decide)) (List.all_eq_true.mp (by decide))
  exact ⟨⟨haddress, hname⟩, hnone, hread, hblanks.trans hread⟩

-- The bracket above the line feed does not count, and the name begins with one.
example : read "10: <a\n<<>:".toList = .label "<".toList := by decide

end Lockstep.Listing.Line
