import Mathlib.Data.Bool.AllAny
import Lockstep.Proofs.Text.Numerals

/-! Addresses written in hexadecimal digits.

A digit stands for its place among the sixteen, in either letter case. Digits in lower case are the
ones that their number is written in, after leading zeros (`Numeral.Hexadecimal.exists_zeros`), so a
number has one numeral up to letter case and zeros. A token has one mark before its digits or none,
and blanks around (`Address.Spells`), and only one part of it can be the digits
(`Address.Spells.withoutMark_trim`). Hence a token names an address exactly if it is a rendering of
that address, and two tokens name the same one exactly if their numbers are equal:
`Address.address_grammar`. -/
namespace Lockstep

namespace Numeral

/-- The hexadecimal digits in lower case, each at the place that it stands for. -/
def hexDigits : Text := "0123456789abcdef".toList

/-- A hexadecimal digit of either letter case, ASCII only. -/
def IsHexDigit (c : Char) : Prop := c.toLower ∈ hexDigits

instance (c : Char) : Decidable (IsHexDigit c) :=
  inferInstanceAs (Decidable (c.toLower ∈ hexDigits))

/-- What a hexadecimal digit stands for. -/
def hexWorth (c : Char) : Nat := hexDigits.idxOf c.toLower

/-- The number that hexadecimal digits stand for. -/
def Hexadecimal (digits : Text) (n : Nat) : Prop :=
  digits ≠ [] ∧ (∀ c ∈ digits, IsHexDigit c) ∧ n = Nat.ofDigits 16 (digits.map hexWorth).reverse

/-- What holds of each of the first characters, one by one. -/
theorem forall_ascii {p : Char → Prop} (h : ∀ n < 128, p (Char.ofNat n)) {c : Char}
    (hc : c.toNat < 128) : p c := by
  have hp := h c.toNat hc
  rwa [Char.ofNat_toNat] at hp

theorem toLower_of_le {c : Char} (h : 128 ≤ c.toNat) : c.toLower = c := by
  apply dif_neg
  intro hupper
  have hle : c.toNat ≤ 'Z'.toNat := hupper.2
  exact absurd (h.trans hle) (by decide)

theorem IsHexDigit.toNat_lt {c : Char} (h : IsHexDigit c) : c.toNat < 128 := by
  by_contra hlarge
  rw [IsHexDigit, toLower_of_le (Nat.le_of_not_lt hlarge)] at h
  have hsmall : ∀ d ∈ hexDigits, d.toNat < 128 := List.all_iff_forall_prop.mp (by decide)
  exact hlarge (hsmall c h)

theorem IsHexDigit.mem {c : Char} (h : IsHexDigit c) : c ∈ "0123456789abcdefABCDEF".toList :=
  forall_ascii (p := fun c => IsHexDigit c → c ∈ "0123456789abcdefABCDEF".toList)
    (by decide +kernel) h.toNat_lt h

theorem IsHexDigit.not_isBlank {c : Char} (h : IsHexDigit c) : Text.isBlank c = false := by
  have hdigit : ∀ d ∈ "0123456789abcdefABCDEF".toList, Text.isBlank d = false :=
    List.all_iff_forall_prop.mp (by decide)
  exact hdigit c h.mem

theorem IsHexDigit.hexDigit? {c : Char} (h : IsHexDigit c) : hexDigit? c = some (hexWorth c) := by
  have hdigit : ∀ d ∈ "0123456789abcdefABCDEF".toList, Numeral.hexDigit? d = some (hexWorth d) :=
    List.all_iff_forall_prop.mp (by decide)
  exact hdigit c h.mem

theorem isHexDigit_of_hexDigit? {c : Char} {d : Nat} (h : hexDigit? c = some d) : IsHexDigit c := by
  by_cases hascii : c.toNat < 128
  · exact forall_ascii (p := fun c => (hexDigit? c).isSome → IsHexDigit c) (by decide +kernel)
      hascii (Option.isSome_of_mem h)
  · have hrange : ∀ low high : Char, high.toNat < 128 → (low ≤ c && c ≤ high) = false := by
      intro low high hhigh
      have hle : ¬ c ≤ high := fun h => hascii (Nat.lt_of_le_of_lt h hhigh)
      simp [hle]
    rw [hexDigit?, hrange _ _ (by decide), hrange _ _ (by decide), hrange _ _ (by decide)] at h
    cases h

theorem hexDigit?_eq_some_iff (c : Char) (d : Nat) :
    hexDigit? c = some d ↔ IsHexDigit c ∧ d = hexWorth c := by
  constructor
  · intro h
    have hc := isHexDigit_of_hexDigit? h
    rw [hc.hexDigit?] at h
    exact ⟨hc, (Option.some.inj h).symm⟩
  · rintro ⟨hc, rfl⟩
    exact hc.hexDigit?

theorem read?_hexadecimal_eq_some_iff {text : Text} {n : Nat} :
    read? 16 hexDigit? text = some n ↔ Hexadecimal text n :=
  read?_eq_some_iff hexDigit?_eq_some_iff

theorem hexWord?_eq_some_iff {text : Text} {word : UInt64} :
    hexWord? text = some word ↔ Hexadecimal text word.toNat := by
  simp only [hexWord?, Option.bind_eq_some_iff, read?_hexadecimal_eq_some_iff, word?_eq_some_iff,
    exists_eq_right]

/-! ### The digits of a number -/

section
variable {digits digits' : Text} {n n' : Nat}

theorem Hexadecimal.unique (h : Hexadecimal digits n) (h' : Hexadecimal digits n') : n = n' :=
  h.2.2.trans h'.2.2.symm

/-- The letter case of digits does not matter. -/
theorem Hexadecimal.of_map_toLower (h : Hexadecimal digits n)
    (hcase : digits'.map Char.toLower = digits.map Char.toLower) : Hexadecimal digits' n := by
  have hlower : ∀ text : Text, Hexadecimal text n ↔ text.map Char.toLower ≠ [] ∧
      (∀ c ∈ text.map Char.toLower, c ∈ hexDigits) ∧
      n = Nat.ofDigits 16 ((text.map Char.toLower).map hexDigits.idxOf).reverse := by
    intro text
    rw [List.map_map, List.forall_mem_map, Ne, List.map_eq_nil_iff]
    rfl
  rw [hlower] at h ⊢
  rwa [hcase]

theorem hexadecimal_toDigits (n : Nat) : Hexadecimal (Nat.toDigits 16 n) n :=
  read?_hexadecimal_eq_some_iff.mp (read?_toDigits (by decide) (by decide) n)

theorem Hexadecimal.replicate_zero_append (h : Hexadecimal digits n) (zeros : Nat) :
    Hexadecimal (List.replicate zeros '0' ++ digits) n := by
  induction zeros with
  | zero => exact h
  | succ zeros ih =>
    rw [List.replicate_succ, List.cons_append]
    obtain ⟨_, hdigits, hn⟩ := ih
    refine ⟨List.cons_ne_nil _ _, List.forall_mem_cons.mpr ⟨by decide, hdigits⟩, ?_⟩
    have hzero : hexWorth '0' = 0 := by decide
    rw [List.map_cons, List.reverse_cons, hzero, Nat.ofDigits_append, ← hn]
    simp

theorem toLower_eq_digitChar {c : Char} (h : IsHexDigit c) :
    c.toLower = Nat.digitChar (hexWorth c) ∧ hexWorth c < 16 := by
  have hdigit : ∀ d ∈ hexDigits, d = Nat.digitChar (hexDigits.idxOf d) ∧
      hexDigits.idxOf d < 16 := List.all_iff_forall_prop.mp (by decide)
  exact hdigit c.toLower h

/-- Digits in lower case are leading zeros and then the digits of their number. -/
theorem Hexadecimal.exists_zeros (h : Hexadecimal digits n) :
    ∃ zeros, digits.map Char.toLower = List.replicate zeros '0' ++ Nat.toDigits 16 n := by
  induction digits using List.reverseRecOn generalizing n with
  | nil => exact absurd rfl h.1
  | append_singleton digits c ih =>
    obtain ⟨_, hdigits, hn⟩ := h
    obtain ⟨hdigits, hc⟩ := List.forall_mem_append.mp hdigits
    obtain ⟨hlower, hsmall⟩ := toLower_eq_digitChar (List.forall_mem_singleton.mp hc)
    have hlast : [c.toLower] = Nat.toDigits 16 (hexWorth c) := by
      rw [Nat.toDigits_of_lt_base hsmall, hlower]
    rw [List.map_append, List.map_singleton, hlast]
    cases hfront : digits with
    | nil =>
      refine ⟨0, ?_⟩
      rw [hfront] at hn
      simp [hn]
    | cons d rest =>
      rw [← hfront]
      obtain ⟨zeros, hzeros⟩ := ih ⟨by simp [hfront], hdigits, rfl⟩
      rw [List.map_append, List.map_singleton, List.reverse_concat, Nat.ofDigits_cons] at hn
      generalize Nat.ofDigits 16 (digits.map hexWorth).reverse = m at hn hzeros
      cases m with
      | zero =>
        -- So far there were zeros only, and the last of them is a leading one now.
        refine ⟨zeros + 1, ?_⟩
        rw [hzeros, hn, List.replicate_succ']
        simp
      | succ m =>
        refine ⟨zeros, ?_⟩
        rw [hzeros, List.append_assoc, Nat.toDigits_append_toDigits (by decide) (by simp) hsmall,
          hn, Nat.add_comm]

end

end Numeral

namespace Address

/-- What stands before hexadecimal digits to mark them. -/
def marks : List Text := ["0x".toList, "0X".toList]

/-- The digits of a token, with or without one mark before them, and blanks around both. -/
def Spells (token digits : Text) : Prop :=
  ∃ front mark back, token = front ++ (mark ++ digits) ++ back ∧ (mark = [] ∨ mark ∈ marks) ∧
    (∀ c ∈ front, Text.isBlank c = true) ∧ ∀ c ∈ back, Text.isBlank c = true

/-- The number of a token. -/
def Denotes (token : Text) (n : Nat) : Prop :=
  ∃ digits, Spells token digits ∧ Numeral.Hexadecimal digits n

/-- The token has the digits of the address in either letter case, with leading zeros or none. -/
def Renders (address : Address) (token : Text) : Prop :=
  ∃ digits zeros, Spells token digits ∧
    digits.map Char.toLower = List.replicate zeros '0' ++ address.hex

section
variable {token token' digits : Text} {address address' : Address} {n n' : Nat}

theorem read?_eq_some_iff :
    read? token = some address ↔ Numeral.Hexadecimal (withoutMark token.trim) address.toNat :=
  Numeral.hexWord?_eq_some_iff

/-! ### The digits of a token -/

theorem not_isBlank_of_mem_mark {mark : Text} (h : mark ∈ marks) :
    ∀ c ∈ mark, Text.isBlank c = false := by
  have hmarks : ∀ mark ∈ marks, mark.all (Text.isBlank · = false) := by decide
  exact List.all_iff_forall_prop.mp (hmarks mark h)

theorem withoutMark_of_isHexDigit (h : ∀ c ∈ digits, Numeral.IsHexDigit c) :
    withoutMark digits = digits := by
  unfold withoutMark
  split
  · exact absurd (h 'x' (by simp)) (by decide)
  · exact absurd (h 'X' (by simp)) (by decide)
  · rfl

theorem withoutMark_append {mark : Text} (h : mark ∈ marks) (rest : Text) :
    withoutMark (mark ++ rest) = rest := by
  simp only [marks, List.mem_cons, List.not_mem_nil, or_false] at h
  rcases h with rfl | rfl <;> rfl

/-- A text is its mark, if it has one, and what is without it. -/
theorem exists_mark (text : Text) :
    ∃ mark, text = mark ++ withoutMark text ∧ (mark = [] ∨ mark ∈ marks) := by
  unfold withoutMark
  split
  · exact ⟨"0x".toList, rfl, .inr (by decide)⟩
  · exact ⟨"0X".toList, rfl, .inr (by decide)⟩
  · exact ⟨[], rfl, .inl rfl⟩

theorem spells_withoutMark_trim (token : Text) : Spells token (withoutMark token.trim) := by
  obtain ⟨front, back, htoken, hfront, hback⟩ := Text.exists_trim token
  obtain ⟨mark, hmark, hmarks⟩ := exists_mark token.trim
  exact ⟨front, mark, back, hmark ▸ htoken, hmarks, hfront, hback⟩

theorem Spells.withoutMark_trim (h : Spells token digits)
    (hdigits : ∀ c ∈ digits, Numeral.IsHexDigit c) : withoutMark token.trim = digits := by
  obtain ⟨front, mark, back, rfl, hmark, hfront, hback⟩ := h
  have hblank : ∀ c ∈ digits, Text.isBlank c = false := fun c hc => (hdigits c hc).not_isBlank
  rw [Text.trim_surrounded hfront _ hback]
  rcases hmark with rfl | hmark
  · rw [List.nil_append, Text.trim_of_forall_not_isBlank hblank, withoutMark_of_isHexDigit hdigits]
  · have hmarked : ∀ c ∈ mark ++ digits, Text.isBlank c = false :=
      List.forall_mem_append.mpr ⟨not_isBlank_of_mem_mark hmark, hblank⟩
    rw [Text.trim_of_forall_not_isBlank hmarked, withoutMark_append hmark]

theorem denotes_iff : Denotes token n ↔ Numeral.Hexadecimal (withoutMark token.trim) n := by
  constructor
  · rintro ⟨digits, hspells, hdigits⟩
    rwa [hspells.withoutMark_trim hdigits.2.1]
  · intro h
    exact ⟨_, spells_withoutMark_trim token, h⟩

theorem Denotes.unique (h : Denotes token n) (h' : Denotes token n') : n = n' :=
  (denotes_iff.mp h).unique (denotes_iff.mp h')

theorem read?_eq_some_iff_denotes : read? token = some address ↔ Denotes token address.toNat :=
  read?_eq_some_iff.trans denotes_iff.symm

/-- The tokens of an address are its renderings. -/
theorem denotes_toNat_iff : Denotes token address.toNat ↔ Renders address token := by
  constructor
  · rintro ⟨digits, hspells, hdigits⟩
    obtain ⟨zeros, hzeros⟩ := hdigits.exists_zeros
    exact ⟨digits, zeros, hspells, hzeros⟩
  · rintro ⟨digits, zeros, hspells, hdigits⟩
    have hhex : Numeral.Hexadecimal (List.replicate zeros '0' ++ address.hex) address.toNat :=
      (Numeral.hexadecimal_toDigits _).replicate_zero_append zeros
    have hlower : (List.replicate zeros '0' ++ address.hex).map Char.toLower =
        List.replicate zeros '0' ++ address.hex := by
      have hzeros : ∀ c ∈ List.replicate zeros '0', c.toLower = c := by
        intro c hc
        rw [List.eq_of_mem_replicate hc]
        rfl
      have hhex : ∀ c ∈ address.hex, c.toLower = c := address.forall_mem_hex (by decide)
      rw [List.map_congr_left (List.forall_mem_append.mpr ⟨hzeros, hhex⟩), List.map_id']
    exact ⟨digits, hspells, hhex.of_map_toLower (hdigits.trans hlower.symm)⟩

/-! ### Tokens that are rejected -/

theorem read?_eq_none_iff : read? token = none ↔ ∀ n, Denotes token n → 2 ^ 64 ≤ n :=
  Numeral.eq_none_iff_of_eq_some_iff fun _ => read?_eq_some_iff_denotes

theorem read?_eq_none_of_mem {c : Char} (hc : c ∈ withoutMark token.trim)
    (hdigit : ¬ Numeral.IsHexDigit c) : read? token = none := by
  rw [read?_eq_none_iff]
  intro n hn
  exact absurd ((denotes_iff.mp hn).2.1 c hc) hdigit

theorem mem_withoutMark {text : Text} {c : Char} (hc : c ∈ text)
    (hmark : ∀ mark ∈ marks, c ∉ mark) : c ∈ withoutMark text := by
  obtain ⟨mark, htext, hmarks⟩ := exists_mark text
  rw [htext] at hc
  rcases List.mem_append.mp hc with hc | hc
  · rcases hmarks with rfl | hmarks
    · cases hc
    · exact absurd hc (hmark mark hmarks)
  · exact hc

/-- A token that names an address has blanks, the mark and digits only. -/
theorem read?_of_foreign {c : Char} (hblank : Text.isBlank c = false)
    (hmark : ∀ mark ∈ marks, c ∉ mark) (hdigit : ¬ Numeral.IsHexDigit c) (hc : c ∈ token) :
    read? token = none :=
  read?_eq_none_of_mem (mem_withoutMark (Text.mem_trim hblank hc) hmark) hdigit

theorem read?_of_mem_sign {c : Char} (hsign : c ∈ ['+', '-']) (hc : c ∈ token) :
    read? token = none := by
  have hsigns : ∀ c ∈ ['+', '-'], Text.isBlank c = false ∧ (∀ mark ∈ marks, c ∉ mark) ∧
      ¬ Numeral.IsHexDigit c := List.all_iff_forall_prop.mp (by decide)
  obtain ⟨hblank, hmark, hdigit⟩ := hsigns c hsign
  exact read?_of_foreign hblank hmark hdigit hc

theorem read?_of_inner_blank {front back : Text} {c : Char} (hc : Text.isBlank c = true)
    (hfront : ∃ d ∈ front, Text.isBlank d = false) (hback : ∃ d ∈ back, Text.isBlank d = false) :
    read? (front ++ c :: back) = none := by
  have hmark : ∀ mark ∈ marks, c ∉ mark := by
    intro mark hmark hmem
    rw [not_isBlank_of_mem_mark hmark c hmem] at hc
    cases hc
  have hdigit : ¬ Numeral.IsHexDigit c := by
    intro h
    rw [h.not_isBlank] at hc
    cases hc
  exact read?_eq_none_of_mem (mem_withoutMark (Text.mem_trim_of_inner hfront c hback) hmark) hdigit

theorem trimRight_mark_append {mark : Text} (h : mark ∈ marks) (rest : Text) :
    Text.trimRight (mark ++ rest) = mark ++ Text.trimRight rest := by
  simp only [marks, List.mem_cons, List.not_mem_nil, or_false] at h
  rcases h with rfl | rfl
  · exact Text.trimRight_append_of_not_isBlank (by decide) ['0'] rest
  · exact Text.trimRight_append_of_not_isBlank (by decide) ['0'] rest

theorem trimLeft_mark_append {mark : Text} (h : mark ∈ marks) (rest : Text) :
    Text.trimLeft (mark ++ rest) = mark ++ rest := by
  simp only [marks, List.mem_cons, List.not_mem_nil, or_false] at h
  rcases h with rfl | rfl <;> rfl

theorem read?_of_mark_twice {front mark again : Text} (hfront : ∀ c ∈ front, Text.isBlank c = true)
    (hmark : mark ∈ marks) (hagain : again ∈ marks) (rest : Text) :
    read? (front ++ (mark ++ (again ++ rest))) = none := by
  have htrim : Text.trim (front ++ (mark ++ (again ++ rest))) =
      mark ++ (again ++ Text.trimRight rest) := by
    rw [Text.trim, Text.trimLeft, List.dropWhile_append_of_pos hfront]
    show Text.trimRight (Text.trimLeft _) = _
    rw [trimLeft_mark_append hmark, trimRight_mark_append hmark, trimRight_mark_append hagain]
  have hletter : ∀ mark ∈ marks, mark.any (¬ Numeral.IsHexDigit ·) := by decide
  obtain ⟨c, hc, hdigit⟩ := List.any_iff_exists_prop.mp (hletter again hagain)
  refine read?_eq_none_of_mem ?_ hdigit
  rw [htrim, withoutMark_append hmark]
  exact List.mem_append_left _ hc

/-- **A token names an address exactly if it is a rendering of it**: its digits in either letter
case, after any number of zeros and one mark or none, with blanks around. Tokens of numbers too
large and all other texts name none. -/
theorem address_grammar :
    (∀ token address, read? token = some address ↔
      Numeral.Hexadecimal (withoutMark token.trim) address.toNat) ∧
    (∀ token address, read? token = some address ↔ Renders address token) ∧
    (∀ token n, Denotes token n → 2 ^ 64 ≤ n → read? token = none) ∧
    (∀ token, (∀ n, ¬ Denotes token n) → read? token = none) ∧
    (∀ token sign, sign ∈ ['+', '-'] → sign ∈ token → read? token = none) ∧
    (∀ front c back, (∃ d ∈ front, Text.isBlank d = false) → Text.isBlank c = true →
      (∃ e ∈ back, Text.isBlank e = false) → read? (front ++ c :: back) = none) ∧
    (∀ front mark again rest, (∀ c ∈ front, Text.isBlank c = true) → mark ∈ marks →
      again ∈ marks → read? (front ++ (mark ++ (again ++ rest))) = none) ∧
    ∀ token token' address address' n n', read? token = some address →
      read? token' = some address' → Denotes token n → Denotes token' n' →
      (address = address' ↔ n = n') := by
  refine ⟨fun _ _ => read?_eq_some_iff,
    fun _ _ => read?_eq_some_iff_denotes.trans denotes_toNat_iff,
    fun token n hn hlarge => ?_, fun token hnone => ?_, fun _ _ => read?_of_mem_sign,
    fun _ _ _ hfront hc hback => read?_of_inner_blank hc hfront hback,
    fun _ _ _ rest hfront hmark hagain => read?_of_mark_twice hfront hmark hagain rest,
    fun token token' address address' n n' hread hread' hn hn' => ?_⟩
  · rw [read?_eq_none_iff]
    intro m hm
    rwa [hm.unique hn]
  · rw [read?_eq_none_iff]
    exact fun n hn => absurd hn (hnone n)
  · rw [← (read?_eq_some_iff_denotes.mp hread).unique hn,
      ← (read?_eq_some_iff_denotes.mp hread').unique hn', UInt64.toNat_inj]

/-- Two renderings of one address, the first number that is too large, a mark without digits, a
sign, a blank inside and two marks. -/
theorem address_grammar_padded :
    (read? "\t 0X00deadBEEF\r".toList = some 0xdeadbeef ∧
      read? "DEADbeef".toList = some 0xdeadbeef ∧ Denotes "\t 0X00deadBEEF\r".toList 0xdeadbeef ∧
      Denotes "DEADbeef".toList 0xdeadbeef ∧
      ((0xdeadbeef : Address) = 0xdeadbeef ↔ 0xdeadbeef = 0xdeadbeef)) ∧
    (Denotes "10000000000000000".toList (2 ^ 64) ∧ read? "10000000000000000".toList = none) ∧
    ((∀ n, ¬ Denotes "0x".toList n) ∧ read? "0x".toList = none) ∧
    read? "0x+10".toList = none ∧ read? "0x\t10".toList = none ∧ read? " 0x0X10".toList = none := by
  obtain ⟨_, _, hlarge, hnone, hsign, hblank, htwice, hsame⟩ := address_grammar
  have hread : read? "\t 0X00deadBEEF\r".toList = some 0xdeadbeef := by decide
  have hread' : read? "DEADbeef".toList = some 0xdeadbeef := by decide
  have hnumber : Denotes "\t 0X00deadBEEF\r".toList 0xdeadbeef :=
    read?_eq_some_iff_denotes.mp hread
  have hnumber' : Denotes "DEADbeef".toList 0xdeadbeef := read?_eq_some_iff_denotes.mp hread'
  have hover : Denotes "10000000000000000".toList (2 ^ 64) :=
    denotes_iff.mpr ⟨by decide, List.all_iff_forall_prop.mp (by decide), by decide⟩
  have hbare : ∀ n, ¬ Denotes "0x".toList n := fun n hn => (denotes_iff.mp hn).1 rfl
  exact ⟨⟨hread, hread', hnumber, hnumber', hsame _ _ _ _ _ _ hread hread' hnumber hnumber'⟩,
    ⟨hover, hlarge _ _ hover le_rfl⟩, ⟨hbare, hnone _ hbare⟩,
    hsign _ '+' (by decide) (by decide),
    hblank "0x".toList '\t' "10".toList ⟨'x', by decide⟩ (by decide) ⟨'1', by decide⟩,
    htwice " ".toList "0x".toList "0X".toList "10".toList (List.all_iff_forall_prop.mp (by decide))
      (by decide) (by decide)⟩

end

end Address

end Lockstep
