import Mathlib.Data.Nat.Digits.Defs
import Mathlib.Tactic.Ring
import Lockstep.Address
import Lockstep.Proofs.Text.Searching

/-! Numbers written in digits and read back.

A number in a base is written with the digits of that base alone (`forall_mem_toDigits`), and
Horner's rule over their values gives the number again (`read?_toDigits`). So every word of 64 bits
is read back from the digits it is written in: an address from its hexadecimal digits with or
without the mark (`Address.read?_hex`, `Address.read?_marked`), a tick from its decimal digits
(`Tick.read?_decimal`). The other way round a numeral is read exactly if it is made of digits, and
its number is what they stand for (`Numeral.read?_eq_some_iff`); a tick may have a plus sign before
them and is below 2^64 (`Tick.read?_eq_some_iff`, `Tick.read?_eq_none_iff`). -/
namespace Lockstep

namespace Numeral

theorem value_concat (base : Nat) (digits : List Nat) (d : Nat) :
    value base (digits ++ [d]) = value base digits * base + d := List.foldl_concat ..

/-- What holds of the digits of a base holds of all characters of a numeral. -/
theorem forall_mem_toDigits {base : Nat} (hbase : 1 < base) {p : Char → Prop}
    (h : ∀ d < base, p (Nat.digitChar d)) (n : Nat) : ∀ c ∈ Nat.toDigits base n, p c := by
  induction n using Nat.strongRecOn with
  | ind n ih =>
    rw [Nat.toDigits_eq_if hbase]
    split
    · next hsmall => exact List.forall_mem_singleton.mpr (h n hsmall)
    · next hlarge =>
      refine List.forall_mem_append.mpr ⟨ih (n / base) (Nat.div_lt_self (by omega) hbase), ?_⟩
      exact List.forall_mem_singleton.mpr (h _ (Nat.mod_lt n (by omega)))

/-- Digits that are read one by one are read together. -/
theorem mapM_toDigits {base : Nat} (hbase : 1 < base) {digit? : Char → Option Nat}
    (hdigit : ∀ d < base, digit? (Nat.digitChar d) = some d) (n : Nat) :
    ∃ digits, (Nat.toDigits base n).mapM digit? = some digits ∧ value base digits = n := by
  induction n using Nat.strongRecOn with
  | ind n ih =>
    rw [Nat.toDigits_eq_if hbase]
    split
    · next hsmall => exact ⟨[n], by simp [hdigit n hsmall], by simp [value]⟩
    · next hlarge =>
      obtain ⟨digits, hread, hvalue⟩ := ih (n / base) (Nat.div_lt_self (by omega) hbase)
      refine ⟨digits ++ [n % base], ?_, ?_⟩
      · simp [List.mapM_append, hread, hdigit _ (Nat.mod_lt n (by omega))]
      · rw [value_concat, hvalue, Nat.div_add_mod']

theorem read?_toDigits {base : Nat} (hbase : 1 < base) {digit? : Char → Option Nat}
    (hdigit : ∀ d < base, digit? (Nat.digitChar d) = some d) (n : Nat) :
    read? base digit? (Nat.toDigits base n) = some n := by
  obtain ⟨digits, hread, hvalue⟩ := mapM_toDigits hbase hdigit n
  have hnonempty : (Nat.toDigits base n).isEmpty = false := by
    rw [List.isEmpty_eq_false_iff]
    exact Nat.toDigits_ne_nil
  rw [read?, hnonempty, hread, ← hvalue]
  rfl

theorem word?_toNat (word : UInt64) : word? word.toNat = some word := by
  rw [word?, if_pos word.toNat_lt_size, UInt64.ofNat_toNat]

theorem hexWord?_hex (word : UInt64) : hexWord? (hex word.toNat) = some word := by
  rw [hexWord?, hex, read?_toDigits (by decide) (by decide), Option.bind_some, word?_toNat]

/-- Digits do not begin with a plus sign. -/
theorem decimalWord?_decimal (word : UInt64) : decimalWord? (decimal word.toNat) = some word := by
  have hread : (read? 10 decimalDigit? (decimal word.toNat)).bind word? = some word := by
    rw [decimal, read?_toDigits (by decide) (by decide), Option.bind_some, word?_toNat]
  unfold decimalWord?
  split
  · next digits hplus =>
    have hdigits : ∀ c ∈ decimal word.toNat, c ≠ '+' :=
      forall_mem_toDigits (by decide) (by decide) word.toNat
    rw [hplus] at hdigits
    exact absurd rfl (hdigits '+' List.mem_cons_self)
  · exact hread

/-! ### Digits and what they stand for -/

theorem value_eq_ofDigits (base : Nat) (digits : List Nat) :
    value base digits = Nat.ofDigits base digits.reverse := by
  induction digits using List.reverseRecOn with
  | nil => rfl
  | append_singleton digits d ih =>
    rw [value_concat, ih, List.reverse_concat, Nat.ofDigits_cons]
    ring

section
variable {digit? : Char → Option Nat} {p : Char → Prop} {worth : Char → Nat}
  (hdigit : ∀ c d, digit? c = some d ↔ p c ∧ d = worth c)
include hdigit

theorem mapM_eq_some_iff {text : Text} {digits : List Nat} :
    text.mapM digit? = some digits ↔ (∀ c ∈ text, p c) ∧ digits = text.map worth := by
  induction text generalizing digits with
  | nil => simp
  | cons c text ih =>
    simp only [List.mapM_cons, Option.bind_eq_bind, Option.bind_eq_some_iff, Option.pure_def,
      hdigit, ih, Option.some.injEq, List.forall_mem_cons, List.map_cons]
    constructor
    · rintro ⟨d, ⟨hc, rfl⟩, digits, ⟨htext, rfl⟩, rfl⟩
      exact ⟨⟨hc, htext⟩, rfl⟩
    · rintro ⟨⟨hc, htext⟩, rfl⟩
      exact ⟨_, ⟨hc, rfl⟩, _, ⟨htext, rfl⟩, rfl⟩

/-- A numeral is one digit or more, and its number is what they stand for in the base. -/
theorem read?_eq_some_iff {base n : Nat} {text : Text} :
    read? base digit? text = some n ↔
      text ≠ [] ∧ (∀ c ∈ text, p c) ∧ n = Nat.ofDigits base (text.map worth).reverse := by
  unfold read?
  split
  · next hempty =>
    obtain rfl := List.isEmpty_iff.mp hempty
    simp
  · next hempty =>
    rw [Option.map_eq_some_iff]
    simp only [mapM_eq_some_iff hdigit, value_eq_ofDigits]
    constructor
    · rintro ⟨digits, ⟨hdigits, rfl⟩, rfl⟩
      exact ⟨by simpa using hempty, hdigits, rfl⟩
    · rintro ⟨_, hdigits, rfl⟩
      exact ⟨_, ⟨hdigits, rfl⟩, rfl⟩

end

/-- The number that decimal digits stand for, ASCII only. -/
def Decimal (digits : Text) (n : Nat) : Prop :=
  digits ≠ [] ∧ (∀ c ∈ digits, c.isDigit = true) ∧
    n = Nat.ofDigits 10 (digits.map fun c => c.toNat - '0'.toNat).reverse

theorem decimalDigit?_eq_some_iff (c : Char) (d : Nat) :
    decimalDigit? c = some d ↔ c.isDigit = true ∧ d = c.toNat - '0'.toNat := by
  have hdigit : c.isDigit = true ↔ ('0' ≤ c && c ≤ '9') = true := by
    simp [Char.isDigit, Char.le_def]
  rw [decimalDigit?, hdigit]
  split
  · next h => simp [h, eq_comm]
  · next h => simp [h]

theorem read?_decimal_eq_some_iff {text : Text} {n : Nat} :
    read? 10 decimalDigit? text = some n ↔ Decimal text n :=
  read?_eq_some_iff decimalDigit?_eq_some_iff

theorem word?_eq_some_iff {n : Nat} {word : UInt64} : word? n = some word ↔ n = word.toNat := by
  constructor
  · intro h
    unfold word? at h
    split at h
    · next hlt =>
      obtain rfl := Option.some.inj h
      exact (UInt64.toNat_ofNat_of_lt hlt).symm
    · cases h
  · rintro rfl
    exact word?_toNat word

/-- What stands for words of 64 bits alone stands for none if its number is too large, or if it has
no number. -/
theorem eq_none_iff_of_eq_some_iff {word? : Option UInt64} {Stands : Nat → Prop}
    (h : ∀ word, word? = some word ↔ Stands word.toNat) :
    word? = none ↔ ∀ n, Stands n → 2 ^ 64 ≤ n := by
  constructor
  · intro hnone n hn
    by_contra hlt
    have hword : (UInt64.ofNat n).toNat = n := UInt64.toNat_ofNat_of_lt (Nat.lt_of_not_le hlt)
    have hsome := (h (UInt64.ofNat n)).mpr (hword.symm ▸ hn)
    rw [hnone] at hsome
    cases hsome
  · intro hlarge
    cases hword : word? with
    | none => rfl
    | some word =>
      exact absurd word.toNat_lt (Nat.not_lt.mpr (hlarge _ ((h word).mp hword)))

end Numeral

/-! ### Addresses and ticks -/

namespace Address

theorem forall_mem_hex {p : Char → Prop} (h : ∀ d < 16, p (Nat.digitChar d)) (address : Address) :
    ∀ c ∈ address.hex, p c := Numeral.forall_mem_toDigits (by decide) h address.toNat

/-- What is not a hexadecimal digit is not in an address. -/
theorem not_mem_hex {c : Char} (h : ∀ d < 16, Nat.digitChar d ≠ c) (address : Address) :
    c ∉ address.hex := by
  intro hc
  exact @forall_mem_hex (· ≠ c) h address c hc rfl

theorem not_isBlank_hex (address : Address) : ∀ c ∈ address.hex, Text.isBlank c = false :=
  forall_mem_hex (by decide) address

theorem withoutMark_hex (address : Address) : withoutMark address.hex = address.hex := by
  unfold withoutMark
  split
  · next hmark =>
    exact absurd (show 'x' ∈ address.hex by simp [hmark]) (not_mem_hex (by decide) address)
  · next hmark =>
    exact absurd (show 'X' ∈ address.hex by simp [hmark]) (not_mem_hex (by decide) address)
  · rfl

theorem read?_hex (address : Address) : read? address.hex = some address := by
  rw [read?, Text.trim_of_forall_not_isBlank address.not_isBlank_hex, withoutMark_hex]
  exact Numeral.hexWord?_hex address

theorem read?_marked (address : Address) : read? address.marked = some address := by
  have hmark : ∀ c ∈ "0x".toList, Text.isBlank c = false := by simp [Text.isBlank]
  have hblank : ∀ c ∈ address.marked, Text.isBlank c = false :=
    List.forall_mem_append.mpr ⟨hmark, address.not_isBlank_hex⟩
  rw [read?, Text.trim_of_forall_not_isBlank hblank]
  exact Numeral.hexWord?_hex address

end Address

namespace Tick

theorem forall_mem_decimal {p : Char → Prop} (h : ∀ d < 10, p (Nat.digitChar d)) (tick : Tick) :
    ∀ c ∈ tick.decimal, p c := Numeral.forall_mem_toDigits (by decide) h tick.toNat

/-- What is not a decimal digit is not in a tick. -/
theorem not_mem_decimal {c : Char} (h : ∀ d < 10, Nat.digitChar d ≠ c) (tick : Tick) :
    c ∉ tick.decimal := by
  intro hc
  exact @forall_mem_decimal (· ≠ c) h tick c hc rfl

theorem not_isBlank_decimal (tick : Tick) : ∀ c ∈ tick.decimal, Text.isBlank c = false :=
  forall_mem_decimal (by decide) tick

theorem read?_decimal (tick : Tick) : read? tick.decimal = some tick :=
  Numeral.decimalWord?_decimal tick

/-- A token of decimal digits, with or without one plus sign before them, and its number. -/
def Written (token : Text) (n : Nat) : Prop :=
  ∃ digits, (token = digits ∨ token = '+' :: digits) ∧ Numeral.Decimal digits n

theorem read?_eq_some_iff {token : Text} {tick : Tick} :
    read? token = some tick ↔ Written token tick.toNat := by
  have hread : ∀ digits, (Numeral.read? 10 Numeral.decimalDigit? digits).bind Numeral.word? =
      some tick ↔ Numeral.Decimal digits tick.toNat := by
    intro digits
    simp only [Option.bind_eq_some_iff, Numeral.read?_decimal_eq_some_iff,
      Numeral.word?_eq_some_iff, exists_eq_right]
  unfold read? Numeral.decimalWord?
  split
  · next digits =>
    rw [hread]
    constructor
    · intro h
      exact ⟨digits, .inr rfl, h⟩
    · rintro ⟨others, rfl | heq, h⟩
      · -- A plus sign is no digit.
        exact absurd (h.2.1 '+' List.mem_cons_self) (by decide)
      · rwa [(List.cons.inj heq).2]
  · next hplus =>
    rw [hread]
    constructor
    · intro h
      exact ⟨token, .inl rfl, h⟩
    · rintro ⟨digits, rfl | rfl, h⟩
      · exact h
      · exact absurd rfl (hplus digits)

/-- A token is no tick if it is not written in digits, or if its number is too large. -/
theorem read?_eq_none_iff {token : Text} :
    read? token = none ↔ ∀ n, Written token n → 2 ^ 64 ≤ n :=
  Numeral.eq_none_iff_of_eq_some_iff fun _ => read?_eq_some_iff

end Tick

end Lockstep
