import Lockstep.Proofs.Text.Unbroken

/-! Texts written in UTF-8 and read back.

A character is one byte to four (`encode`), and the reader, between two characters, makes of these
bytes the character again, whatever comes after them (`read_encodeChar_append`). So a text is read
back as it was written (`decode_encode`), and has its own lines: those that it was written in, each
without the carriage return at its end (`textLines_encode`). -/
namespace Lockstep

namespace Utf8

/-- The bytes of a text. -/
def encode (text : Text) : List UInt8 := text.flatMap String.utf8EncodeChar

theorem encode_cons (c : Char) (text : Text) :
    encode (c :: text) = String.utf8EncodeChar c ++ encode text := List.flatMap_cons

/-! ### Reading one character -/

/-- A byte that goes on with a character, with its six bits. -/
def tail (n : Nat) : UInt8 := UInt8.ofNat (n % 64 + 128)

theorem toNat_tail (n : Nat) : (tail n).toNat = n % 64 + 128 := by
  rw [tail, UInt8.toNat_ofNat']
  omega

theorem lead_one : ∀ n < 0x80, lead (UInt8.ofNat n) = (.between, [Char.ofNat n]) := by
  decide +kernel

theorem lead_two : ∀ n < 32, 2 ≤ n →
    lead (UInt8.ofNat (n + 192)) = (.inside n 1 0x80 0xBF, []) := by
  decide

/-- The second of three bytes is kept off overlong forms and off surrogates. -/
theorem lead_three : ∀ n < 16, lead (UInt8.ofNat (n + 224)) =
    (.inside n 2 (if n = 0 then 0xA0 else 0x80) (if n = 13 then 0x9F else 0xBF), []) := by
  decide

/-- The second of four bytes is kept off overlong forms and off what is past the last character. -/
theorem lead_four : ∀ n < 5, lead (UInt8.ofNat (n + 240)) =
    (.inside n 3 (if n = 0 then 0x90 else 0x80) (if n = 4 then 0x8F else 0xBF), []) := by
  decide

theorem step_tail {bits owed n : Nat} {low high : UInt8} (hlow : low.toNat ≤ n % 64 + 128)
    (hhigh : n % 64 + 128 ≤ high.toNat) :
    State.step (.inside bits owed low high) (tail n) =
      if owed ≤ 1 then (.between, [Char.ofNat (bits * 64 + n % 64)])
      else (.inside (bits * 64 + n % 64) (owed - 1) 0x80 0xBF, []) := by
  have hrange : (low ≤ tail n && tail n ≤ high) = true := by
    rw [Bool.and_eq_true, decide_eq_true_eq, decide_eq_true_eq, UInt8.le_iff_toNat_le,
      UInt8.le_iff_toNat_le, toNat_tail]
    exact ⟨hlow, hhigh⟩
  have hbits : (tail n).toNat % 64 = n % 64 := by
    rw [toNat_tail]
    omega
  simp only [State.step, hrange, if_true, hbits]

/-- The last byte of a character. -/
theorem read_last {bits n : Nat} {low high : UInt8} (hlow : low.toNat ≤ n % 64 + 128)
    (hhigh : n % 64 + 128 ≤ high.toNat) (bytes : List UInt8) :
    (State.inside bits 1 low high).read (tail n :: bytes) =
      Char.ofNat (bits * 64 + n % 64) :: State.between.read bytes := by
  rw [State.read, step_tail hlow hhigh]
  rfl

/-- A byte of a character that others follow. -/
theorem read_tail {bits owed n : Nat} {low high : UInt8} (howed : 1 < owed)
    (hlow : low.toNat ≤ n % 64 + 128) (hhigh : n % 64 + 128 ≤ high.toNat) (bytes : List UInt8) :
    (State.inside bits owed low high).read (tail n :: bytes) =
      (State.inside (bits * 64 + n % 64) (owed - 1) 0x80 0xBF).read bytes := by
  rw [State.read, step_tail hlow hhigh, if_neg (by omega)]
  rfl

/-- A first byte that others follow. -/
theorem read_lead {b : UInt8} {state : State} (h : lead b = (state, [])) (bytes : List UInt8) :
    State.between.read (b :: bytes) = state.read bytes := by
  rw [State.read, State.step, h]
  rfl

/-- The range of a byte that is not held to a narrower one. -/
theorem tail_range (n : Nat) :
    (0x80 : UInt8).toNat ≤ n % 64 + 128 ∧ n % 64 + 128 ≤ (0xBF : UInt8).toNat := by
  simp only [UInt8.reduceToNat]
  omega

theorem read_encodeChar_append (c : Char) (bytes : List UInt8) :
    State.between.read (String.utf8EncodeChar c ++ bytes) = c :: State.between.read bytes := by
  have hvalid : c.val.toNat < 0xD800 ∨ 0xDFFF < c.val.toNat ∧ c.val.toNat < 0x110000 := c.valid
  have hchar : Char.ofNat c.val.toNat = c := c.ofNat_toNat
  simp only [String.utf8EncodeChar]
  generalize c.val.toNat = v at hvalid hchar
  subst hchar
  obtain ⟨hlow, hhigh⟩ := tail_range v
  split_ifs with hone htwo hthree
  · rw [List.singleton_append, State.read, State.step, lead_one v (by omega)]
    rfl
  · have hlead := lead_two (v / 64 % 32) (by omega) (by omega)
    rw [List.cons_append, List.singleton_append, read_lead hlead]
    refine (read_last hlow hhigh bytes).trans ?_
    congr 2
    omega
  · have hlead := lead_three (v / 4096 % 16) (by omega)
    have hfrom : (if v / 4096 % 16 = 0 then 0xA0 else 0x80 : UInt8).toNat ≤ v / 64 % 64 + 128 := by
      split_ifs <;> simp only [UInt8.reduceToNat] <;> omega
    have hto : v / 64 % 64 + 128 ≤ (if v / 4096 % 16 = 13 then 0x9F else 0xBF : UInt8).toNat := by
      split_ifs <;> simp only [UInt8.reduceToNat] <;> omega
    rw [List.cons_append, List.cons_append, List.singleton_append, read_lead hlead]
    refine (read_tail (by decide) hfrom hto _).trans ?_
    refine (read_last hlow hhigh bytes).trans ?_
    congr 2
    omega
  · have hlead := lead_four (v / 262144 % 8) (by omega)
    have hfrom : (if v / 262144 % 8 = 0 then 0x90 else 0x80 : UInt8).toNat ≤
        v / 4096 % 64 + 128 := by
      split_ifs <;> simp only [UInt8.reduceToNat] <;> omega
    have hto : v / 4096 % 64 + 128 ≤ (if v / 262144 % 8 = 4 then 0x8F else 0xBF : UInt8).toNat := by
      split_ifs <;> simp only [UInt8.reduceToNat] <;> omega
    obtain ⟨hmidLow, hmidHigh⟩ := tail_range (v / 64)
    rw [List.cons_append, List.cons_append, List.cons_append, List.singleton_append,
      read_lead hlead]
    refine (read_tail (by decide) hfrom hto _).trans ?_
    refine (read_tail (by decide) hmidLow hmidHigh _).trans ?_
    refine (read_last hlow hhigh bytes).trans ?_
    congr 2
    omega

/-- **A text is read back as it was written.** -/
theorem decode_encode (text : Text) : decode (encode text) = text := by
  rw [decode_eq_read]
  induction text with
  | nil => rfl
  | cons c text ih => rw [encode_cons, read_encodeChar_append, ih]

end Utf8

/-! ### Lines -/

theorem Text.lines_flatMap_line {lines : List Text} (h : ∀ line ∈ lines, line.Unbroken) :
    Text.lines (lines.flatMap Text.line) = lines.map (dropReturn '\r') := by
  induction lines with
  | nil => rfl
  | cons line lines ih =>
    obtain ⟨hline, hlines⟩ := List.forall_mem_cons.mp h
    rw [List.flatMap_cons, Text.line, List.append_assoc, List.singleton_append, Text.lines,
      lines_line_append hline, List.map_cons, ← ih hlines, Text.lines]

/-- **A text written line by line is read line by line.** -/
theorem Stream.textLines_encode {lines : List Text} (h : ∀ line ∈ lines, line.Unbroken) :
    textLines (Utf8.encode (lines.flatMap Text.line)) = lines.map (dropReturn '\r') := by
  rw [textLines_eq_lines_decode, Utf8.decode_encode, Text.lines_flatMap_line h]

end Lockstep
