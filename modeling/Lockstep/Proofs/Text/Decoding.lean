import Mathlib.Tactic.SplitIfs
import Lockstep.Proofs.Text.Lines

/-! Lines of bytes and lines of text.

A byte below 0x80 is a character by itself, wherever it stands: a character that was begun ends before
it, and the reader is between two characters after it (`read_append_ascii`). A line feed and a carriage
return are such bytes, and no other bytes are read as one (`not_mem_read`). So bytes are cut into the
same lines before and after they are decoded, whether they are characters or not
(`textLines_eq_lines_decode`). -/
namespace Lockstep

namespace Utf8

/-- The next byte of a character is 0x80 or more, and the bits of the character are not all zero, or
the next byte makes them so. -/
def State.Begun : State → Prop
  | between => True
  | inside bits owed low high =>
    0x80 ≤ low ∧ (0 < bits ∨ (1 < owed ∧ 0x90 ≤ low ∧ high ≤ 0xBF))

variable {state : State} {b : UInt8} {bytes : List UInt8} {c : Char}

theorem begun_lead (b : UInt8) : (lead b).1.Begun := by
  unfold lead
  split_ifs with hascii htwo he0 hed hthree hf0 hf4 hfour
  · trivial
  · simp only [Bool.and_eq_true, decide_eq_true_eq, UInt8.le_iff_toNat_le, UInt8.reduceToNat] at htwo
    exact ⟨by decide, .inl (by omega)⟩
  · exact ⟨by decide, .inr (by decide)⟩
  · exact ⟨by decide, .inl (by decide)⟩
  · simp only [Bool.and_eq_true, decide_eq_true_eq, UInt8.le_iff_toNat_le, UInt8.reduceToNat] at hthree
    exact ⟨by decide, .inl (by omega)⟩
  · exact ⟨by decide, .inr (by decide)⟩
  · exact ⟨by decide, .inl (by decide)⟩
  · simp only [Bool.and_eq_true, decide_eq_true_eq, UInt8.le_iff_toNat_le, UInt8.reduceToNat] at hfour
    exact ⟨by decide, .inl (by omega)⟩
  · trivial

theorem begun_step (h : state.Begun) (b : UInt8) : (state.step b).1.Begun := by
  cases state with
  | between => exact begun_lead b
  | inside bits owed low high =>
    simp only [State.Begun, UInt8.le_iff_toNat_le, UInt8.reduceToNat] at h
    simp only [State.step]
    split_ifs with hrange howed
    · trivial
    · simp only [Bool.and_eq_true, decide_eq_true_eq, UInt8.le_iff_toNat_le] at hrange
      exact ⟨by decide, .inl (by omega)⟩
    · exact begun_lead b

/-- Bytes are read up to a point, and on from there. -/
theorem exists_read_append (h : state.Begun) (front : List UInt8) :
    ∃ written next, next.Begun ∧
      ∀ back, state.read (front ++ back) = written ++ State.read next back := by
  induction front generalizing state with
  | nil => exact ⟨[], state, h, fun _ => rfl⟩
  | cons b front ih =>
    obtain ⟨written, next, hnext, hread⟩ := ih (begun_step h b)
    refine ⟨(state.step b).2 ++ written, next, hnext, fun back => ?_⟩
    rw [List.cons_append, State.read, hread, List.append_assoc]

/-! ### Bytes below 0x80 -/

theorem step_ascii (h : state.Begun) (hb : b < 0x80) :
    state.step b = (.between, state.finish ++ [Char.ofNat b.toNat]) := by
  have hlead : lead b = (.between, [Char.ofNat b.toNat]) := if_pos hb
  cases state with
  | between => exact hlead
  | inside bits owed low high =>
    have hrange : ¬ (low ≤ b && b ≤ high) = true := by
      rw [Bool.and_eq_true, decide_eq_true_eq]
      exact fun hlow => UInt8.not_lt.mpr (UInt8.le_trans h.1 hlow.1) hb
    rw [State.step, if_neg hrange, hlead]
    rfl

theorem read_append_ascii (h : state.Begun) (hb : b < 0x80) (front back : List UInt8) :
    state.read (front ++ b :: back) =
      state.read front ++ Char.ofNat b.toNat :: State.between.read back := by
  obtain ⟨written, next, hnext, hread⟩ := exists_read_append h front
  have hfront : state.read front = written ++ next.finish := by
    rw [← List.append_nil front, hread]
    rfl
  have hbyte : next.read (b :: back) =
      next.finish ++ Char.ofNat b.toNat :: State.between.read back := by
    rw [State.read, step_ascii hnext hb, List.append_assoc, List.singleton_append]
  rw [hread, hfront, hbyte, List.append_assoc]

theorem decode_append_ascii (hb : b < 0x80) (front back : List UInt8) :
    decode (front ++ b :: back) = decode front ++ Char.ofNat b.toNat :: decode back := by
  rw [decode_eq_read, decode_eq_read, decode_eq_read]
  exact read_append_ascii (show State.between.Begun from trivial) hb front back

/-! ### Characters below U+0040 -/

section
variable (hc : 0 < c.toNat ∧ c.toNat < 0x40)
include hc

theorem ofNat_ne {n : Nat} (h : n ≠ c.toNat) : Char.ofNat n ≠ c := by
  intro heq
  by_cases hvalid : n.isValidChar
  · rw [Char.ofNat, dif_pos hvalid] at heq
    exact h (congrArg Char.toNat heq)
  · rw [Char.ofNat, dif_neg hvalid] at heq
    rw [← heq] at hc
    exact absurd hc.1 (by decide)

theorem ne_replacement : c ≠ replacement := by
  rintro rfl
  exact absurd hc.2 (by decide)

theorem not_mem_lead (hb : b.toNat ≠ c.toNat) : c ∉ (lead b).2 := by
  unfold lead
  split_ifs
  · exact fun hmem => ofNat_ne hc hb (List.mem_singleton.mp hmem).symm
  iterate 7 exact List.not_mem_nil
  exact List.mem_singleton.not.mpr (ne_replacement hc)

theorem not_mem_step (h : state.Begun) (hb : b.toNat ≠ c.toNat) : c ∉ (state.step b).2 := by
  cases state with
  | between => exact not_mem_lead hc hb
  | inside bits owed low high =>
    simp only [State.Begun, UInt8.le_iff_toNat_le, UInt8.reduceToNat] at h
    simp only [State.step]
    split_ifs with hrange howed
    · -- The last byte owed: the bits before it are not all zero.
      have hcode : bits * 0x40 + b.toNat % 0x40 ≠ c.toNat := by omega
      exact fun hmem => ofNat_ne hc hcode (List.mem_singleton.mp hmem).symm
    · exact List.not_mem_nil
    · exact List.not_mem_cons_of_ne_of_not_mem (ne_replacement hc) (not_mem_lead hc hb)

/-- Only its own byte is read as such a character. -/
theorem not_mem_read (h : state.Begun) (hbytes : ∀ b ∈ bytes, b.toNat ≠ c.toNat) :
    c ∉ state.read bytes := by
  induction bytes generalizing state with
  | nil =>
    cases state with
    | between => exact List.not_mem_nil
    | inside => exact List.mem_singleton.not.mpr (ne_replacement hc)
  | cons b bytes ih =>
    obtain ⟨hb, hbytes⟩ := List.forall_mem_cons.mp hbytes
    rw [State.read, List.mem_append, not_or]
    exact ⟨not_mem_step hc h hb, ih (begun_step h b) hbytes⟩

end

theorem not_mem_decode (h : 0x0A ∉ bytes) : '\n' ∉ decode bytes := by
  rw [decode_eq_read]
  exact not_mem_read (by decide) trivial fun b hb hfeed =>
    h ((UInt8.toNat_inj (b := 0x0A)).mp hfeed ▸ hb)

/-! ### Nothing is passed over -/

/-- A byte is written, or a character is begun. -/
theorem written_or_begun (state : State) (b : UInt8) :
    (state.step b).2 ≠ [] ∨ (state.step b).1 ≠ .between := by
  cases state with
  | between =>
    simp only [State.step, lead]
    split_ifs <;> simp
  | inside bits owed low high =>
    simp only [State.step]
    split_ifs <;> simp

theorem read_ne_nil (h : bytes ≠ [] ∨ state ≠ .between) : state.read bytes ≠ [] := by
  induction bytes generalizing state with
  | nil =>
    cases state with
    | between => simp at h
    | inside => exact List.cons_ne_nil _ _
  | cons b bytes ih =>
    rw [State.read, Ne, List.append_eq_nil_iff, not_and_or]
    exact (written_or_begun state b).imp_right fun hbegun => ih (.inr hbegun)

theorem isEmpty_decode (bytes : List UInt8) : (decode bytes).isEmpty = bytes.isEmpty := by
  cases bytes with
  | nil => rfl
  | cons b bytes =>
    rw [decode_eq_read, List.isEmpty_eq_false_iff.mpr (read_ne_nil (.inl (List.cons_ne_nil _ _)))]
    rfl

/-! ### Lines -/

/-- The carriage return at the end of a line is its last byte. -/
theorem decode_dropReturn (bytes : List UInt8) :
    decode (dropReturn 0x0D bytes) = dropReturn '\r' (decode bytes) := by
  rcases List.eq_nil_or_concat' bytes with rfl | ⟨front, b, rfl⟩
  · rfl
  · by_cases hb : b = 0x0D
    · subst hb
      rw [dropReturn_concat, decode_append_ascii (by decide)]
      exact (dropReturn_concat '\r' _).symm
    · have hlast : (front ++ [b]).getLast? ≠ some 0x0D := by
        rw [List.getLast?_concat]
        simpa using hb
      have hline : (decode (front ++ [b])).getLast? ≠ some '\r' := by
        have hbegun : State.Begun .between := trivial
        obtain ⟨written, next, hnext, hread⟩ := exists_read_append hbegun front
        rw [decode_eq_read, hread,
          List.getLast?_append_of_ne_nil _ (read_ne_nil (.inl (List.cons_ne_nil _ _)))]
        intro h
        refine not_mem_read (by decide) hnext ?_ (List.mem_of_getLast? h)
        simpa using fun hreturn => hb ((UInt8.toNat_inj (b := 0x0D)).mp hreturn)
      rw [dropReturn_of_ne hlast, dropReturn_of_ne hline]

end Utf8

/-- **Bytes have the lines of the text that they decode to.** -/
theorem Stream.textLines_eq_lines_decode (bytes : List UInt8) :
    textLines bytes = (Utf8.decode bytes).lines := by
  rw [textLines, Text.lines]
  induction bytes using lines_induction (0x0A : UInt8) with
  | last line hline =>
    rw [lines_of_not_mem hline, lines_of_not_mem (Utf8.not_mem_decode hline), Utf8.isEmpty_decode]
    split <;> rfl
  | ended line rest hline ih =>
    rw [lines_line_append hline, List.map_cons, ih, Utf8.decode_dropReturn,
      Utf8.decode_append_ascii (by decide)]
    exact (lines_line_append (Utf8.not_mem_decode hline) _).symm

end Lockstep
