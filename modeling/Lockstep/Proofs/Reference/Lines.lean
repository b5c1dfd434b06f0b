import Lockstep.Reference.Queue

/-! What the lines of a reference trace load.

A line with five words or more is a trap's if its third word has the mark of one, and else the
line of the instruction at the address that the word names; a line that is neither adds nothing
to the queue. So the records of a trace are those of its lines, one after the other. -/
namespace Lockstep.Reference

/-! ### One line -/

/-- The line of a trap. -/
def IsTrap (line : Text) : Prop :=
  5 ≤ line.words.length ∧
    ∃ word ∈ line.words[2]?, Text.includes Record.exceptionMark word = true

/-- The line of the instruction at an address. -/
def IsInstruction (address : Address) (line : Text) : Prop :=
  5 ≤ line.words.length ∧
    ∃ word ∈ line.words[2]?, Text.includes Record.exceptionMark word = false ∧
      Address.read? word = some address

namespace Record

theorem read_of_short {line : Text} (h : line.words.length < 5) : read line = .ok none := by
  unfold read
  split
  · next hwords =>
    rw [hwords] at h
    simp only [List.length_cons] at h
    omega
  · rfl

/-- The third word of a long line decides. -/
theorem read_of_long {line word : Text} (hlong : 5 ≤ line.words.length)
    (hword : line.words[2]? = some word) :
    read line = (readKind word).map fun kind => some ⟨kind, line.trim⟩ := by
  unfold read
  split
  · next hwords =>
    rw [hwords] at hword
    obtain rfl := Option.some.inj hword
    rfl
  · next hshort =>
    match hwords : line.words with
    | [] | [_] | [_, _] | [_, _, _] | [_, _, _, _] => simp [hwords] at hlong
    | first :: second :: third :: fourth :: fifth :: more =>
      exact absurd hwords (hshort first second third fourth fifth more)

theorem read_of_isTrap {line : Text} (h : IsTrap line) :
    read line = .ok (some ⟨.exception, line.trim⟩) := by
  obtain ⟨hlong, word, hword, hmark⟩ := h
  rw [read_of_long hlong hword, readKind, if_pos hmark]
  rfl

theorem read_of_isInstruction {address : Address} {line : Text} (h : IsInstruction address line) :
    read line = .ok (some ⟨.instruction address, line.trim⟩) := by
  obtain ⟨hlong, word, hword, hmark, haddress⟩ := h
  rw [read_of_long hlong hword, readKind, hmark, haddress]
  rfl

end Record

/-! ### All lines -/

namespace Queue

theorem records_append (front back : List Text) :
    records (front ++ back) = records front ++ records back :=
  List.filterMap_append

theorem records_cons_of_none {line : Text} (h : Record.read line = .ok none)
    (lines : List Text) : records (line :: lines) = records lines := by
  simp [records, h, Except.toOption]

theorem records_cons_of_some {line : Text} {record : Record}
    (h : Record.read line = .ok (some record)) (lines : List Text) :
    records (line :: lines) = record :: records lines := by
  simp [records, h, Except.toOption]

/-- Lines of instructions away from an address load one record each, none of them at it. -/
theorem records_of_away {address : Address} {lines : List Text}
    (h : ∀ line ∈ lines, ∃ other, other ≠ address ∧ IsInstruction other line) :
    (records lines).length = lines.length ∧
      ∀ record ∈ records lines, isAt address record = false := by
  induction lines with
  | nil => exact ⟨rfl, by simp [records]⟩
  | cons line lines ih =>
    obtain ⟨⟨other, hother, hline⟩, hlines⟩ := List.forall_mem_cons.mp h
    obtain ⟨hlength, haway⟩ := ih hlines
    rw [records_cons_of_some (Record.read_of_isInstruction hline)]
    refine ⟨by rw [List.length_cons, List.length_cons, hlength], ?_⟩
    refine List.forall_mem_cons.mpr ⟨?_, haway⟩
    simp [isAt, Record.address?, hother]

end Queue

end Lockstep.Reference
