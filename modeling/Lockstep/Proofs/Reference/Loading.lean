import Mathlib.Data.List.TakeWhile
import Lockstep.Proofs.Reference.Detour
import Lockstep.Proofs.Reference.Lines

/-! A reference loaded line by line, from a start on.

A loader takes one line at a time and knows whether it has reached the start (`Loading`); until
then it drops every record, trap markers too. What it has loaded in the end is the queue of the
lines (`queue_foldl_line`), so the queue has the records of the lines in order (`map_ofLines`), and
with a start it has them without the longest front that has no instruction there
(`exists_front`). -/
namespace Lockstep.Reference

/-- Whether what was read of a line is a record. -/
def Record.isFound : Except Malformed (Option Record) → Bool
  | .ok (some _) => true
  | _ => false

/-- A loader between two lines. -/
structure Loading where
  /-- Whether the start was reached. -/
  reached : Bool
  queue : Queue

namespace Loading

/-- Without a start there is nothing to wait for. -/
def begin (start : Option Address) : Loading := ⟨start.isNone, []⟩

/-- A line that holds no record, or a malformed one, is passed over, and so is a record before
the start. -/
def line (start : Option Address) (loading : Loading) (line : Text) : Loading :=
  match Record.read line with
  | .error _ => loading
  | .ok none => loading
  | .ok (some record) =>
    if loading.reached || start.any (Queue.isAt · record) then ⟨true, loading.queue ++ [record]⟩
    else loading

end Loading

/-- A line holds a record, or it does not matter. -/
theorem Record.read_cases (line : Text) :
    (∃ record, Record.read line = .ok (some record)) ∨
      Record.isFound (Record.read line) = false ∧ ∀ lines,
        Queue.records (line :: lines) = Queue.records lines := by
  cases hread : Record.read line with
  | error cause => exact .inr ⟨rfl, fun _ => List.filterMap_cons_none (by rw [hread]; rfl)⟩
  | ok found =>
    cases found with
    | none => exact .inr ⟨rfl, Queue.records_cons_of_none hread⟩
    | some record => exact .inl ⟨record, rfl⟩

namespace Loading

theorem line_of_isFound {start : Option Address} {loading : Loading} {line : Text}
    (h : Record.isFound (Record.read line) = false) : loading.line start line = loading := by
  unfold Loading.line
  split
  · rfl
  · rfl
  · next record hread =>
    rw [hread] at h
    cases h

theorem line_of_read {start : Option Address} {loading : Loading} {line : Text} {record : Record}
    (h : Record.read line = .ok (some record)) : loading.line start line =
      if loading.reached || start.any (Queue.isAt · record) then ⟨true, loading.queue ++ [record]⟩
      else loading := by
  rw [Loading.line, h]

/-- From the start on every record is loaded. -/
theorem foldl_line_of_reached (start : Option Address) (lines : List Text) (queue : Queue) :
    (lines.foldl (Loading.line start) ⟨true, queue⟩).queue = queue ++ Queue.records lines := by
  induction lines generalizing queue with
  | nil => exact (List.append_nil queue).symm
  | cons line lines ih =>
    rw [List.foldl_cons]
    rcases Record.read_cases line with ⟨record, hread⟩ | ⟨hvoid, hrecords⟩
    · rw [line_of_read hread, Bool.true_or, if_pos rfl, ih, Queue.records_cons_of_some hread,
        List.append_assoc, List.singleton_append]
    · rw [line_of_isFound hvoid, ih, hrecords]

/-- Before it no record is. -/
theorem foldl_line_of_waiting (address : Address) (lines : List Text) :
    (lines.foldl (Loading.line (some address)) ⟨false, []⟩).queue =
      (Queue.records lines).dropWhile (!Queue.isAt address ·) := by
  induction lines with
  | nil => rfl
  | cons line lines ih =>
    rw [List.foldl_cons]
    rcases Record.read_cases line with ⟨record, hread⟩ | ⟨hvoid, hrecords⟩
    · rw [line_of_read hread, Queue.records_cons_of_some hread, Bool.false_or, Option.any_some]
      cases hat : Queue.isAt address record with
      | true => simp [foldl_line_of_reached, hat]
      | false => simp [ih, hat]
    · rw [line_of_isFound hvoid, ih, hrecords]

/-- **What is loaded line by line is the queue of the lines.** -/
theorem queue_foldl_line (start : Option Address) (lines : List Text) :
    (lines.foldl (Loading.line start) (begin start)).queue = Queue.ofLines start lines := by
  cases start with
  | none => exact foldl_line_of_reached none lines []
  | some address => exact foldl_line_of_waiting address lines

end Loading

namespace Queue

theorem ne_instruction_iff {address : Address} {record : Record} :
    record.kind ≠ .instruction address ↔ (!isAt address record) = true := by
  rw [Bool.not_eq_true', ← Bool.not_eq_true, isAt_eq_true]

/-- The records of lines are what was read of them and is a record, in order. -/
theorem map_ofLines (lines : List Text) :
    (ofLines none lines).map (fun record => .ok (some record)) =
      (lines.map Record.read).filter Record.isFound := by
  show (records lines).map _ = _
  induction lines with
  | nil => rfl
  | cons line lines ih =>
    rw [List.map_cons]
    rcases Record.read_cases line with ⟨record, hread⟩ | ⟨hvoid, hrecords⟩
    · rw [records_cons_of_some hread, List.map_cons, ih, hread, List.filter_cons_of_pos rfl]
    · rw [hrecords, ih, List.filter_cons_of_neg (Bool.not_eq_true _ ▸ hvoid)]

/-- An instruction at the start is in front of what is loaded from there. -/
theorem kind_head?_ofLines {start : Address} {lines : List Text} :
    ∀ head ∈ (ofLines (some start) lines).head?, head.kind = .instruction start := by
  intro head hhead
  have hfront := List.head?_dropWhile_not (!isAt start ·) (records lines)
  rw [show (records lines).dropWhile (!isAt start ·) = ofLines (some start) lines from rfl,
    Option.mem_def.mp hhead] at hfront
  exact isAt_eq_true.mp (by simpa using hfront)

/-- A start takes away the longest front that has no instruction there, and nothing else. -/
theorem exists_front (start : Address) (lines : List Text) :
    ∃ front, ofLines none lines = front ++ ofLines (some start) lines ∧
      (∀ record ∈ front, record.kind ≠ .instruction start) ∧
      ∀ other, other <+: ofLines none lines →
        (∀ record ∈ other, record.kind ≠ .instruction start) → other <+: front := by
  refine ⟨(records lines).takeWhile (!isAt start ·), List.takeWhile_append_dropWhile.symm, ?_, ?_⟩
  · intro record hrecord
    have haway := List.mem_takeWhile_imp hrecord
    exact ne_instruction_iff.mpr haway
  · rintro other ⟨rest, hother⟩ haway
    have haway : ∀ record ∈ other, (!isAt start record) = true :=
      fun record hrecord => ne_instruction_iff.mp (haway record hrecord)
    rw [show records lines = other ++ rest from hother.symm, List.takeWhile_append_of_pos haway]
    exact List.prefix_append other _

theorem ofLines_eq_nil_iff {start : Address} {lines : List Text} :
    ofLines (some start) lines = [] ↔
      ∀ record ∈ ofLines none lines, record.kind ≠ .instruction start := by
  show (records lines).dropWhile _ = [] ↔ _
  rw [List.dropWhile_eq_nil_iff]
  exact forall₂_congr fun record _ => ne_instruction_iff.symm

end Queue

end Lockstep.Reference
