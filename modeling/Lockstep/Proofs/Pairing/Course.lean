import Lockstep.History
import Lockstep.Pairing
import Lockstep.Proofs.Reference.Detour

/-! A run beside a reference, moment by moment.

`Passage` lists all that one executed instruction can do to the reference, and `step_iff` says
that a step does just that; later proofs cite it and never unfold `step`. Over a run each
executed instruction is a moment: the reference before it, what was found, and the reference
after it. The records that a moment took are what is gone from the reference between the two
(`Moment.taken`). -/
namespace Lockstep
open Reference (Queue Record)

namespace Follower

def beside (queue : Queue) : Follower := { reference := some queue }

/-- The records still to come; none without a reference. -/
def queue (follower : Follower) : Queue := follower.reference.getD []

theorem left_eq_length_queue (follower : Follower) : follower.left = follower.queue.length := by
  obtain ⟨reference, exhausted⟩ := follower
  cases reference <;> rfl

/-! ### One step -/

/-- What an executed instruction can do: to a reference, with a finding, to the follower after
it. -/
inductive Passage (index : Listing.Index) (address : Address) (exhausted : Bool) :
    Queue → Finding → Follower → Prop where
  | paired {head : Record} {rest : Queue} : head.isException = false →
      Passage index address exhausted (head :: rest)
        { row := pairedRow index address (some head) } ⟨some rest, exhausted⟩
  /-- A detour leads to the address, and the record there is used up. -/
  | resumed {head : Record} {dropped rest : Queue} :
      Queue.Drops address dropped (head :: rest) →
      Passage index address exhausted (dropped ++ head :: rest)
        { row := pairedRow index address (some head), detour := some ⟨dropped.length, true⟩ }
        ⟨some rest, exhausted⟩
  | lost {dropped : Queue} : Queue.Drops address dropped [] →
      Passage index address exhausted dropped
        { row := pairedRow index address none, detour := some ⟨dropped.length, false⟩
          exhausted := !exhausted } ⟨some [], true⟩
  | dry : Passage index address exhausted []
      { row := pairedRow index address none, exhausted := !exhausted } ⟨some [], true⟩

/-- A step beside a reference, by what passing a trap leaves of it. -/
theorem step_some (index : Listing.Index) (queue : Queue) (exhausted : Bool)
    (record : Trace.Executed) :
    step index ⟨some queue, exhausted⟩ record =
      (⟨some (queue.passTrap record.address).2.tail,
          exhausted || (queue.passTrap record.address).2.isEmpty⟩,
        { row := pairedRow index record.address (queue.passTrap record.address).2.head?
          detour := (queue.passTrap record.address).1
          exhausted := (queue.passTrap record.address).2.isEmpty && !exhausted }) := rfl

theorem Passage.step_eq {index : Listing.Index} {record : Trace.Executed} {exhausted : Bool}
    {queue : Queue} {finding : Finding} {next : Follower}
    (h : Passage index record.address exhausted queue finding next) :
    step index ⟨some queue, exhausted⟩ record = (next, finding) := by
  rw [step_some]
  cases h with
  | paired hhead =>
    rw [Queue.passTrap_of_not_isException (by simpa using hhead)]
    simp
  | resumed hdrops =>
    rw [Queue.passTrap_of_drops hdrops]
    simp
  | lost hdrops =>
    have hpass := Queue.passTrap_of_drops hdrops
    rw [List.append_nil] at hpass
    rw [hpass]
    simp
  | dry => simp [Queue.passTrap]

theorem pairedRow_of_isAt {index : Listing.Index} {address : Address} {head : Record}
    {known : Listing.Instruction} (hknown : index.instruction? address = some known)
    (hat : Queue.isAt address head = true) :
    pairedRow index address (some head) = .paired .matching known.text (some head) := by
  rw [pairedRow, hknown, Option.any_some, hat]
  rfl

/-- Beside a queue with an instruction in front, one executed at its address matches. -/
theorem step_of_isAt {index : Listing.Index} {record : Trace.Executed} {head : Record}
    {known : Listing.Instruction} (hknown : index.instruction? record.address = some known)
    (hat : Queue.isAt record.address head = true) (rest : Queue) (exhausted : Bool) :
    step index ⟨some (head :: rest), exhausted⟩ record =
      (⟨some rest, exhausted⟩, { row := .paired .matching known.text (some head) }) := by
  rw [(Passage.paired (Queue.isException_of_isAt hat)).step_eq, pairedRow_of_isAt hknown hat]

theorem step_passage (index : Listing.Index) (queue : Queue) (exhausted : Bool)
    (record : Trace.Executed) :
    Passage index record.address exhausted queue (step index ⟨some queue, exhausted⟩ record).2
      (step index ⟨some queue, exhausted⟩ record).1 := by
  have of_passage : ∀ finding next, Passage index record.address exhausted queue finding next →
      Passage index record.address exhausted queue (step index ⟨some queue, exhausted⟩ record).2
        (step index ⟨some queue, exhausted⟩ record).1 := by
    intro finding next h
    rw [h.step_eq]
    exact h
  rcases Queue.passTrap_cases record.address queue with ⟨_, hhead⟩ | ⟨dropped, rest, rfl, hdrops, _⟩
  · cases queue with
    | nil => exact of_passage _ _ .dry
    | cons head rest => exact of_passage _ _ (.paired (hhead head rfl))
  · cases rest with
    | nil =>
      rw [List.append_nil] at of_passage ⊢
      exact of_passage _ _ (.lost hdrops)
    | cons head rest => exact of_passage _ _ (.resumed hdrops)

/-- **A step beside a reference is a passage, and which one is fixed.** -/
theorem step_iff (index : Listing.Index) (queue : Queue) (exhausted : Bool)
    (record : Trace.Executed) (finding : Finding) (next : Follower) :
    step index ⟨some queue, exhausted⟩ record = (next, finding) ↔
      Passage index record.address exhausted queue finding next := by
  constructor
  · intro h
    have hpassage := step_passage index queue exhausted record
    rw [h] at hpassage
    exact hpassage
  · exact Passage.step_eq

/-- A passage ends beside a reference again, so a run is made of passages. -/
theorem Passage.exists_some {index : Listing.Index} {address : Address} {exhausted : Bool}
    {queue : Queue} {finding : Finding} {next : Follower}
    (h : Passage index address exhausted queue finding next) :
    ∃ rest exhausted', next = ⟨some rest, exhausted'⟩ := by
  cases h <;> exact ⟨_, _, rfl⟩

end Follower

/-! ### Moments -/

/-- One executed instruction of a run. -/
structure Moment where
  record : Trace.Executed
  before : Queue
  finding : Finding
  after : Queue

namespace Moment

/-- The reference that the instruction faces, once a trap is passed. -/
def faced (moment : Moment) : Queue := (moment.before.passTrap moment.record.address).2

def dropped (moment : Moment) : Queue :=
  moment.before.take (moment.before.length - moment.faced.length)

def head? (moment : Moment) : Option Record := moment.faced.head?

/-- All that it took from the reference, in order. -/
def taken (moment : Moment) : Queue := moment.dropped ++ moment.head?.toList

end Moment

namespace Follower

def moment (index : Listing.Index) (follower : Follower) (record : Trace.Executed) : Moment where
  record := record
  before := follower.queue
  finding := (follower.step index record).2
  after := (follower.step index record).1.queue

def course (index : Listing.Index) : Follower → List Trace.Executed → List Moment
  | _, [] => []
  | follower, record :: records =>
    follower.moment index record :: course index (follower.step index record).1 records

/-- The findings of a run's moments are its answers. -/
theorem map_finding_course (index : Listing.Index) (follower : Follower)
    (records : List Trace.Executed) :
    (course index follower records).map Moment.finding =
      (history (step index) follower records).2 := by
  induction records generalizing follower with
  | nil => rfl
  | cons record records ih => simp [course, history_cons, moment, ih]

/-- Beside a reference every moment of a run is a step beside one. -/
theorem exists_of_mem_course {index : Listing.Index} {queue : Queue} {exhausted : Bool}
    {records : List Trace.Executed} {m : Moment}
    (h : m ∈ course index ⟨some queue, exhausted⟩ records) :
    ∃ before exhausted' record, m = moment index ⟨some before, exhausted'⟩ record := by
  induction records generalizing queue exhausted with
  | nil => cases h
  | cons record records ih =>
    rcases List.mem_cons.mp h with rfl | h
    · exact ⟨queue, exhausted, record, rfl⟩
    · obtain ⟨rest, exhausted', hnext⟩ := (step_passage index queue exhausted record).exists_some
      rw [hnext] at h
      exact ih h

/-- Every finding of a run beside a reference is that of a passage. -/
theorem exists_passage_of_mem_history {index : Listing.Index} {queue : Queue} {exhausted : Bool}
    {records : List Trace.Executed} {finding : Finding}
    (h : finding ∈ (history (step index) ⟨some queue, exhausted⟩ records).2) :
    ∃ address exhausted' before next, Passage index address exhausted' before finding next := by
  rw [← map_finding_course, List.mem_map] at h
  obtain ⟨m, hm, rfl⟩ := h
  obtain ⟨before, exhausted', record, rfl⟩ := exists_of_mem_course hm
  exact ⟨_, _, _, _, step_passage index before exhausted' record⟩

/-- Without a reference a finding is a row of the listing, and that is all of a run. -/
theorem history_static (index : Listing.Index) (records : List Trace.Executed) :
    history (step index) {} records =
      ({}, records.map fun record => { row := listedRow index record.address }) := by
  induction records with
  | nil => rfl
  | cons record records ih =>
    rw [history_cons, show (step index {} record).1 = {} from rfl, ih]
    rfl

end Follower

end Lockstep
