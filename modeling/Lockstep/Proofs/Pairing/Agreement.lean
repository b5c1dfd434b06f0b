import Lockstep.Proofs.Pairing.Course
import Lockstep.Proofs.Report.Counting

/-! When a log agrees with its reference.

A log agrees if each executed instruction is in the listing and at the address of the record it
is paired with. That is so exactly if the reference falls into one stage for each instruction
and a rest (`Decomposes`): a stage is the instruction's record behind a detour, and a detour is
nothing, or a trap marker, one record whatever it is, and records away from the address.
`all_matching_iff` says so, and that the findings then tell the stages. -/
namespace Lockstep
open Reference (Queue Record Detour)

/-! ### Stages of a reference -/

/-- The part of a reference that belongs to one executed instruction it agrees with. -/
structure Stage where
  address : Address
  detour : Queue
  /-- The record at the address. -/
  arrival : Record

namespace Stage

def records (stage : Stage) : Queue := stage.detour ++ [stage.arrival]

/-- A way round a trap that does not come by the address. -/
def RoundTrap (address : Address) (detour : Queue) : Prop :=
  ∃ marker detail others, detour = marker :: detail :: others ∧ marker.kind = .exception ∧
    ∀ record ∈ others, record.kind ≠ .instruction address

structure Sound (stage : Stage) : Prop where
  detour : stage.detour = [] ∨ RoundTrap stage.address stage.detour
  arrival : stage.arrival.kind = .instruction stage.address

/-- What is found of a stage's detour. -/
def found (stage : Stage) : Option Detour :=
  if stage.detour = [] then none else some ⟨stage.detour.length, true⟩

/-- What the stage's instruction finds. -/
def finding (index : Listing.Index) (stage : Stage) : Finding where
  row := Follower.pairedRow index stage.address (some stage.arrival)
  detour := stage.found

end Stage

/-- A reference in stages, one for each of the addresses, and what is left behind them. -/
structure Decomposes (addresses : List Address) (queue : Queue) (stages : List Stage)
    (rest : Queue) : Prop where
  addresses : stages.map Stage.address = addresses
  sound : ∀ stage ∈ stages, stage.Sound
  whole : queue = stages.flatMap Stage.records ++ rest

theorem decomposes_nil (queue : Queue) : Decomposes [] queue [] queue := ⟨rfl, by simp, rfl⟩

theorem decomposes_cons {stage : Stage} {addresses : List Address} {queue rest : Queue}
    {stages : List Stage} (hstage : stage.Sound) (h : Decomposes addresses queue stages rest) :
    Decomposes (stage.address :: addresses) (stage.records ++ queue) (stage :: stages) rest where
  addresses := by rw [List.map_cons, h.addresses]
  sound := List.forall_mem_cons.mpr ⟨hstage, h.sound⟩
  whole := by rw [h.whole, List.flatMap_cons, List.append_assoc]

namespace Follower

/-! ### One stage -/

theorem isMatching_pairedRow (index : Listing.Index) (address : Address) (head : Option Record) :
    (pairedRow index address head).isMatching =
      ((index.instruction? address).isSome && head.any (Queue.isAt address)) := by
  unfold pairedRow
  cases index.instruction? address with
  | none => rfl
  | some known => cases head.any (Queue.isAt address) <;> rfl

/-- The stage of the instruction is passed in one step. -/
theorem Passage.of_sound (index : Listing.Index) {stage : Stage} (h : stage.Sound)
    (exhausted : Bool) (rest : Queue) :
    Passage index stage.address exhausted (stage.records ++ rest) (stage.finding index)
      ⟨some rest, exhausted⟩ := by
  obtain ⟨address, detour, arrival⟩ := stage
  obtain ⟨hdetour, harrival⟩ := h
  have hat : Queue.isAt address arrival = true := Queue.isAt_eq_true.mpr harrival
  rw [Stage.records, List.append_assoc]
  rcases hdetour with hdetour | ⟨marker, detail, others, hdetour, hmarker, hothers⟩
  · obtain rfl : detour = [] := hdetour
    exact .paired (Queue.isException_of_isAt hat)
  · obtain rfl : detour = marker :: detail :: others := hdetour
    have haway : ∀ record ∈ others, Queue.isAt address record = false := by
      intro record hrecord
      rw [← Bool.not_eq_true, Queue.isAt_eq_true]
      exact hothers record hrecord
    exact .resumed (.found (by simp [Record.isException, hmarker]) haway hat)

/-- A step that matches passes a stage. -/
theorem Passage.exists_stage {index : Listing.Index} {address : Address} {exhausted : Bool}
    {queue : Queue} {finding : Finding} {next : Follower}
    (h : Passage index address exhausted queue finding next)
    (hmatching : finding.row.isMatching = true) :
    (index.instruction? address).isSome = true ∧ ∃ (stage : Stage) (rest : Queue),
      stage.address = address ∧ stage.Sound ∧ queue = stage.records ++ rest ∧
      next = ⟨some rest, exhausted⟩ := by
  cases h with
  | @paired head rest hhead =>
    rw [isMatching_pairedRow, Bool.and_eq_true] at hmatching
    exact ⟨hmatching.1, ⟨address, [], head⟩, rest, rfl,
      ⟨.inl rfl, Queue.isAt_eq_true.mp hmatching.2⟩, rfl, rfl⟩
  | @resumed head dropped rest hdrops =>
    rw [isMatching_pairedRow, Bool.and_eq_true] at hmatching
    refine ⟨hmatching.1, ⟨address, dropped, head⟩, rest, rfl,
      ⟨.inr ?_, Queue.isAt_eq_true.mp hmatching.2⟩, by simp [Stage.records], rfl⟩
    cases hdrops with
    | @found marker detail _ others _ hmarker haway _ =>
      refine ⟨marker, detail, others, rfl, by simpa [Record.isException] using hmarker, ?_⟩
      intro record hrecord hkind
      have := haway record hrecord
      rw [Queue.isAt_eq_true.mpr hkind] at this
      cases this
  | lost _ =>
    rw [isMatching_pairedRow] at hmatching
    simp at hmatching
  | dry =>
    rw [isMatching_pairedRow] at hmatching
    simp at hmatching

/-! ### Runs -/

/-- Over a reference in stages every instruction passes its own. -/
theorem history_of_decomposes (index : Listing.Index) {records : List Trace.Executed}
    {queue rest : Queue} {stages : List Stage}
    (h : Decomposes (records.map (·.address)) queue stages rest) (exhausted : Bool) :
    history (step index) ⟨some queue, exhausted⟩ records =
      (⟨some rest, exhausted⟩, stages.map (Stage.finding index)) := by
  obtain ⟨haddresses, hsound, rfl⟩ := h
  induction stages generalizing records with
  | nil =>
    obtain rfl : records = [] := by simpa using haddresses.symm
    rfl
  | cons stage stages ih =>
    cases records with
    | nil => cases haddresses
    | cons record records =>
      obtain ⟨hrecord, haddresses⟩ := List.cons.inj haddresses
      obtain ⟨hstage, hsound⟩ := List.forall_mem_cons.mp hsound
      have hpassage := Passage.of_sound index hstage exhausted (stages.flatMap Stage.records ++ rest)
      rw [hrecord] at hpassage
      rw [List.flatMap_cons, List.append_assoc, history_cons, hpassage.step_eq,
        ih haddresses hsound]
      rfl

/-- A run that matches throughout has passed stages only. -/
theorem decomposes_of_matching {index : Listing.Index} {records : List Trace.Executed}
    {queue : Queue} {exhausted : Bool}
    (h : ∀ finding ∈ (history (step index) ⟨some queue, exhausted⟩ records).2,
      finding.row.isMatching = true) :
    (∀ record ∈ records, (index.instruction? record.address).isSome = true) ∧
      ∃ stages rest, Decomposes (records.map (·.address)) queue stages rest := by
  induction records generalizing queue with
  | nil => exact ⟨by simp, [], queue, decomposes_nil queue⟩
  | cons record records ih =>
    rw [history_cons] at h
    obtain ⟨hhead, htail⟩ := List.forall_mem_cons.mp h
    obtain ⟨hlisted, stage, rest, haddress, hstage, rfl, hnext⟩ :=
      (step_passage index queue exhausted record).exists_stage hhead
    rw [hnext] at htail
    obtain ⟨hmore, stages, last, hrest⟩ := ih htail
    refine ⟨List.forall_mem_cons.mpr ⟨hlisted, hmore⟩, stage :: stages, last, ?_⟩
    rw [List.map_cons, ← haddress]
    exact decomposes_cons hstage hrest

/-- Beside a reference a finding matches if it adds to neither counter of faults. -/
theorem isMatching_iff_of_mem_history {index : Listing.Index} {queue : Queue} {exhausted : Bool}
    {records : List Trace.Executed} {finding : Finding}
    (h : finding ∈ (history (step index) ⟨some queue, exhausted⟩ records).2) :
    finding.row.isMatching = true ↔
      finding.row.isUnlisted = false ∧ finding.row.isMismatching = false := by
  obtain ⟨address, _, _, _, hpassage⟩ := exists_passage_of_mem_history h
  obtain ⟨head, hrow⟩ : ∃ head, finding.row = pairedRow index address head := by
    cases hpassage <;> exact ⟨_, rfl⟩
  rw [hrow, pairedRow]
  cases index.instruction? address with
  | none => simp [Row.isMatching, Row.isUnlisted]
  | some known =>
    cases head.any (Queue.isAt address) <;>
      simp [Row.isMatching, Row.isUnlisted, Row.isMismatching, Verdict.of]

/-- **A log agrees with its reference exactly if the reference falls into its stages.** Then the
headline is clean, each detour is found and counted, the reference is never found empty, and
what is left is what follows the last stage. -/
theorem all_matching_iff (index : Listing.Index) (queue : Queue) (records : List Trace.Executed) :
    let run := history (step index) (beside queue) records
    let agrees := ∀ finding ∈ run.2, finding.row.isMatching = true
    (agrees ↔ (∀ record ∈ records, (index.instruction? record.address).isSome = true) ∧
      ∃ stages rest, Decomposes (records.map (·.address)) queue stages rest) ∧
    (agrees ↔ CommandLine.isClean (run.2.foldl Report.Tally.countFinding {}) = true) ∧
    ∀ stages rest, Decomposes (records.map (·.address)) queue stages rest →
      run.2.map Finding.detour = stages.map Stage.found ∧
      (∀ finding ∈ run.2, finding.exhausted = false) ∧ run.1.left = rest.length := by
  intro run agrees
  have of_stages : ∀ {stages rest}, Decomposes (records.map (·.address)) queue stages rest →
      run = (⟨some rest, false⟩, stages.map (Stage.finding index)) :=
    fun h => history_of_decomposes index h false
  refine ⟨⟨decomposes_of_matching, ?_⟩, ?_, ?_⟩
  · intro hstaged finding hfinding
    obtain ⟨hlisted, stages, rest, h⟩ := hstaged
    rw [of_stages h, List.mem_map] at hfinding
    obtain ⟨stage, hstage, rfl⟩ := hfinding
    have hmem : stage.address ∈ records.map (·.address) :=
      h.addresses ▸ List.mem_map_of_mem hstage
    obtain ⟨record, hrecord, haddress⟩ := List.mem_map.mp hmem
    have hat := Queue.isAt_eq_true.mpr (h.sound stage hstage).arrival
    rw [Stage.finding, isMatching_pairedRow, ← haddress, hlisted record hrecord, haddress]
    simpa using hat
  · rw [Report.Tally.isClean_foldl_countFinding]
    exact forall₂_congr fun finding hfinding => isMatching_iff_of_mem_history hfinding
  · intro stages rest h
    rw [of_stages h]
    exact ⟨by simp [Function.comp_def, Stage.finding], by simp [Stage.finding], rfl⟩

end Follower

end Lockstep
