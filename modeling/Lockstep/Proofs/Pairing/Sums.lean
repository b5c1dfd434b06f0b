import Lockstep.Proofs.Pairing.Conservation
import Lockstep.Proofs.Report.Counting

/-! How the findings of a run add up.

Beside a reference every row has a verdict (`verdicts_history`), and without one no row has. A trap
that is passed takes its marker off the reference, so the markers bound the detours
(`detours_history`); and every instruction takes a record as long as there is one, which bounds
what is left (`length_queue_history`). -/
namespace Lockstep
open Reference (Queue Record)

/-- A detour drops the marker that it starts with. -/
theorem Reference.Queue.Drops.one_le {address : Address} {dropped rest : Queue}
    (h : Drops address dropped rest) : 1 ≤ dropped.countP Record.isException := by
  cases h with
  | ended hmarker => exact List.countP_pos_iff.mpr ⟨_, List.mem_cons_self, hmarker⟩
  | lost hmarker _ => exact List.countP_pos_iff.mpr ⟨_, List.mem_cons_self, hmarker⟩
  | found hmarker _ _ => exact List.countP_pos_iff.mpr ⟨_, List.mem_cons_self, hmarker⟩

namespace Follower

/-- A row of the listing alone has no verdict. -/
theorem listedRow_no_verdict (index : Listing.Index) (address : Address) :
    (listedRow index address).isMatching = false ∧ (listedRow index address).isMismatching = false := by
  unfold listedRow
  split <;> exact ⟨rfl, rfl⟩

section
variable {index : Listing.Index}

theorem verdict_pairedRow (address : Address) (head : Option Record) :
    (!(pairedRow index address head).isUnlisted).toNat =
      (pairedRow index address head).isMatching.toNat +
        (pairedRow index address head).isMismatching.toNat := by
  unfold pairedRow
  split
  · cases head.any (Queue.isAt address) <;> rfl
  · rfl

/-- A row beside a reference is a match or a mismatch. -/
theorem verdicts_history (queue : Queue) (records : List Trace.Executed) :
    let findings := (history (step index) (beside queue) records).2
    findings.countP (!·.row.isUnlisted) =
      findings.countP (·.row.isMatching) + findings.countP (·.row.isMismatching) := by
  intro findings
  apply countP_eq_add
  intro finding hfinding
  obtain ⟨address, _, _, _, hpassage⟩ := exists_passage_of_mem_history hfinding
  obtain ⟨_, faced, _, _, _, hrow, _⟩ := hpassage.parts
  rw [hrow]
  exact verdict_pairedRow address faced.head?

/-- A passage with a detour leaves a marker less. -/
theorem Passage.detours {address : Address} {exhausted : Bool} {queue : Queue} {finding : Finding}
    {next : Follower} (h : Passage index address exhausted queue finding next) :
    finding.detour.isSome.toNat + next.queue.countP Record.isException ≤
      queue.countP Record.isException := by
  cases h with
  | @paired head rest hhead =>
    show 0 + rest.countP _ ≤ (head :: rest).countP _
    rw [List.countP_cons_of_neg (by simp [hhead])]
    omega
  | @resumed head dropped rest hdrops =>
    show 1 + rest.countP _ ≤ (dropped ++ head :: rest).countP _
    rw [List.countP_append, List.countP_cons]
    have hone := hdrops.one_le
    omega
  | lost hdrops => exact hdrops.one_le
  | dry => exact Nat.le_refl 0

theorem detours_history (queue : Queue) (exhausted : Bool) (records : List Trace.Executed) :
    (history (step index) ⟨some queue, exhausted⟩ records).2.countP (·.detour.isSome) ≤
      queue.countP Record.isException := by
  induction records generalizing queue exhausted with
  | nil => exact Nat.zero_le _
  | cons record records ih =>
    have hpassage := step_passage index queue exhausted record
    have hdetours := hpassage.detours
    obtain ⟨rest, exhausted', hnext⟩ := hpassage.exists_some
    rw [hnext] at hdetours
    rw [history_cons, countP_cons_toNat, hnext]
    exact Nat.le_trans (Nat.add_le_add_left (ih rest exhausted') _) hdetours

/-- A passage takes a record if there is one. -/
theorem Passage.length_queue {address : Address} {exhausted : Bool} {queue : Queue}
    {finding : Finding} {next : Follower} (h : Passage index address exhausted queue finding next) :
    next.queue.length ≤ queue.length - 1 := by
  obtain ⟨dropped, faced, hqueue, _, _, _, hnext⟩ := h.parts
  rw [hnext, hqueue, List.length_tail, List.length_append]
  omega

theorem length_queue_history (queue : Queue) (exhausted : Bool) (records : List Trace.Executed) :
    (history (step index) ⟨some queue, exhausted⟩ records).1.queue.length ≤
      queue.length - records.length := by
  induction records generalizing queue exhausted with
  | nil => exact Nat.le_refl _
  | cons record records ih =>
    have hpassage := step_passage index queue exhausted record
    have hlength : (step index ⟨some queue, exhausted⟩ record).1.queue.length ≤ queue.length - 1 :=
      hpassage.length_queue
    obtain ⟨rest, exhausted', hnext⟩ := hpassage.exists_some
    rw [hnext] at hlength
    rw [history_cons, hnext, List.length_cons, Nat.add_comm, Nat.sub_add_eq]
    exact Nat.le_trans (ih rest exhausted') (Nat.sub_le_sub_right hlength _)

/-- No instruction adds to what is left of a reference. -/
theorem left_history_le (follower : Follower) (records : List Trace.Executed) :
    (history (step index) follower records).1.left ≤ follower.left := by
  induction records generalizing follower with
  | nil => exact Nat.le_refl _
  | cons record records ih =>
    have hstep : (step index follower record).1.left ≤ follower.left := by
      obtain ⟨reference, exhausted⟩ := follower
      cases reference with
      | none => exact Nat.le_refl _
      | some queue =>
        rw [left_eq_length_queue]
        exact Nat.le_trans (step_passage index queue exhausted record).length_queue (Nat.sub_le _ 1)
    rw [history_cons]
    exact Nat.le_trans (ih _) hstep

end

end Follower

end Lockstep
