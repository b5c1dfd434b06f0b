import Lockstep.CallStack
import Lockstep.History

/-! Runs of a watch: the stack along the way, and the answer to the query.

The stack goes by the addresses alone (`stack_history`). The query is answered at the first
record that carries its tick, and never again (`snapshot_history`). -/
namespace Lockstep

namespace Watch

/-- A watch before the first record. -/
def rooted (root : Text) (query : Option Tick) : Watch := { stack := { root }, query }

def stackAfter (index : Listing.Index) (stack : CallStack) (addresses : List Address) : CallStack :=
  addresses.foldl (fun stack address => move index address stack) stack

/-- Whether a record carries the tick asked for. -/
def carries (query : Option Tick) (record : Trace.Executed) : Bool :=
  record.tick.isSome && record.tick == query

section
variable (index : Listing.Index) (watch : Watch)

theorem stack_history (records : List Trace.Executed) :
    (history (step index) watch records).1.stack =
      stackAfter index watch.stack (records.map (·.address)) := by
  induction records generalizing watch with
  | nil => rfl
  | cons record records ih =>
    rw [history_cons, ih]
    rfl

theorem query_history (records : List Trace.Executed) :
    (history (step index) watch records).1.query = watch.query := by
  induction records generalizing watch with
  | nil => rfl
  | cons record records ih =>
    rw [history_cons, ih]
    rfl

/-- A record answers if it carries the tick and no record before it did. -/
theorem due?_eq (record : Trace.Executed) : watch.due? record =
    if !watch.answered && carries watch.query record then record.tick else none := by
  obtain ⟨stack, query, answered⟩ := watch
  unfold due? carries
  cases answered with
  | true => rfl
  | false =>
    by_cases htick : record.tick = query
    · subst htick
      cases record.tick <;> simp
    · simp [htick, Ne.symm htick]

theorem isSome_due? (record : Trace.Executed) :
    (watch.due? record).isSome = (!watch.answered && carries watch.query record) := by
  rw [due?_eq]
  by_cases h : (!watch.answered && carries watch.query record) = true
  · rw [if_pos h, h]
    exact (Bool.and_eq_true_iff.mp (Bool.and_eq_true_iff.mp h).2).1
  · rw [if_neg h, Bool.not_eq_true _ |>.mp h]
    rfl

theorem answered_step (record : Trace.Executed) :
    (step index watch record).1.answered = (watch.answered || carries watch.query record) := by
  show (watch.answered || (watch.due? record).isSome) = _
  rw [isSome_due?]
  cases watch.answered <;> rfl

theorem answered_history (records : List Trace.Executed) :
    (history (step index) watch records).1.answered =
      (watch.answered || records.any (carries watch.query)) := by
  induction records generalizing watch with
  | nil => simp
  | cons record records ih =>
    rw [history_cons, ih, answered_step, List.any_cons, Bool.or_assoc]
    rfl

/-- There is a snapshot exactly if a record carries the tick, and no second one. -/
theorem snapshots_history (records : List Trace.Executed) :
    ((history (step index) watch records).2.filterMap (·.snapshot)).length =
      (!watch.answered && records.any (carries watch.query)).toNat := by
  induction records generalizing watch with
  | nil => simp
  | cons record records ih =>
    have hrest := ih (step index watch record).1
    rw [answered_step, show (step index watch record).1.query = watch.query from rfl] at hrest
    have hsnapshot : (step index watch record).2.snapshot.isSome =
        (!watch.answered && carries watch.query record) := by
      rw [← isSome_due?]
      exact Option.isSome_map
    rw [history_cons, List.any_cons]
    cases hfirst : (step index watch record).2.snapshot with
    | none =>
      rw [List.filterMap_cons_none hfirst, hrest]
      cases hanswered : watch.answered with
      | true => rfl
      | false =>
        rw [hfirst, hanswered] at hsnapshot
        have hcarries : false = carries watch.query record := hsnapshot
        rw [← hcarries]
        rfl
    | some snapshot =>
      rw [hfirst] at hsnapshot
      obtain ⟨hanswered, hcarries⟩ := Bool.and_eq_true_iff.mp hsnapshot.symm
      rw [List.filterMap_cons_some hfirst, List.length_cons, hrest, hanswered, hcarries]
      simp

end

section
variable (index : Listing.Index) (root : Text) (query : Option Tick) (records : List Trace.Executed)

theorem stackAfter_take_succ {stack : CallStack} {record : Trace.Executed} {i : Nat}
    (h : records[i]? = some record) :
    stackAfter index stack ((records.take (i + 1)).map (·.address)) =
      move index record.address (stackAfter index stack ((records.take i).map (·.address))) := by
  rw [List.take_add_one, h, List.map_append, stackAfter, List.foldl_append]
  rfl

/-- The first item of a kind is of the kind, and none before it is. -/
theorem findIdx?_eq_some_iff_take {ι : Type} {items : List ι} {item : ι} {i : Nat} (p : ι → Bool)
    (h : items[i]? = some item) :
    items.findIdx? p = some i ↔ (!(items.take i).any p && p item) = true := by
  obtain ⟨hi, hitem⟩ := List.getElem?_eq_some_iff.mp h
  rw [List.findIdx?_eq_some_iff_getElem, Bool.and_eq_true, Bool.not_eq_true', List.any_eq_false]
  constructor
  · intro h
    obtain ⟨_, hp, hbefore⟩ := h
    refine ⟨?_, hitem ▸ hp⟩
    intro earlier hearlier
    obtain ⟨j, hj, rfl⟩ := List.mem_take_iff_getElem.mp hearlier
    exact hbefore j (by omega)
  · intro h
    obtain ⟨hbefore, hp⟩ := h
    refine ⟨hi, hitem ▸ hp, fun j hj => ?_⟩
    exact hbefore _ (List.mem_take_iff_getElem.mpr ⟨j, by omega, rfl⟩)

/-- The first record with the tick is answered, by the stack that it leaves. -/
theorem snapshot_history (i : Nat) :
    ((history (step index) (rooted root query) records).2[i]?).map (·.snapshot) =
      records[i]?.map fun record =>
        if records.findIdx? (carries query) = some i then
          record.tick.map fun tick => ⟨tick, record.address,
            (stackAfter index { root } ((records.take (i + 1)).map (·.address))).labels⟩
        else none := by
  rw [getElem?_history, Option.map_map]
  cases hrecord : records[i]? with
  | none => rfl
  | some record =>
    have hdue : ((history (step index) (rooted root query) (records.take i)).1.due? record) =
        if records.findIdx? (carries query) = some i then record.tick else none := by
      rw [due?_eq, answered_history, query_history]
      simp only [findIdx?_eq_some_iff_take (carries query) hrecord]
      rfl
    show some (Option.map _ (due? _ record)) = _
    rw [hdue, stack_history, Option.map_some, stackAfter_take_succ index records hrecord]
    split <;> rfl

/-- The query is answered from the first record with the tick on. -/
theorem answered_history_take (n : Nat) :
    (history (step index) (rooted root query) (records.take n)).1.answered = true ↔
      ∃ i < n, records.findIdx? (carries query) = some i := by
  rw [answered_history]
  show (records.take n).any (carries query) = true ↔ _
  rw [← List.findIdx?_isSome, List.findIdx?_take]
  cases records.findIdx? (carries query) with
  | none => simp
  | some i => simp [Option.guard]

end

end Watch

end Lockstep
