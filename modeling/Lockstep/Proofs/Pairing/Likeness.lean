import Lockstep.Proofs.Pairing.Course

/-! Addresses alone decide what is found.

Two runs are alike if their listings have the same addresses, their references records of the
same kinds, and their instructions the same addresses. Whatever texts there are, alike runs find
the same but for the texts of rows (`Finding.wordless`), and use up the same of their references:
`found_alike`. A trap is passed alike (`Drops.alike`), so a step is made alike by each of the
passages that it can be (`Passage.alike`), and it leaves alike followers for the next one. -/
namespace Lockstep
open Reference (Queue Record)

/-! ### Findings without texts -/

def Reference.Record.wordless (record : Record) : Record := { record with raw := [] }

/-- A row without its texts: the verdict and the kind of the reference record are left. -/
def Row.wordless : Row → Row
  | listed _ => listed []
  | paired verdict _ reference => paired verdict [] (reference.map Record.wordless)
  | unlisted => unlisted

def Finding.wordless (finding : Finding) : Finding := { finding with row := finding.row.wordless }

/-! ### Records of the same kinds -/

namespace Reference

theorem Record.wordless_eq_iff {one two : Record} :
    one.wordless = two.wordless ↔ one.kind = two.kind := by
  simp [wordless]

namespace Queue

theorem isException_alike {one two : Record} (h : one.kind = two.kind) :
    one.isException = two.isException := by
  rw [Record.isException, Record.isException, h]

theorem isAt_alike {one two : Record} (address : Address) (h : one.kind = two.kind) :
    isAt address one = isAt address two := by
  rw [Bool.eq_iff_iff, isAt_eq_true, isAt_eq_true, h]

theorem away_alike {address : Address} {one two : Queue}
    (h : one.map Record.kind = two.map Record.kind)
    (haway : ∀ record ∈ one, isAt address record = false) :
    ∀ record ∈ two, isAt address record = false := by
  intro record hrecord
  have hkind : record.kind ∈ one.map Record.kind := h ▸ List.mem_map_of_mem hrecord
  obtain ⟨other, hother, heq⟩ := List.mem_map.mp hkind
  rw [← isAt_alike address heq]
  exact haway other hother

/-- A detour goes by the kinds of the records that it drops. -/
theorem Drops.alike {address : Address} {dropped rest : Queue} (h : Drops address dropped rest)
    {dropped' rest' : Queue} (hdropped : dropped.map Record.kind = dropped'.map Record.kind)
    (hrest : rest.map Record.kind = rest'.map Record.kind) : Drops address dropped' rest' := by
  cases h with
  | ended hmarker =>
    obtain ⟨marker', _, rfl, hkind, hnil⟩ := List.map_eq_cons_iff.mp hdropped.symm
    obtain rfl := List.map_eq_nil_iff.mp hnil
    obtain rfl := List.map_eq_nil_iff.mp hrest.symm
    exact .ended (isException_alike hkind ▸ hmarker)
  | lost hmarker haway =>
    obtain ⟨marker', _, rfl, hkind, hmore⟩ := List.map_eq_cons_iff.mp hdropped.symm
    obtain ⟨detail', others', rfl, _, hothers⟩ := List.map_eq_cons_iff.mp hmore
    obtain rfl := List.map_eq_nil_iff.mp hrest.symm
    exact .lost (isException_alike hkind ▸ hmarker) (away_alike hothers.symm haway)
  | found hmarker haway hhead =>
    obtain ⟨marker', _, rfl, hkind, hmore⟩ := List.map_eq_cons_iff.mp hdropped.symm
    obtain ⟨detail', others', rfl, _, hothers⟩ := List.map_eq_cons_iff.mp hmore
    obtain ⟨head', rest', rfl, hat, _⟩ := List.map_eq_cons_iff.mp hrest.symm
    exact .found (isException_alike hkind ▸ hmarker) (away_alike hothers.symm haway)
      (isAt_alike address hat ▸ hhead)

end Queue

end Reference

namespace Follower

/-! ### One step -/

/-- Followers with records of the same kinds to come. -/
structure Alike (one two : Follower) : Prop where
  reference : one.reference.map (List.map Record.kind) = two.reference.map (List.map Record.kind)
  exhausted : one.exhausted = two.exhausted

theorem alike_some {one two : Queue} (h : one.map Record.kind = two.map Record.kind)
    (exhausted : Bool) : Alike ⟨some one, exhausted⟩ ⟨some two, exhausted⟩ :=
  ⟨congrArg some h, rfl⟩

theorem Alike.left_eq {one two : Follower} (h : one.Alike two) : one.left = two.left := by
  have hlength := congrArg (Option.map List.length) h.reference
  simp only [Option.map_map, Function.comp_def, List.length_map] at hlength
  rw [left, left, hlength]

section
variable {a b : Listing.Index}
  (hindex : ∀ address, (a.instruction? address).isSome = (b.instruction? address).isSome)
include hindex

theorem wordless_pairedRow {address : Address} {one two : Option Record}
    (h : one.map Record.kind = two.map Record.kind) :
    (pairedRow a address one).wordless = (pairedRow b address two).wordless := by
  have hknown := hindex address
  have hhead : one.any (Queue.isAt address) = two.any (Queue.isAt address) ∧
      one.map Record.wordless = two.map Record.wordless := by
    cases one with
    | none => cases two with
      | none => exact ⟨rfl, rfl⟩
      | some _ => cases h
    | some head => cases two with
      | none => cases h
      | some head' =>
        have hkind : head.kind = head'.kind := Option.some.inj h
        exact ⟨Queue.isAt_alike address hkind, congrArg some (Record.wordless_eq_iff.mpr hkind)⟩
  unfold pairedRow
  cases ha : a.instruction? address <;> cases hb : b.instruction? address
  · rfl
  · simp [ha, hb] at hknown
  · simp [ha, hb] at hknown
  · simp only [Row.wordless, hhead]

/-- Beside a reference of the same kinds there is the same passage. -/
theorem Passage.alike {address : Address} {exhausted : Bool} {queue : Queue} {finding : Finding}
    {next : Follower} (h : Passage a address exhausted queue finding next) {queue' : Queue}
    (hqueue : queue.map Record.kind = queue'.map Record.kind) :
    ∃ finding' next', Passage b address exhausted queue' finding' next' ∧
      finding.wordless = finding'.wordless ∧ next.Alike next' := by
  cases h with
  | @paired head rest hhead =>
    obtain ⟨head', rest', rfl, hkind, hrest⟩ := List.map_eq_cons_iff.mp hqueue.symm
    refine ⟨_, _, .paired (Queue.isException_alike hkind ▸ hhead), ?_, alike_some hrest.symm _⟩
    exact congrArg (Finding.mk · none false)
      (wordless_pairedRow hindex (congrArg some hkind.symm))
  | @resumed head dropped rest hdrops =>
    rw [List.map_append] at hqueue
    obtain ⟨dropped', _, rfl, hdropped, hmore⟩ := List.map_eq_append_iff.mp hqueue.symm
    obtain ⟨head', rest', rfl, hkind, hrest⟩ := List.map_eq_cons_iff.mp hmore
    have hlength : dropped'.length = dropped.length := by
      simpa using congrArg List.length hdropped
    refine ⟨_, _, .resumed (hdrops.alike hdropped.symm hmore.symm), ?_, alike_some hrest.symm _⟩
    rw [hlength]
    exact congrArg (Finding.mk · (some ⟨dropped.length, true⟩) false)
      (wordless_pairedRow hindex (congrArg some hkind.symm))
  | lost hdrops =>
    have hlength : queue'.length = queue.length := by
      simpa using congrArg List.length hqueue.symm
    refine ⟨_, _, .lost (hdrops.alike hqueue rfl), ?_, alike_some rfl _⟩
    rw [hlength]
    exact congrArg (Finding.mk · (some ⟨queue.length, false⟩) (!exhausted))
      (wordless_pairedRow hindex rfl)
  | dry =>
    obtain rfl := List.map_eq_nil_iff.mp hqueue.symm
    refine ⟨_, _, .dry, ?_, alike_some rfl _⟩
    exact congrArg (Finding.mk · none (!exhausted)) (wordless_pairedRow hindex rfl)

theorem step_alike {one two : Queue} (h : one.map Record.kind = two.map Record.kind)
    (exhausted : Bool) {record record' : Trace.Executed} (haddress : record.address = record'.address) :
    (step a ⟨some one, exhausted⟩ record).2.wordless =
        (step b ⟨some two, exhausted⟩ record').2.wordless ∧
      (step a ⟨some one, exhausted⟩ record).1.Alike (step b ⟨some two, exhausted⟩ record').1 := by
  have hpassage := step_passage a one exhausted record
  rw [haddress] at hpassage
  obtain ⟨finding', next', hpassage', hfinding, hnext⟩ := hpassage.alike hindex h
  rw [hpassage'.step_eq]
  exact ⟨hfinding, hnext⟩

/-! ### Runs -/

/-- Alike followers stay alike, and find alike. -/
theorem history_alike {front back : List Trace.Executed}
    (hrecords : front.map (·.address) = back.map (·.address)) {one two : Queue}
    (h : one.map Record.kind = two.map Record.kind) (exhausted : Bool) :
    (history (step a) ⟨some one, exhausted⟩ front).2.map Finding.wordless =
        (history (step b) ⟨some two, exhausted⟩ back).2.map Finding.wordless ∧
      (history (step a) ⟨some one, exhausted⟩ front).1.Alike
        (history (step b) ⟨some two, exhausted⟩ back).1 := by
  induction front generalizing back one two exhausted with
  | nil =>
    obtain rfl := List.map_eq_nil_iff.mp hrecords.symm
    exact ⟨rfl, alike_some h exhausted⟩
  | cons record front ih =>
    obtain ⟨record', back, rfl, haddress, hback⟩ := List.map_eq_cons_iff.mp hrecords.symm
    obtain ⟨hfinding, hnext⟩ := step_alike hindex h exhausted haddress.symm
    obtain ⟨rest, spent, hrest⟩ := (step_passage a one exhausted record).exists_some
    obtain ⟨rest', spent', hrest'⟩ := (step_passage b two exhausted record').exists_some
    rw [hrest, hrest'] at hnext
    obtain rfl : spent = spent' := hnext.exhausted
    obtain ⟨hfindings, hlast⟩ := ih hback.symm (Option.some.inj hnext.reference) spent
    rw [history_cons, history_cons, hrest, hrest']
    exact ⟨by rw [List.map_cons, List.map_cons, hfinding, hfindings], hlast⟩

/-- **Runs of the same addresses find the same, whatever their texts.** Instruction by
instruction the findings are equal but for texts, and as much of the reference is left. -/
theorem found_alike {front back : List Trace.Executed} {one two : Queue}
    (hqueue : one.map Record.kind = two.map Record.kind)
    (hrecords : front.map (·.address) = back.map (·.address)) :
    (history (step a) (beside one) front).2.map Finding.wordless =
        (history (step b) (beside two) back).2.map Finding.wordless ∧
      ∀ n, (history (step a) (beside one) (front.take n)).1.left =
        (history (step b) (beside two) (back.take n)).1.left := by
  refine ⟨(history_alike hindex hrecords hqueue false).1, fun n => ?_⟩
  have htake : (front.take n).map (·.address) = (back.take n).map (·.address) := by
    rw [List.map_take, List.map_take, hrecords]
  exact (history_alike hindex htake hqueue false).2.left_eq

end

/-! ### A log and its rewording -/

def worded (text : String) : Listing.Index := ({} : Listing.Index).addInstruction 0x10 text.toList

/-- A trap, its detail, and the way back to the one instruction of the listing. -/
def trapped (text : String) : Queue :=
  [⟨.exception, text.toList⟩, ⟨.instruction 0x8, text.toList⟩, ⟨.instruction 0x10, text.toList⟩]

def logged (text : String) (tick : Option Tick) (dialect : Trace.Dialect) : List Trace.Executed :=
  [⟨0x10, text.toList, tick, dialect⟩, ⟨0x20, text.toList, tick, dialect⟩]

theorem isSome_instruction?_worded (text : String) (address : Address) :
    ((worded text).instruction? address).isSome = (0x10 == address) := by
  unfold worded Listing.Index.instruction? Listing.Index.addInstruction
  rw [Std.HashMap.getElem?_insert]
  cases (0x10 : Address) == address <;> simp

theorem found_alike_reworded :
    (∀ address, ((worded "nop").instruction? address).isSome =
      (((worded "addi").addStart 0x10 "main".toList).instruction? address).isSome) ∧
    (trapped "left").map Record.kind = (trapped "right").map Record.kind ∧
    (logged "nop" none .deep).map (·.address) = (logged "li" (some 42) .render).map (·.address) ∧
    (history (step (worded "nop")) (beside (trapped "left")) (logged "nop" none .deep)).2.map
        Finding.wordless =
      (history (step ((worded "addi").addStart 0x10 "main".toList)) (beside (trapped "right"))
        (logged "li" (some 42) .render)).2.map Finding.wordless ∧
    ∀ n, (history (step (worded "nop")) (beside (trapped "left"))
        ((logged "nop" none .deep).take n)).1.left =
      (history (step ((worded "addi").addStart 0x10 "main".toList)) (beside (trapped "right"))
        ((logged "li" (some 42) .render).take n)).1.left := by
  have hindex : ∀ address, ((worded "nop").instruction? address).isSome =
      (((worded "addi").addStart 0x10 "main".toList).instruction? address).isSome := by
    intro address
    exact (isSome_instruction?_worded "nop" address).trans
      (isSome_instruction?_worded "addi" address).symm
  exact ⟨hindex, rfl, rfl, found_alike hindex rfl rfl⟩

end Follower

end Lockstep
