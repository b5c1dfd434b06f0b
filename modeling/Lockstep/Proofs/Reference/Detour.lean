import Mathlib.Order.Bounds.Basic
import Lockstep.Reference.Queue

/-! What passing a trap takes off a queue.

A queue with no trap marker in front is left alone. Otherwise a front of it goes: the marker,
the record after it, and the records up to the address, or all there are if the address does
not come again (`Drops`). `passTrap_cases` says this once, and nothing else unfolds
`passTrap`. In places, what goes is all before the first place from the third on that an
instruction at the address has, or the whole queue (`passTrap_exact`). -/
namespace Lockstep.Reference.Queue

theorem isAt_eq_true {address : Address} {record : Record} :
    isAt address record = true ↔ record.kind = .instruction address := by
  obtain ⟨kind, raw⟩ := record
  cases kind <;> simp [isAt, Record.address?]

theorem isException_of_isAt {address : Address} {record : Record}
    (h : isAt address record = true) : record.isException = false := by
  simp [Record.isException, isAt_eq_true.mp h]

/-- A front of a queue that a detour drops, and what it leaves. -/
inductive Drops (address : Address) : Queue → Queue → Prop where
  /-- The queue ends with the marker. -/
  | ended {marker : Record} : marker.isException = true → Drops address [marker] []
  /-- The address does not come again; the record after the marker is not looked at. -/
  | lost {marker detail : Record} {others : Queue} : marker.isException = true →
      (∀ record ∈ others, isAt address record = false) →
      Drops address (marker :: detail :: others) []
  /-- The address comes again, and its record stays. -/
  | found {marker detail head : Record} {others rest : Queue} : marker.isException = true →
      (∀ record ∈ others, isAt address record = false) → isAt address head = true →
      Drops address (marker :: detail :: others) (head :: rest)

/-- The records between a marker and the address again are passed over in one go. -/
theorem span_of_away {address : Address} {others : Queue} (rest : Queue)
    (haway : ∀ record ∈ others, isAt address record = false)
    (hrest : ∀ head ∈ rest.head?, isAt address head = true) :
    (others ++ rest).takeWhile (!isAt address ·) = others ∧
      (others ++ rest).dropWhile (!isAt address ·) = rest := by
  have haway : ∀ record ∈ others, (!isAt address record) = true := by
    intro record hrecord
    simp [haway record hrecord]
  rw [List.takeWhile_append_of_pos haway, List.dropWhile_append_of_pos haway]
  cases rest with
  | nil => simp
  | cons head rest => simp [hrest head rfl]

theorem passTrap_of_not_isException {address : Address} {queue : Queue}
    (h : ∀ head ∈ queue.head?, head.isException = false) :
    queue.passTrap address = (none, queue) := by
  cases queue with
  | nil => rfl
  | cons head tail => simp [passTrap, h head rfl]

theorem passTrap_of_drops {address : Address} {dropped rest : Queue}
    (h : Drops address dropped rest) :
    (dropped ++ rest).passTrap address = (some ⟨dropped.length, !rest.isEmpty⟩, rest) := by
  cases h with
  | ended hmarker => simp [passTrap, hmarker]
  | lost hmarker haway =>
    obtain ⟨htake, hdrop⟩ := span_of_away [] haway (by simp)
    rw [List.append_nil] at htake hdrop
    simp [passTrap, hmarker, htake, hdrop]
    omega
  | @found _ _ head _ rest hmarker haway hhead =>
    obtain ⟨htake, hdrop⟩ := span_of_away (head :: rest) haway (by simpa using hhead)
    simp [passTrap, hmarker, htake, hdrop]
    omega

/-- A marker in front starts a detour. -/
theorem exists_drops (address : Address) {marker : Record} (hmarker : marker.isException = true)
    (tail : Queue) : ∃ dropped rest, marker :: tail = dropped ++ rest ∧
      Drops address dropped rest := by
  cases tail with
  | nil => exact ⟨[marker], [], rfl, .ended hmarker⟩
  | cons detail others =>
    have hsplit := List.takeWhile_append_dropWhile (p := (!isAt address ·)) (l := others)
    have haway : ∀ record ∈ others.takeWhile (!isAt address ·), isAt address record = false := by
      intro record hrecord
      simpa using List.all_eq_true.mp (List.all_takeWhile (l := others)) record hrecord
    cases hrest : others.dropWhile (!isAt address ·) with
    | nil =>
      rw [hrest, List.append_nil] at hsplit
      exact ⟨marker :: detail :: others, [], by simp, .lost hmarker (hsplit ▸ haway)⟩
    | cons head rest =>
      have hhead := List.head?_dropWhile_not (!isAt address ·) others
      rw [hrest] at hhead hsplit
      exact ⟨marker :: detail :: others.takeWhile (!isAt address ·), head :: rest, by simp [hsplit],
        .found hmarker haway (by simpa using hhead)⟩

/-- **All that passing a trap can do**: nothing, for want of a marker in front, or a detour
with its count. -/
theorem passTrap_cases (address : Address) (queue : Queue) :
    (queue.passTrap address = (none, queue) ∧
      ∀ head ∈ queue.head?, head.isException = false) ∨
    ∃ dropped rest, queue = dropped ++ rest ∧ Drops address dropped rest ∧
      queue.passTrap address = (some ⟨dropped.length, !rest.isEmpty⟩, rest) := by
  cases queue with
  | nil => exact .inl ⟨rfl, by simp⟩
  | cons head tail =>
    by_cases hmarker : head.isException = true
    · obtain ⟨dropped, rest, hqueue, hdrops⟩ := exists_drops address hmarker tail
      exact .inr ⟨dropped, rest, hqueue, hdrops, by rw [hqueue, passTrap_of_drops hdrops]⟩
    · have hhead : ∀ first ∈ (head :: tail).head?, first.isException = false := by
        simpa using hmarker
      exact .inl ⟨passTrap_of_not_isException hhead, hhead⟩

/-- The record after the marker goes with it, whatever it is. -/
theorem two_le_discarded (address : Address) {marker : Record} (hmarker : marker.isException = true)
    (detail : Record) (others : Queue) : ∃ detour,
      (passTrap address (marker :: detail :: others)).1 = some detour ∧ 2 ≤ detour.discarded := by
  obtain ⟨dropped, rest, hqueue, hdrops⟩ := exists_drops address hmarker (detail :: others)
  rw [hqueue, passTrap_of_drops hdrops]
  refine ⟨_, rfl, ?_⟩
  cases hdrops with
  | ended _ => simp at hqueue
  | lost _ _ => simp
  | found _ _ _ => simp

/-- A detour says whether it leaves anything. -/
theorem found_of_passTrap {address : Address} {queue : Queue} {detour : Detour}
    (h : (queue.passTrap address).1 = some detour) :
    detour.found = !(queue.passTrap address).2.isEmpty := by
  rcases passTrap_cases address queue with ⟨hpass, _⟩ | ⟨dropped, rest, _, _, hpass⟩
  · rw [hpass] at h
    cases h
  · rw [hpass] at h ⊢
    cases h
    rfl

/-- A detour leaves the address in front, or nothing. -/
theorem isAt_of_passTrap {address : Address} {queue : Queue} {detour : Detour}
    (h : (queue.passTrap address).1 = some detour) :
    ∀ head ∈ (queue.passTrap address).2.head?, isAt address head = true := by
  rcases passTrap_cases address queue with ⟨hpass, _⟩ | ⟨dropped, rest, _, hdrops, hpass⟩
  · rw [hpass] at h
    cases h
  · rw [hpass]
    cases hdrops with
    | ended _ => simp
    | lost _ _ => simp
    | found _ _ hhead => simpa using hhead

/-- No trap marker is in front once a trap is passed. -/
theorem not_isException_of_passTrap (address : Address) (queue : Queue) :
    ∀ head ∈ (queue.passTrap address).2.head?, head.isException = false := by
  intro head hhead
  cases hdetour : (queue.passTrap address).1 with
  | some detour => exact isException_of_isAt (isAt_of_passTrap hdetour head hhead)
  | none =>
    rcases passTrap_cases address queue with ⟨hpass, hfront⟩ | ⟨_, _, _, _, hpass⟩
    · rw [hpass] at hhead
      exact hfront head hhead
    · rw [hpass] at hdetour
      cases hdetour

/-! ### The way back by its place -/

/-- The places behind a marker and the record after it that an instruction at the address has. -/
def returns (address : Address) (queue : Queue) : Set Nat :=
  {n | 2 ≤ n ∧ ∃ record ∈ queue[n]?, record.kind = .instruction address}

/-- The first of these places, or the end of the queue if there is none. -/
def ReturnsAt (address : Address) (queue : Queue) (n : Nat) : Prop :=
  IsLeast (returns address queue) n ∨ returns address queue = ∅ ∧ n = queue.length

section
variable {address : Address} {queue dropped others rest : Queue} {marker detail : Record} {n : Nat}

theorem lt_length_of_mem_returns (h : n ∈ returns address queue) : n < queue.length := by
  obtain ⟨_, record, hrecord, _⟩ := h
  exact (List.getElem?_eq_some_iff.mp hrecord).1

/-- Records away from the address have none of its places. -/
theorem le_of_mem_returns (haway : ∀ record ∈ others, isAt address record = false)
    (h : n ∈ returns address (marker :: detail :: (others ++ rest))) : others.length + 2 ≤ n := by
  obtain ⟨htwo, record, hrecord, hkind⟩ := h
  obtain ⟨m, rfl⟩ := Nat.exists_eq_add_of_le' htwo
  by_contra hlt
  rw [List.getElem?_cons_succ, List.getElem?_cons_succ,
    List.getElem?_append_left (by omega)] at hrecord
  have hat := haway record (List.mem_of_getElem? hrecord)
  rw [isAt_eq_true.mpr hkind] at hat
  cases hat

/-- What a detour drops ends where the way back is. -/
theorem Drops.returnsAt (h : Drops address dropped rest) :
    ReturnsAt address (dropped ++ rest) dropped.length := by
  cases h with
  | @ended marker _ =>
    refine .inr ⟨Set.eq_empty_of_forall_notMem fun n hn => ?_, rfl⟩
    have hlt : n < 1 := lt_length_of_mem_returns hn
    exact absurd hn.1 (by omega)
  | @lost marker detail others _ haway =>
    rw [List.append_nil]
    refine .inr ⟨Set.eq_empty_of_forall_notMem fun n hn => ?_, rfl⟩
    have hlt : n < others.length + 2 := lt_length_of_mem_returns hn
    rw [← List.append_nil others] at hn
    exact absurd (le_of_mem_returns haway hn) (by omega)
  | @found marker detail head others rest _ haway hhead =>
    refine .inl ⟨⟨Nat.le_add_left 2 _, head, ?_, isAt_eq_true.mp hhead⟩, fun n hn => ?_⟩
    · simp
    · exact le_of_mem_returns haway hn

theorem ReturnsAt.le_of_mem {m : Nat} (h : ReturnsAt address queue n)
    (hm : m ∈ returns address queue) : n ≤ m := by
  rcases h with hleast | ⟨hempty, _⟩
  · exact hleast.2 hm
  · rw [hempty] at hm
    cases hm

theorem ReturnsAt.mem_of_lt (h : ReturnsAt address queue n) (hn : n < queue.length) :
    n ∈ returns address queue := by
  rcases h with hleast | ⟨_, rfl⟩
  · exact hleast.1
  · exact absurd hn (lt_irrefl _)

theorem ReturnsAt.lt_iff (h : ReturnsAt address queue n) :
    n < queue.length ↔ (returns address queue).Nonempty := by
  constructor
  · intro hn
    exact ⟨n, h.mem_of_lt hn⟩
  · rintro ⟨m, hm⟩
    exact (h.le_of_mem hm).trans_lt (lt_length_of_mem_returns hm)

theorem isException_iff {record : Record} : record.isException = true ↔ record.kind = .exception :=
  beq_iff_eq

/-- A detour has found the way back if it leaves anything. -/
theorem found_of_append (dropped rest : Queue) :
    (!rest.isEmpty) = decide (dropped.length < (dropped ++ rest).length) := by
  cases rest <;> simp

/-- **What passing a trap takes off a queue**: nothing if there is no marker in front. Otherwise it
is all that stands before the first instruction at the address behind the marker and one more
record, which stays in front, or the whole queue if there is no such instruction. -/
theorem passTrap_exact (address : Address) (queue : Queue) :
    ((∀ head ∈ queue.head?, head.kind ≠ .exception) → queue.passTrap address = (none, queue)) ∧
    ((∃ head ∈ queue.head?, head.kind = .exception) → ∃ n, ReturnsAt address queue n ∧
      queue.passTrap address = (some ⟨n, decide (n < queue.length)⟩, queue.drop n) ∧
      (n < queue.length →
        ∃ record ∈ (queue.drop n).head?, record.kind = .instruction address) ∧
      (n < queue.length ↔ (returns address queue).Nonempty) ∧
      ∀ m ∈ returns address queue, n ≤ m) := by
  refine ⟨fun hhead => passTrap_of_not_isException fun head hmem => ?_, fun hmarker => ?_⟩
  · rw [Bool.eq_false_iff, Ne, isException_iff]
    exact hhead head hmem
  · obtain ⟨marker, hmem, hmarker⟩ := hmarker
    rcases passTrap_cases address queue with ⟨_, hhead⟩ | ⟨dropped, rest, rfl, hdrops, hpass⟩
    · have hno := hhead marker hmem
      rw [isException_iff.mpr hmarker] at hno
      cases hno
    · have hreturns := hdrops.returnsAt
      refine ⟨dropped.length, hreturns, ?_, fun hlt => ?_, hreturns.lt_iff,
        fun m hm => hreturns.le_of_mem hm⟩
      · rw [hpass, found_of_append dropped rest, List.drop_left]
      · obtain ⟨_, record, hrecord, hkind⟩ := hreturns.mem_of_lt hlt
        exact ⟨record, by rwa [List.head?_drop], hkind⟩

end

/-- A trap with the address right behind its marker, a second trap, and the address again. -/
def nestedTrap : Queue :=
  [⟨.exception, []⟩, ⟨.instruction 0x10, []⟩, ⟨.exception, []⟩, ⟨.instruction 0x10, []⟩]

theorem passTrap_exact_nested :
    ((∃ head ∈ nestedTrap.head?, head.kind = .exception) ∧ ReturnsAt 0x10 nestedTrap 3 ∧
      nestedTrap.passTrap 0x10 = (some ⟨3, true⟩, nestedTrap.drop 3)) ∧
    (∀ head ∈ (nestedTrap.drop 3).head?, head.kind ≠ .exception) ∧
      passTrap 0x10 (nestedTrap.drop 3) = (none, nestedTrap.drop 3) := by
  have hmarker : ∃ head ∈ nestedTrap.head?, head.kind = .exception := ⟨_, rfl, rfl⟩
  have hplain : ∀ head ∈ (nestedTrap.drop 3).head?, head.kind ≠ .exception := by decide
  obtain ⟨n, hreturns, hpass, _⟩ := (passTrap_exact 0x10 nestedTrap).2 hmarker
  have hrun : nestedTrap.passTrap 0x10 = (some ⟨3, true⟩, nestedTrap.drop 3) := by decide
  have hn : 3 = n := by
    have hboth := hrun.symm.trans hpass
    simp only [Prod.mk.injEq, Option.some.injEq, Detour.mk.injEq] at hboth
    exact hboth.1.1
  exact ⟨⟨hmarker, hn ▸ hreturns, hrun⟩, hplain, (passTrap_exact 0x10 (nestedTrap.drop 3)).1 hplain⟩

end Lockstep.Reference.Queue
