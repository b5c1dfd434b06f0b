import Mathlib.Data.List.Flatten
import Mathlib.Data.List.Nodup
import Mathlib.Data.List.Pairwise
import Mathlib.Data.List.Perm.Subperm
import Lockstep.Proofs.Listing.Blocks

/-! The maps of an index agree with each other.

Whatever a listing holds, a value of an index carries its own key, a boundary is at an instruction,
a return belongs to a name with an entry, and an entry is where a function starts (`Coherent`). The
maps are written at different times, so the invariant of the reader is over its place too: inside a
function the name has its entry, and the last instruction so far is known (`Reading.Kept`).

In a listing that has each address once an address is in one block at most (`eq_of_mem_body`), so
no boundary is written over another: each block with an instruction has one start, one return if it
is closed, and both are its own (`Faithful`). -/
namespace Lockstep.Listing

/-! ### Whatever a listing holds -/

namespace Index

/-- What the maps of an index know of each other. -/
structure Coherent (index : Index) : Prop where
  instructions : ∀ address known, index.instruction? address = some known → known.address = address
  starts : ∀ address start, index.start? address = some start →
    start.address = address ∧ (index.instruction? address).isSome = true
  /-- A return is at an instruction, and its function has an entry. -/
  returns : ∀ address last, index.return? address = some last →
    last.address = address ∧ (index.instruction? address).isSome = true ∧
      (index.entry? last.label).isSome = true
  entries : ∀ label address, index.entry? label = some address →
    (index.start? address).isSome = true

variable {index : Index}

theorem instruction?_addInstruction (index : Index) (address : Address) (text : Text)
    (other : Address) : (index.addInstruction address text).instruction? other =
      if address == other then some ⟨address, text⟩ else index.instruction? other :=
  Std.HashMap.getElem?_insert

theorem start?_addStart (index : Index) (address : Address) (label : Text) (other : Address) :
    (index.addStart address label).start? other =
      if address == other then some ⟨address, label⟩ else index.start? other :=
  Std.HashMap.getElem?_insert

theorem return?_addReturn (index : Index) (address : Address) (label : Text) (other : Address) :
    (index.addReturn address label).return? other =
      if address == other then some ⟨address, label⟩ else index.return? other :=
  Std.HashMap.getElem?_insert

/-- A name keeps the entry that it has. -/
theorem entry?_addStart (index : Index) (address : Address) (label other : Text) :
    entry? (index.addStart address label) other =
      (index.entry? other).or (if label == other then some address else none) := by
  unfold entry? addStart
  rw [Std.HashMap.getElem?_insertIfNew]
  cases hlabel : label == other with
  | false => simp
  | true =>
    obtain rfl := eq_of_beq hlabel
    by_cases hmem : label ∈ index.entries <;> simp [hmem]

/-- What is found after a write is what was written, or it was there before. -/
theorem eq_or_of_ite_eq_some {α : Type} {address other : Address} {value found : α}
    {old : Option α} (h : (if address == other then some value else old) = some found) :
    (address = other ∧ value = found) ∨ old = some found := by
  split at h
  · next heq => exact .inl ⟨eq_of_beq heq, Option.some.inj h⟩
  · exact .inr h

theorem coherent_empty : Coherent {} where
  instructions := by simp [instruction?]
  starts := by simp [start?]
  returns := by simp [return?]
  entries := by simp [ entry?]

theorem isSome_instruction?_addInstruction {other : Address}
    (h : (index.instruction? other).isSome = true) (address : Address) (text : Text) :
    ((index.addInstruction address text).instruction? other).isSome = true := by
  rw [instruction?_addInstruction]
  split
  · rfl
  · exact h

theorem Coherent.addInstruction (h : index.Coherent) (address : Address) (text : Text) :
    (index.addInstruction address text).Coherent where
  instructions := by
    intro other known hknown
    rw [instruction?_addInstruction] at hknown
    rcases eq_or_of_ite_eq_some hknown with ⟨rfl, rfl⟩ | hknown
    · rfl
    · exact h.instructions other known hknown
  starts := by
    intro other start hstart
    obtain ⟨hkey, hlisted⟩ := h.starts other start hstart
    exact ⟨hkey, isSome_instruction?_addInstruction hlisted address text⟩
  returns := by
    intro other last hlast
    obtain ⟨hkey, hlisted, hentry⟩ := h.returns other last hlast
    exact ⟨hkey, isSome_instruction?_addInstruction hlisted address text, hentry⟩
  entries := h.entries

/-- A start may be written where an instruction is. -/
theorem Coherent.addStart (h : index.Coherent) {address : Address}
    (hlisted : (index.instruction? address).isSome = true) (label : Text) :
    (index.addStart address label).Coherent where
  instructions := h.instructions
  starts := by
    intro other start hstart
    rw [start?_addStart] at hstart
    rcases eq_or_of_ite_eq_some hstart with ⟨rfl, rfl⟩ | hstart
    · exact ⟨rfl, hlisted⟩
    · exact h.starts other start hstart
  returns := by
    intro other last hlast
    obtain ⟨hkey, hat, hentry⟩ := h.returns other last hlast
    refine ⟨hkey, hat, ?_⟩
    rw [entry?_addStart, Option.isSome_or, hentry, Bool.true_or]
  entries := by
    intro name other hentry
    rw [entry?_addStart, Option.or_eq_some_iff] at hentry
    rw [start?_addStart]
    split
    · rfl
    · next hne =>
      rcases hentry with hentry | ⟨_, hentry⟩
      · exact h.entries name other hentry
      · split at hentry
        · cases hentry
          exact absurd (beq_self_eq_true address) hne
        · cases hentry

/-- A return may be written where an instruction is, for a name that has an entry. -/
theorem Coherent.addReturn (h : index.Coherent) {address : Address}
    (hlisted : (index.instruction? address).isSome = true) {label : Text}
    (hentry : (index.entry? label).isSome = true) : (index.addReturn address label).Coherent where
  instructions := h.instructions
  starts := h.starts
  returns := by
    intro other last hlast
    rw [return?_addReturn] at hlast
    rcases eq_or_of_ite_eq_some hlast with ⟨rfl, rfl⟩ | hlast
    · exact ⟨rfl, hlisted, hentry⟩
    · exact h.returns other last hlast
  entries := h.entries

end Index

namespace Reading

/-- What a reader has written by the time it is at its place. -/
structure Kept (reading : Reading) : Prop where
  coherent : reading.index.Coherent
  /-- Inside a function its entry and its last instruction so far are known. -/
  inside : ∀ label last, reading.place = .inside label last →
    (reading.index.entry? label).isSome = true ∧ (reading.index.instruction? last).isSome = true

theorem kept_begin : Kept {} := ⟨Index.coherent_empty, fun _ _ h => by cases h⟩

theorem Kept.label {reading : Reading} (h : reading.Kept) (name : Text) :
    (reading.label name).Kept := by
  refine ⟨?_, fun _ _ hplace => by cases hplace⟩
  cases hplace : reading.place with
  | outside => simpa only [Reading.label, hplace] using h.coherent
  | opened function => simpa only [Reading.label, hplace] using h.coherent
  | inside function last =>
    obtain ⟨hentry, hlisted⟩ := h.inside function last hplace
    simpa only [Reading.label, hplace] using h.coherent.addReturn hlisted hentry

theorem Kept.instruction {reading : Reading} (h : reading.Kept) (address : Address) (text : Text) :
    (reading.instruction address text).Kept := by
  have hcoherent := h.coherent.addInstruction address text
  have hlisted : ((reading.index.addInstruction address text).instruction? address).isSome = true := by
    rw [Index.instruction?_addInstruction, beq_self_eq_true]
    rfl
  cases hplace : reading.place with
  | outside =>
    simp only [Reading.instruction, hplace]
    exact ⟨hcoherent, fun _ _ h => by cases h⟩
  | opened function =>
    simp only [Reading.instruction, hplace]
    refine ⟨hcoherent.addStart hlisted function, fun _ _ hinside => ?_⟩
    cases hinside
    refine ⟨?_, hlisted⟩
    rw [Index.entry?_addStart, beq_self_eq_true, if_pos rfl, Option.isSome_or, Option.isSome_some,
      Bool.or_true]
  | inside function last =>
    simp only [Reading.instruction, hplace]
    refine ⟨hcoherent, fun _ _ hinside => ?_⟩
    cases hinside
    exact ⟨(h.inside function last hplace).1, hlisted⟩

/-- **A reader keeps its index coherent, line by line.** -/
theorem Kept.line {reading : Reading} (h : reading.Kept) (line : Line) : (reading.line line).Kept := by
  cases line with
  | label name => exact h.label name
  | instruction address text => exact h.instruction address text
  | noise => exact h

theorem Kept.foldl {reading : Reading} (h : reading.Kept) (lines : List Line) :
    (lines.foldl Reading.line reading).Kept := by
  induction lines generalizing reading with
  | nil => exact h
  | cons line lines ih => exact ih (h.line line)

end Reading

theorem coherent_ofClassified (lines : List Line) : (Index.ofClassified lines).Coherent :=
  (Reading.kept_begin.foldl lines).coherent

/-- A map is not larger than another one that has its keys. -/
theorem size_le_of_isSome {κ α β : Type} [BEq κ] [LawfulBEq κ] [Hashable κ] {map : Std.HashMap κ α}
    {larger : Std.HashMap κ β}
    (h : ∀ k : κ, (map[k]?).isSome = true → (larger[k]?).isSome = true) :
    map.size ≤ larger.size := by
  rw [← Std.HashMap.length_keys, ← Std.HashMap.length_keys]
  refine (List.subperm_of_subset Std.HashMap.nodup_keys fun k hk => ?_).length_le
  rw [Std.HashMap.mem_keys, ← Std.HashMap.isSome_getElem?_iff_mem] at hk ⊢
  exact h k hk

/-- There are not more functions than addresses. -/
theorem Index.Coherent.functions_le {index : Index} (h : index.Coherent) :
    index.functions ≤ index.size := by
  refine size_le_of_isSome fun address hsome => ?_
  obtain ⟨start, hstart⟩ := Option.isSome_iff_exists.mp hsome
  exact (h.starts address start hstart).2

/-- An entry is at an instruction. -/
theorem Index.Coherent.exists_instruction {index : Index} (h : index.Coherent) {label : Text}
    {address : Address} (hentry : index.entry? label = some address) :
    ∃ known, index.instruction? address = some known := by
  obtain ⟨start, hstart⟩ := Option.isSome_iff_exists.mp (h.entries label address hentry)
  exact Option.isSome_iff_exists.mp (h.starts address start hstart).2

/-! ### Listings with each address once -/

/-- An instruction is before the first label or in the block of one. -/
theorem addresses_eq_append (lines : List Line) :
    addresses lines =
      addresses (lines.takeWhile (!·.isLabel)) ++ (blocks lines).flatMap Block.body := by
  induction lines with
  | nil => rfl
  | cons line lines ih =>
    cases line with
    | label name => exact ih
    | instruction address text => exact congrArg (address :: ·) ih
    | noise => exact ih

section
variable {lines : List Line} (hdistinct : (addresses lines).Nodup)
include hdistinct

theorem nodup_body {block : Block} (hblock : block ∈ blocks lines) : block.body.Nodup := by
  rw [addresses_eq_append] at hdistinct
  exact (List.nodup_flatMap.mp hdistinct.of_append_right).1 block hblock

/-- An address is in one block at most. -/
theorem eq_of_mem_body {block other : Block} (hblock : block ∈ blocks lines)
    (hother : other ∈ blocks lines) {address : Address} (haddress : address ∈ block.body)
    (hshared : address ∈ other.body) : block = other := by
  rw [addresses_eq_append] at hdistinct
  have hapart := (List.nodup_flatMap.mp hdistinct.of_append_right).2
  have hsymm : Std.Symm (Function.onFun List.Disjoint Block.body) := ⟨fun _ _ h => h.symm⟩
  by_contra hne
  exact hapart.forall hblock hother hne haddress hshared

/-- Of the blocks of a kind that all have an address there is one at most. -/
theorem getLast?_filter_of_mem {block : Block} (hblock : block ∈ blocks lines) {q : Block → Bool}
    {address : Address} (haddress : address ∈ block.body)
    (hq : ∀ other, q other = true → address ∈ other.body) :
    ((blocks lines).filter q).getLast? = if q block then some block else none := by
  have hunique : ∀ other ∈ (blocks lines).filter q, other = block := by
    intro other hother
    obtain ⟨hmem, hkind⟩ := List.mem_filter.mp hother
    exact eq_of_mem_body hdistinct hmem hblock (hq other hkind) haddress
  cases hkind : q block with
  | true =>
    have hmem := List.mem_filter.mpr ⟨hblock, hkind⟩
    rw [List.getLast?_eq_some_getLast (List.ne_nil_of_mem hmem)]
    exact congrArg some (hunique _ (List.getLast_mem _))
  | false =>
    have hnone : (blocks lines).filter q = [] := by
      refine List.eq_nil_iff_forall_not_mem.mpr fun other hother => ?_
      have htrue := (List.mem_filter.mp hother).2
      rw [hunique other hother, hkind] at htrue
      cases htrue
    rw [hnone]
    rfl

/-- In a block only the first instruction starts a function. -/
theorem start?_of_mem_body {block : Block} (hblock : block ∈ blocks lines) {address : Address}
    (haddress : address ∈ block.body) : (Index.ofClassified lines).start? address =
      if block.first? == some address then some ⟨address, block.label⟩ else none := by
  rw [start?_ofClassified, getLast?_filter_of_mem hdistinct hblock haddress]
  · split <;> rfl
  · intro other hother
    exact List.mem_of_head? (eq_of_beq hother)

/-- In a block only the last instruction returns, if the block is closed. -/
theorem return?_of_mem_body {block : Block} (hblock : block ∈ blocks lines) {address : Address}
    (haddress : address ∈ block.body) : (Index.ofClassified lines).return? address =
      if block.closed && block.last? == some address then some ⟨address, block.label⟩ else none := by
  rw [return?_ofClassified, getLast?_filter_of_mem hdistinct hblock haddress]
  · split <;> rfl
  · intro other hother
    exact List.mem_of_getLast? (eq_of_beq (Bool.and_eq_true_iff.mp hother).2)

end

/-! ### Boundaries of such a listing -/

/-- What an index tells of blocks that share no address. -/
structure Index.Faithful (index : Index) (blocks : List Block) : Prop where
  /-- Of a block the first instruction is a start, with the block's label, and no other one is. -/
  starts : ∀ block ∈ blocks, ∀ address ∈ block.body, index.start? address =
    if block.first? = some address then some ⟨address, block.label⟩ else none
  /-- Of a closed block the last instruction is a return, with the block's label, and no other one
  is; a block that is not closed has none. -/
  returns : ∀ block ∈ blocks, ∀ address ∈ block.body, index.return? address =
    if block.closed = true ∧ block.last? = some address then some ⟨address, block.label⟩ else none
  /-- Outside of blocks there is no boundary. -/
  within : ∀ address, (index.start? address).isSome = true ∨ (index.return? address).isSome = true →
    ∃ block ∈ blocks, address ∈ block.body
  functions : index.functions = blocks.countP (!·.body.isEmpty)
  returning : index.returns.size = blocks.countP fun block => block.closed && !block.body.isEmpty
  /-- An entry is the start of the function of its name. -/
  entries : ∀ label address, index.entry? label = some address →
    index.start? address = some ⟨address, label⟩
  /-- Only the one instruction of a block is both. -/
  both : ∀ address, (index.start? address).isSome = true → (index.return? address).isSome = true →
    ∃ block ∈ blocks, block.closed = true ∧ block.body = [address]

namespace Block
variable {block : Block} {address : Address}

theorem isSome_start? (block : Block) : block.start?.isSome = !block.body.isEmpty := by
  obtain ⟨label, body, closed⟩ := block
  cases body <;> rfl

theorem isSome_return? (block : Block) :
    block.return?.isSome = (block.closed && !block.body.isEmpty) := by
  obtain ⟨label, body, closed⟩ := block
  cases closed with
  | false => rfl
  | true => cases body <;> simp [return?, last?]

theorem mem_body_of_start? {start : Boundary} (h : block.start? = some start) :
    start.address ∈ block.body := by
  obtain ⟨first, hfirst, rfl⟩ := Option.map_eq_some_iff.mp h
  exact List.mem_of_head? hfirst

theorem mem_body_of_return? {last : Boundary} (h : block.return? = some last) :
    last.address ∈ block.body := by
  unfold return? at h
  split at h
  · obtain ⟨address, hlast, rfl⟩ := Option.map_eq_some_iff.mp h
    exact List.mem_of_getLast? hlast
  · cases h

end Block

/-! ### Boundaries as they are written -/

/-- A map of boundaries, written block by block. -/
def written (boundary? : Block → Option Boundary) (lines : List Line) :
    Std.HashMap Address Boundary :=
  ((blocks lines).filterMap boundary?).foldl (fun map item => map.insert item.address item) {}

theorem starts_ofClassified (lines : List Line) :
    (Index.ofClassified lines).starts = written Block.start? lines := by
  rw [ofClassified_eq_adding]
  rfl

theorem returns_ofClassified (lines : List Line) :
    (Index.ofClassified lines).returns = written Block.return? lines := by
  rw [ofClassified_eq_adding]
  rfl

section
variable {lines : List Line} {boundary? : Block → Option Boundary}

theorem isSome_written_iff_mem {address : Address} :
    ((written boundary? lines)[address]?).isSome = true ↔
      address ∈ ((blocks lines).filterMap boundary?).map Boundary.address := by
  rw [written, getElem?_foldl_insert, Std.HashMap.getElem?_empty, Option.or_none]
  simp [List.getLast?_filter]

variable (hmem : ∀ block boundary, boundary? block = some boundary → boundary.address ∈ block.body)
include hmem

theorem exists_block_of_written {address : Address}
    (h : ((written boundary? lines)[address]?).isSome = true) :
    ∃ block ∈ blocks lines, address ∈ block.body := by
  rw [isSome_written_iff_mem, List.mem_map] at h
  obtain ⟨boundary, hboundary, rfl⟩ := h
  obtain ⟨block, hblock, hsome⟩ := List.mem_filterMap.mp hboundary
  exact ⟨block, hblock, hmem block boundary hsome⟩

/-- As many boundaries are known as blocks give, if blocks share no address. -/
theorem size_written (hdistinct : (addresses lines).Nodup) :
    (written boundary? lines).size = (blocks lines).countP (boundary? · |>.isSome) := by
  have hnodup : (((blocks lines).filterMap boundary?).map Boundary.address).Nodup := by
    rw [addresses_eq_append] at hdistinct
    refine List.Nodup.sublist ?_ hdistinct.of_append_right
    rw [List.map_filterMap, List.filterMap_eq_flatMap_toList]
    refine List.Sublist.flatMap_right (blocks lines) fun block _ => ?_
    cases hboundary : boundary? block with
    | none => exact List.nil_sublist _
    | some boundary => exact List.singleton_sublist.mpr (hmem block boundary hboundary)
  rw [size_eq_length_dedup fun _ => isSome_written_iff_mem, hnodup.dedup, List.length_map,
    List.length_filterMap_eq_countP]

end

/-- A list that begins and ends with one item, and has it once, has no other. -/
theorem eq_singleton_of_nodup {items : List Address} {item : Address} (hnodup : items.Nodup)
    (hhead : items.head? = some item) (hlast : items.getLast? = some item) : items = [item] := by
  obtain ⟨tail, rfl⟩ := List.head?_eq_some_iff.mp hhead
  cases tail with
  | nil => rfl
  | cons next tail =>
    rw [List.getLast?_cons_cons] at hlast
    exact absurd (List.mem_of_getLast? hlast) (List.nodup_cons.mp hnodup).1

theorem faithful_ofClassified {lines : List Line} (hdistinct : (addresses lines).Nodup) :
    (Index.ofClassified lines).Faithful (blocks lines) := by
  have hstart : ∀ block ∈ blocks lines, ∀ address ∈ block.body,
      (Index.ofClassified lines).start? address =
        if block.first? = some address then some ⟨address, block.label⟩ else none := by
    intro block hblock address haddress
    simpa only [beq_iff_eq] using start?_of_mem_body hdistinct hblock haddress
  have hreturn : ∀ block ∈ blocks lines, ∀ address ∈ block.body,
      (Index.ofClassified lines).return? address =
        if block.closed = true ∧ block.last? = some address then some ⟨address, block.label⟩
        else none := by
    intro block hblock address haddress
    simpa only [Bool.and_eq_true, beq_iff_eq] using return?_of_mem_body hdistinct hblock haddress
  have hwithin : ∀ address, ((Index.ofClassified lines).start? address).isSome = true ∨
      ((Index.ofClassified lines).return? address).isSome = true →
        ∃ block ∈ blocks lines, address ∈ block.body := by
    intro address hsome
    rw [Index.start?, Index.return?, starts_ofClassified, returns_ofClassified] at hsome
    rcases hsome with hsome | hsome
    · exact exists_block_of_written (fun _ _ => Block.mem_body_of_start?) hsome
    · exact exists_block_of_written (fun _ _ => Block.mem_body_of_return?) hsome
  refine ⟨hstart, hreturn, hwithin, ?_, ?_, ?_, ?_⟩
  · rw [Index.functions, starts_ofClassified,
      size_written (fun _ _ => Block.mem_body_of_start?) hdistinct]
    simp only [Block.isSome_start?]
  · rw [returns_ofClassified, size_written (fun _ _ => Block.mem_body_of_return?) hdistinct]
    simp only [Block.isSome_return?]
  · intro label address hentry
    rw [entry?_ofClassified, Option.bind_eq_some_iff] at hentry
    obtain ⟨block, hfind, hfirst⟩ := hentry
    have hblock := List.mem_of_find?_eq_some hfind
    have hnamed := List.find?_some hfind
    rw [Bool.and_eq_true, beq_iff_eq] at hnamed
    rw [hstart block hblock address (List.mem_of_head? hfirst), if_pos hfirst, hnamed.1]
  · intro address hstarts hreturns
    obtain ⟨block, hblock, haddress⟩ := hwithin address (.inl hstarts)
    rw [hstart block hblock address haddress, Option.isSome_ite] at hstarts
    rw [hreturn block hblock address haddress, Option.isSome_ite] at hreturns
    obtain ⟨hclosed, hlast⟩ := hreturns
    exact ⟨block, hblock, hclosed,
      eq_singleton_of_nodup (nodup_body hdistinct hblock) hstarts hlast⟩

/-- **The maps of an index agree with each other**, and where a listing has each address once, the
boundaries of its index are those of its blocks. -/
theorem ofLines_coherent (lines : List Text) :
    let index := Index.ofLines lines
    index.Coherent ∧ index.functions ≤ index.size ∧
    ((addresses (lines.map Line.read)).Nodup → index.Faithful (blocks (lines.map Line.read))) := by
  intro index
  have hcoherent : index.Coherent := coherent_ofClassified (lines.map Line.read)
  exact ⟨hcoherent, hcoherent.functions_le, faithful_ofClassified⟩

/-- A function of two instructions, one of a single instruction, and an empty one. -/
def severalFunctions : List Text :=
  ["0000000000010000 <main>:".toList, "   10000:\t1141\taddi\tsp,sp,-16".toList,
    "   10002:\t8082\tret".toList, [], "0000000000010004 <leaf>:".toList,
    "   10004:\t8082\tret".toList, [], "0000000000010006 <end>:".toList]

/-- Each address is there once, so the first function starts and returns at different ones, the
second one at the same, and the last one nowhere. -/
theorem ofLines_coherent_severalFunctions :
    let index := Index.ofLines severalFunctions
    (addresses (severalFunctions.map Line.read)).Nodup ∧
    index.start? 0x10000 = some ⟨0x10000, "main".toList⟩ ∧ index.return? 0x10000 = none ∧
    index.start? 0x10002 = none ∧ index.return? 0x10002 = some ⟨0x10002, "main".toList⟩ ∧
    index.start? 0x10004 = some ⟨0x10004, "leaf".toList⟩ ∧
    index.return? 0x10004 = some ⟨0x10004, "leaf".toList⟩ ∧
    index.functions = 2 ∧ index.returns.size = 2 := by
  intro index
  have hblocks : blocks (severalFunctions.map Line.read) =
      [⟨"main".toList, [0x10000, 0x10002], true⟩, ⟨"leaf".toList, [0x10004], true⟩,
        ⟨"end".toList, [], false⟩] := by decide
  have hdistinct : (addresses (severalFunctions.map Line.read)).Nodup := by decide
  have hfaithful := (ofLines_coherent severalFunctions).2.2 hdistinct
  rw [hblocks] at hfaithful
  have hstarts := hfaithful.starts
  have hreturns := hfaithful.returns
  simp only [List.forall_mem_cons] at hstarts hreturns
  obtain ⟨⟨hmain, hmain', _⟩, ⟨hleaf, _⟩, _⟩ := hstarts
  obtain ⟨⟨hmainReturn, hmainReturn', _⟩, ⟨hleafReturn, _⟩, _⟩ := hreturns
  exact ⟨hdistinct, hmain, hmainReturn, hmain', hmainReturn', hleaf, hleafReturn,
    hfaithful.functions, hfaithful.returning⟩

end Lockstep.Listing
