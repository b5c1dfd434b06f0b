import Mathlib.Data.List.Dedup
import Lockstep.Listing.Index

/-! The blocks of a listing, and what an index knows of them.

A block is a label and the instructions after it, up to the next label; instructions before the
first label are in no block. Reading a listing line by line writes the starts and returns of its
blocks, in their order, into the maps of an index (`ofClassified_eq_adding`). The invariant is
over the lines still to come: where the reader is inside a function, they go on with a block that
has begun. The look-ups of an index then follow from the order of writing alone
(`ofLines_declared`): the last one stands for an address, the first one for a name. -/
namespace Lockstep.Listing

/-! ### Blocks -/

def Line.isLabel (line : Line) : Bool := line.label?.isSome

/-- A label with the addresses of its instructions. -/
structure Block where
  label : Text
  body : List Address
  /-- Whether a further label follows. -/
  closed : Bool
  deriving DecidableEq, Repr

namespace Block

def first? (block : Block) : Option Address := block.body.head?

def last? (block : Block) : Option Address := block.body.getLast?

/-- Where the block starts, if it has an instruction. -/
def start? (block : Block) : Option Boundary := block.first?.map (⟨·, block.label⟩)

/-- Where the block returns, if a further label tells which instruction is its last. -/
def return? (block : Block) : Option Boundary :=
  if block.closed then block.last?.map (⟨·, block.label⟩) else none

end Block

def addresses (lines : List Line) : List Address := lines.filterMap Line.instructionAddress?

/-- The block of a label, of which some instructions were read, with the lines to come. -/
def blockFrom (label : Text) (front : List Address) (lines : List Line) : Block where
  label := label
  body := front ++ addresses (lines.takeWhile (!·.isLabel))
  closed := lines.any Line.isLabel

def blocks : List Line → List Block
  | [] => []
  | .label name :: lines => blockFrom name [] lines :: blocks lines
  | _ :: lines => blocks lines

def Line.instruction? : Line → Option Instruction
  | instruction address text => some ⟨address, text⟩
  | _ => none

def instructions (lines : List Line) : List Instruction := lines.filterMap Line.instruction?

/-! ### Reading in blocks -/

/-- The index after some instructions, starts and returns, each written over what was there but
for the entry of a name. -/
def Index.adding (index : Index) (instructions : List Instruction) (starts returns : List Boundary) :
    Index where
  instructions := instructions.foldl (fun map i => map.insert i.address i) index.instructions
  starts := starts.foldl (fun map start => map.insert start.address start) index.starts
  returns := returns.foldl (fun map last => map.insert last.address last) index.returns
  entries := starts.foldl (fun map start => map.insertIfNew start.label start.address) index.entries

namespace Place

/-- The blocks that the lines to come begin or go on with. -/
def ahead (lines : List Line) : Place → List Block
  | outside => blocks lines
  | opened label => blockFrom label [] lines :: blocks lines
  | inside label last => blockFrom label [last] lines :: blocks lines

/-- Those of them whose first instruction is still to come. -/
def fresh (lines : List Line) : Place → List Block
  | inside _ _ => blocks lines
  | place => place.ahead lines

end Place

theorem blockFrom_label (label name : Text) (front : List Address) (lines : List Line) :
    blockFrom label front (.label name :: lines) = ⟨label, front, true⟩ := by
  simp [blockFrom, addresses, Line.isLabel, Line.label?]

theorem blockFrom_instruction (label : Text) (front : List Address) (address : Address) (text : Text)
    (lines : List Line) :
    blockFrom label front (.instruction address text :: lines) =
      blockFrom label (front ++ [address]) lines := by
  simp [blockFrom, addresses, Line.isLabel, Line.label?, Line.instructionAddress?]

theorem blockFrom_noise (label : Text) (front : List Address) (lines : List Line) :
    blockFrom label front (.noise :: lines) = blockFrom label front lines := rfl

/-- A block whose last instruction so far is known returns where a later one ends it. -/
theorem return?_blockFrom_inside (label : Text) (front : List Address) (address : Address)
    (lines : List Line) :
    (blockFrom label (front ++ [address]) lines).return? = (blockFrom label [address] lines).return? := by
  unfold Block.return? Block.last? blockFrom
  rw [List.append_assoc, List.getLast?_append_of_ne_nil _ (by simp)]

/-- What is still to be read is what the blocks ahead add. -/
theorem Reading.foldl_line (lines : List Line) (reading : Reading) :
    (lines.foldl Reading.line reading).index =
      reading.index.adding (instructions lines) ((reading.place.fresh lines).filterMap Block.start?)
        ((reading.place.ahead lines).filterMap Block.return?) := by
  induction lines generalizing reading with
  | nil =>
    obtain ⟨place, index⟩ := reading
    cases place <;> rfl
  | cons line lines ih =>
    rw [List.foldl_cons, ih]
    obtain ⟨place, index⟩ := reading
    cases line with
    | label name =>
      cases place <;>
        simp only [Reading.line, Reading.label, Place.ahead, Place.fresh, blockFrom_label] <;> rfl
    | instruction address text =>
      cases place <;>
        simp only [Reading.line, Reading.instruction, Place.ahead, Place.fresh,
          blockFrom_instruction, List.filterMap_cons, return?_blockFrom_inside] <;> rfl
    | noise =>
      cases place <;> simp only [Reading.line, Place.ahead, Place.fresh, blockFrom_noise] <;> rfl

/-- **An index is written block by block.** -/
theorem ofClassified_eq_adding (lines : List Line) :
    Index.ofClassified lines = Index.adding {} (instructions lines)
      ((blocks lines).filterMap Block.start?) ((blocks lines).filterMap Block.return?) :=
  Reading.foldl_line lines {}

/-! ### What the order of writing leaves -/

section Maps
variable {ι κ ν : Type} [BEq κ] [LawfulBEq κ] [Hashable κ]

/-- Of the items for a key the last one stands. -/
theorem getElem?_foldl_insert (key : ι → κ) (items : List ι) (map : Std.HashMap κ ι) (k : κ) :
    (items.foldl (fun map item => map.insert (key item) item) map)[k]? =
      ((items.filter (key · == k)).getLast?).or map[k]? := by
  induction items generalizing map with
  | nil => rfl
  | cons item items ih =>
    rw [List.foldl_cons, ih, Std.HashMap.getElem?_insert, List.filter_cons]
    cases hitem : key item == k with
    | false => rfl
    | true =>
      rw [if_pos rfl, if_pos rfl, List.getLast?_cons]
      cases (items.filter (key · == k)).getLast? <;> rfl

/-- The last of the items that give something for a key stands. -/
theorem getElem?_foldl_insert_filterMap (key : ν → κ) (k : κ) {f : ι → Option ν} {q : ι → Bool}
    {g : ι → ν} (h : ∀ item, (f item).filter (key · == k) = if q item then some (g item) else none)
    (items : List ι) :
    ((items.filterMap f).foldl (fun map item => map.insert (key item) item)
      ({} : Std.HashMap κ ν))[k]? =
      ((items.filter q).getLast?).map g := by
  rw [getElem?_foldl_insert, Std.HashMap.getElem?_empty, Option.or_none, List.filter_filterMap,
    funext h, ← List.getLast?_map, ← List.filterMap_eq_map, List.filterMap_filter]
  rfl

/-- Of the items for a key the first one stands. -/
theorem getElem?_foldl_insertIfNew (key : ι → κ) (value : ι → ν) (items : List ι)
    (map : Std.HashMap κ ν) (k : κ) :
    (items.foldl (fun map item => map.insertIfNew (key item) (value item)) map)[k]? =
      map[k]?.or ((items.find? (key · == k)).map value) := by
  induction items generalizing map with
  | nil => simp
  | cons item items ih =>
    rw [List.foldl_cons, ih, Std.HashMap.getElem?_insertIfNew, List.find?_cons]
    cases hitem : key item == k with
    | false => simp
    | true =>
      obtain rfl := eq_of_beq hitem
      by_cases hmem : key item ∈ map <;> simp [hmem]

/-- A map is as large as there are keys, each counted once. -/
theorem size_eq_length_dedup [DecidableEq κ] {map : Std.HashMap κ ν} {keys : List κ}
    (h : ∀ k, map[k]?.isSome = true ↔ k ∈ keys) : map.size = keys.dedup.length := by
  rw [← Std.HashMap.length_keys]
  apply List.Perm.length_eq
  rw [List.perm_ext_iff_of_nodup Std.HashMap.nodup_keys keys.nodup_dedup]
  intro k
  rw [Std.HashMap.mem_keys, List.mem_dedup, ← h, Std.HashMap.isSome_getElem?_iff_mem]

end Maps

/-! ### Look-ups -/

theorem Line.text_of_read {line : Text} {address : Address} {text : Text}
    (h : read line = .instruction address text) : text = line.trim := by
  simp only [read] at h
  split at h
  · cases h
  · split at h <;> cases h
    rfl

/-- The last line of an instruction stands. -/
theorem instruction?_ofLines (lines : List Text) (address : Address) :
    (Index.ofLines lines).instruction? address =
      ((lines.filter fun line => (Line.read line).instructionAddress? == some address).getLast?).map
        fun line => ⟨address, line.trim⟩ := by
  have hline : ∀ line : Text, (Line.read line).instruction?.filter (·.address == address) =
      if (Line.read line).instructionAddress? == some address then some ⟨address, line.trim⟩
      else none := by
    intro line
    cases hread : Line.read line with
    | label name => rfl
    | noise => rfl
    | instruction other text =>
      rw [Line.text_of_read hread]
      by_cases hother : other = address <;>
        simp [Line.instruction?, Line.instructionAddress?, hother]
  rw [Index.ofLines, ofClassified_eq_adding, instructions, List.filterMap_map]
  exact getElem?_foldl_insert_filterMap Instruction.address address hline lines

/-- The last block that starts at an address stands. -/
theorem start?_ofClassified (lines : List Line) (address : Address) :
    (Index.ofClassified lines).start? address =
      (((blocks lines).filter fun block => block.first? == some address).getLast?).map
        fun block => ⟨address, block.label⟩ := by
  have hblock : ∀ block : Block, block.start?.filter (·.address == address) =
      if block.first? == some address then some ⟨address, block.label⟩ else none := by
    intro block
    unfold Block.start?
    cases block.first? with
    | none => rfl
    | some first => by_cases hfirst : first = address <;> simp [hfirst]
  rw [ofClassified_eq_adding]
  exact getElem?_foldl_insert_filterMap Boundary.address address hblock (blocks lines)

/-- The last closed block that ends at an address stands. -/
theorem return?_ofClassified (lines : List Line) (address : Address) :
    (Index.ofClassified lines).return? address =
      (((blocks lines).filter fun block => block.closed && block.last? == some address).getLast?).map
        fun block => ⟨address, block.label⟩ := by
  have hblock : ∀ block : Block, block.return?.filter (·.address == address) =
      if block.closed && block.last? == some address then some ⟨address, block.label⟩
      else none := by
    intro block
    unfold Block.return?
    cases block.closed with
    | false => rfl
    | true => cases block.last? with
      | none => rfl
      | some last => by_cases hlast : last = address <;> simp [hlast]
  rw [ofClassified_eq_adding]
  exact getElem?_foldl_insert_filterMap Boundary.address address hblock (blocks lines)

/-- The first block of a name that has an instruction is its entry. -/
theorem entry?_ofClassified (lines : List Line) (label : Text) :
    Index.entry? (Index.ofClassified lines) label =
      ((blocks lines).find? fun block => block.label == label && !block.body.isEmpty).bind
        Block.first? := by
  have hblock : ∀ block : Block, block.start?.any (·.label == label) =
      (block.label == label && !block.body.isEmpty) := by
    intro block
    obtain ⟨name, body, closed⟩ := block
    cases body <;> simp [Block.start?, Block.first?]
  have hfirst : ∀ block : Block, block.start?.map Boundary.address = block.first? := by
    intro block
    simp [Block.start?, Function.comp_def]
  rw [ofClassified_eq_adding]
  show (List.foldl _ _ _)[label]? = _
  rw [getElem?_foldl_insertIfNew Boundary.label Boundary.address, Std.HashMap.getElem?_empty,
    Option.none_or, List.find?_filterMap, Option.map_bind]
  simp only [hblock, Function.comp_def, hfirst]

/-- There is a last item of a kind exactly if there is one. -/
theorem isSome_map_getLast?_filter {ι ν κ : Type} [BEq κ] [LawfulBEq κ] {f : ι → Option κ} {k : κ}
    {g : ι → ν} (items : List ι) :
    (((items.filter (f · == some k)).getLast?).map g).isSome = true ↔ k ∈ items.filterMap f := by
  simp [List.getLast?_filter]

/-- **An index knows the last instruction line of each address, the last block that starts and the
last closed block that ends there, and the first block of each name.** -/
theorem ofLines_declared (lines : List Text) :
    let index := Index.ofLines lines
    let blocks := blocks (lines.map Line.read)
    (∀ address, index.instruction? address =
      ((lines.filter fun line => (Line.read line).instructionAddress? == some address).getLast?).map
        fun line => ⟨address, line.trim⟩) ∧
    (∀ address, index.start? address =
      ((blocks.filter fun block => block.first? == some address).getLast?).map
        fun block => ⟨address, block.label⟩) ∧
    (∀ address, index.return? address =
      ((blocks.filter fun block => block.closed && block.last? == some address).getLast?).map
        fun block => ⟨address, block.label⟩) ∧
    (∀ label, index.entry? label =
      (blocks.find? fun block => block.label == label && !block.body.isEmpty).bind Block.first?) ∧
    index.size = (lines.filterMap fun line => (Line.read line).instructionAddress?).dedup.length ∧
    index.functions = (blocks.filterMap Block.first?).dedup.length := by
  intro index blocks
  refine ⟨instruction?_ofLines lines, start?_ofClassified _, return?_ofClassified _,
    entry?_ofClassified _, ?_, ?_⟩
  · apply size_eq_length_dedup
    intro address
    show (index.instruction? address).isSome = true ↔ _
    rw [instruction?_ofLines, isSome_map_getLast?_filter]
  · apply size_eq_length_dedup
    intro address
    show (index.start? address).isSome = true ↔ _
    rw [show index.start? address = _ from start?_ofClassified _ address,
      isSome_map_getLast?_filter]

end Lockstep.Listing
