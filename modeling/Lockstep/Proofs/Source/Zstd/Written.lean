import Mathlib.Algebra.Group.Nat.Defs
import Lockstep.Source.Zstd.Decoder

/-! Files in the zstd format as a writer writes them.

A file is a row of pieces: frames, and skippable frames with anything in them (`Piece`). A frame has
a header, whose fields a writer may give several widths (`Form`), and one block or more, the last of
them marked; a block gives its bytes as they are or one byte over and over (`Chunk`). What is within
the format's limits `Fits`; the limit of the window the format leaves to the decoder, so it stands
apart (`IsAffordable`). A block's header is read as it was written (`ofHeader?_number`), and so is a
frame's, unless it asks for a window beyond that limit (`read_form`). What is relied on of a decoder
for such files is said without one (`Reliable`). -/
namespace Lockstep.Zstd

/-! ### Numbers -/

/-- A number in some bytes, the least significant byte first. -/
def toBytes : Nat → Nat → List UInt8
  | 0, _ => []
  | width + 1, n => UInt8.ofNat n :: toBytes width (n / 256)

theorem length_toBytes (width n : Nat) : (toBytes width n).length = width := by
  induction width generalizing n with
  | zero => rfl
  | succ width ih => rw [toBytes, List.length_cons, ih]

theorem littleEndian_toBytes {width n : Nat} (h : n < 256 ^ width) :
    littleEndian (toBytes width n) = n := by
  induction width generalizing n with
  | zero =>
    rw [Nat.pow_zero] at h
    exact (Nat.lt_one_iff.mp h).symm
  | succ width ih =>
    have hrest : n / 256 < 256 ^ width := by
      rw [Nat.pow_succ] at h
      exact Nat.div_lt_of_lt_mul (by omega)
    have hcons : littleEndian (toBytes (width + 1) n) =
        (UInt8.ofNat n).toNat + 256 * littleEndian (toBytes width (n / 256)) := rfl
    rw [hcons, ih hrest, UInt8.toNat_ofNat']
    omega

/-! ### Headers -/

/-- A frame header as a writer fills it in. -/
structure Form where
  /-- In which of four widths the size of the content is told. -/
  sizeCode : Fin 4
  /-- Whether the content is its own window. -/
  isSingle : Bool
  /-- A bit without a meaning. -/
  spare : Bool
  /-- In which of four widths it is told that there is no dictionary. -/
  dictionaryCode : Fin 4
  /-- The window is a power of two from 2^10 on, and eighths of it. -/
  exponent : Fin 32
  eighths : Fin 8
  deriving DecidableEq, Repr

namespace Form

def descriptor (form : Form) : Descriptor :=
  UInt8.ofNat (64 * form.sizeCode + 32 * form.isSingle.toNat + 16 * form.spare.toNat +
    form.dictionaryCode)

def windowByte (form : Form) : UInt8 := UInt8.ofNat (8 * form.exponent + form.eighths)

/-- The smallest width is there only where the content is its own window. -/
def sizeWidth (form : Form) : Nat :=
  match form.sizeCode with
  | 0 => form.isSingle.toNat
  | 1 => 2
  | 2 => 4
  | 3 => 8

/-- In two bytes the size of the content counts from here. -/
def sizeBase (form : Form) : Nat := if form.sizeWidth = 2 then 256 else 0

def dictionaryWidth (form : Form) : Nat :=
  match form.dictionaryCode with
  | 0 => 0
  | 1 => 1
  | 2 => 2
  | 3 => 4

/-- What follows the descriptor, for a content of some size. -/
def fields (form : Form) (size : Nat) : List UInt8 :=
  (if form.isSingle then [] else [form.windowByte]) ++ List.replicate form.dictionaryWidth 0 ++
    toBytes form.sizeWidth (size - form.sizeBase)

def window (form : Form) (size : Nat) : Nat :=
  if form.isSingle then size
  else 2 ^ (10 + form.exponent.val) + form.eighths * 2 ^ (7 + form.exponent.val)

/-- What the header says. -/
def header (form : Form) (size : Nat) : Header where
  declared := if form.sizeWidth = 0 then none else some size
  window := form.window size

/-- A size can be told, if it is told at all: the largest number of eight bytes tells nothing. -/
def Tells (form : Form) (size : Nat) : Prop :=
  form.sizeWidth ≠ 0 →
    form.sizeBase ≤ size ∧ size - form.sizeBase < 256 ^ form.sizeWidth ∧ size + 1 < UInt64.size

instance (form : Form) (size : Nat) : Decidable (form.Tells size) :=
  inferInstanceAs (Decidable (_ → _))

/-! ### Headers read as they were written -/

theorem read_descriptor : ∀ (sizeCode dictionaryCode : Fin 4) (isSingle spare : Bool),
    let form : Form := ⟨sizeCode, isSingle, spare, dictionaryCode, 0, 0⟩
    form.descriptor.isSingle = isSingle ∧ form.descriptor.isRefused = false ∧
      form.descriptor.dictionaryBytes = form.dictionaryWidth ∧
      form.descriptor.sizeBytes = form.sizeWidth := by
  decide +kernel

theorem read_windowByte : ∀ (exponent : Fin 32) (eighths : Fin 8),
    let byte := windowByte ⟨0, false, false, 0, exponent, eighths⟩
    Descriptor.windowOf byte = 2 ^ (10 + exponent.val) + eighths * 2 ^ (7 + exponent.val) ∧
      (Descriptor.windowOf byte ≤ windowMaximum →
        Descriptor.windowPower byte ≤ Header.powerMaximum) := by
  decide +kernel

section
variable (form : Form)

theorem isSingle_descriptor : form.descriptor.isSingle = form.isSingle :=
  (read_descriptor form.sizeCode form.dictionaryCode form.isSingle form.spare).1

theorem isRefused_descriptor : form.descriptor.isRefused = false :=
  (read_descriptor form.sizeCode form.dictionaryCode form.isSingle form.spare).2.1

theorem dictionaryBytes_descriptor : form.descriptor.dictionaryBytes = form.dictionaryWidth :=
  (read_descriptor form.sizeCode form.dictionaryCode form.isSingle form.spare).2.2.1

theorem sizeBytes_descriptor : form.descriptor.sizeBytes = form.sizeWidth :=
  (read_descriptor form.sizeCode form.dictionaryCode form.isSingle form.spare).2.2.2

theorem windowOf_windowByte :
    Descriptor.windowOf form.windowByte =
      2 ^ (10 + form.exponent.val) + form.eighths * 2 ^ (7 + form.exponent.val) :=
  (read_windowByte form.exponent form.eighths).1

theorem windowPower_windowByte (h : Descriptor.windowOf form.windowByte ≤ windowMaximum) :
    Descriptor.windowPower form.windowByte ≤ Header.powerMaximum :=
  (read_windowByte form.exponent form.eighths).2 h

/-- The window byte, if there is one. -/
def windowBytes : List UInt8 := if form.isSingle then [] else [form.windowByte]

theorem windowBytes_descriptor : form.descriptor.windowBytes = form.windowBytes.length := by
  rw [Descriptor.windowBytes, isSingle_descriptor, windowBytes]
  cases form.isSingle <;> rfl

theorem length_fields (size : Nat) : (form.fields size).length = form.descriptor.fieldBytes := by
  rw [fields, List.length_append, List.length_append, List.length_replicate, length_toBytes,
    Descriptor.fieldBytes, windowBytes_descriptor, dictionaryBytes_descriptor, sizeBytes_descriptor]
  rfl

theorem sizeWidth_ne_zero {form : Form} (h : form.isSingle = true) : form.sizeWidth ≠ 0 := by
  rw [sizeWidth, h]
  split <;> decide

/-- There is a window byte, or the size of the content is told. -/
theorem fields_ne_nil (size : Nat) : form.fields size ≠ [] := by
  rw [← List.length_pos_iff, fields, List.length_append, List.length_append, length_toBytes]
  cases hsingle : form.isSingle with
  | true =>
    have hwidth := sizeWidth_ne_zero hsingle
    omega
  | false =>
    have hwindow : (if false = true then [] else [form.windowByte]).length = 1 := rfl
    omega

theorem littleEndian_zeros (width : Nat) : littleEndian (List.replicate width 0) = 0 := by
  induction width with
  | zero => rfl
  | succ width ih =>
    have hcons : littleEndian (List.replicate (width + 1) 0) =
        (0 : UInt8).toNat + 256 * littleEndian (List.replicate width 0) := rfl
    rw [hcons, ih]
    rfl

theorem dictionary_fields (size : Nat) : form.descriptor.dictionary (form.fields size) = 0 := by
  have hdrop : (form.fields size).drop form.descriptor.windowBytes =
      List.replicate form.dictionaryWidth 0 ++ toBytes form.sizeWidth (size - form.sizeBase) := by
    rw [fields, List.append_assoc, windowBytes_descriptor]
    exact List.drop_left
  rw [Descriptor.dictionary, hdrop, dictionaryBytes_descriptor,
    List.take_left' List.length_replicate, littleEndian_zeros]

end

theorem sizeField_fields {form : Form} {size : Nat} (hwidth : form.sizeWidth ≠ 0)
    (h : form.Tells size) : form.descriptor.sizeField (form.fields size) = size := by
  obtain ⟨hbase, hbound, _⟩ := h hwidth
  have hdrop : (form.fields size).drop
      (form.descriptor.windowBytes + form.descriptor.dictionaryBytes) =
      toBytes form.sizeWidth (size - form.sizeBase) := by
    rw [fields, windowBytes_descriptor, dictionaryBytes_descriptor]
    exact List.drop_left' (by rw [List.length_append, List.length_replicate]; rfl)
  rw [Descriptor.sizeField, hdrop, littleEndian_toBytes hbound, sizeBytes_descriptor, ← sizeBase]
  omega

theorem contentSize?_fields {form : Form} {size : Nat} (h : form.Tells size) :
    form.descriptor.contentSize? (form.fields size) = (form.header size).declared := by
  rw [Descriptor.contentSize?, sizeBytes_descriptor, header]
  by_cases hwidth : form.sizeWidth = 0
  · simp [hwidth]
  · obtain ⟨_, _, hsize⟩ := h hwidth
    have hmaximum : (size == UInt64.size - 1) = false := beq_false_of_ne (by omega)
    rw [sizeField_fields hwidth h, hmaximum]
    simp [hwidth]

theorem headD_fields {form : Form} (h : form.isSingle = false) (size : Nat) :
    (form.fields size).headD 0 = form.windowByte := by
  simp [fields, h]

theorem window_ofFields {form : Form} {size : Nat} (h : form.Tells size) :
    (Header.ofFields form.descriptor (form.fields size)).window = form.window size := by
  simp only [Header.ofFields, isSingle_descriptor, window]
  split
  · next hsingle =>
    exact sizeField_fields (sizeWidth_ne_zero hsingle) h
  · next hsingle => rw [headD_fields (Bool.eq_false_iff.mpr hsingle), windowOf_windowByte]

/-- **A header is read as it was written**, or refused for its window. -/
theorem read_form {form : Form} {size : Nat} (h : form.Tells size) :
    Header.read form.descriptor (form.fields size) = .ok (form.header size) ∨
      windowMaximum < form.window size ∧
        Header.read form.descriptor (form.fields size) = .error .windowTooLarge := by
  have hheader : Header.ofFields form.descriptor (form.fields size) = form.header size :=
    Header.mk.injEq .. ▸ ⟨contentSize?_fields h, window_ofFields h⟩
  rw [Header.read, isRefused_descriptor, isSingle_descriptor, dictionary_fields, hheader]
  cases hpower : !form.isSingle && decide (Header.powerMaximum <
      Descriptor.windowPower ((form.fields size).headD 0)) with
  | false => exact .inl rfl
  | true =>
    refine .inr ⟨?_, rfl⟩
    obtain ⟨hsingle, hlarge⟩ := (Bool.and_eq_true _ _).mp hpower
    rw [Bool.not_eq_true'] at hsingle
    rw [headD_fields hsingle, decide_eq_true_eq] at hlarge
    rw [window, hsingle, if_neg (by decide), ← windowOf_windowByte]
    exact Nat.lt_of_not_le fun hwindow =>
      Nat.not_le.mpr hlarge (windowPower_windowByte form hwindow)

end Form

/-! ### Blocks -/

/-- A block as a writer gives its bytes. -/
inductive Chunk where
  | raw (bytes : List UInt8)
  /-- One byte, so many times. -/
  | repeated (count : Nat) (b : UInt8)
  deriving DecidableEq, Repr

namespace Chunk

def content : Chunk → List UInt8
  | raw bytes => bytes
  | repeated count b => List.replicate count b

/-- What follows the block's header. -/
def payload : Chunk → List UInt8
  | raw bytes => bytes
  | repeated _ b => [b]

def kind : Chunk → BlockKind
  | raw _ => .raw
  | repeated _ _ => .repeated

/-- The block as its header tells it. -/
def block (chunk : Chunk) (last : Bool) : Block := ⟨chunk.kind, chunk.content.length, last⟩

/-- The number of the block's kind. -/
def code : Chunk → Nat
  | raw _ => 0
  | repeated _ _ => 1

/-- The number in the block's header: a bit for the last block, two for the kind, and the size. -/
def number (chunk : Chunk) (last : Bool) : Nat :=
  last.toNat + 2 * chunk.code + 8 * chunk.content.length

def bytes (last : Bool) (chunk : Chunk) : List UInt8 :=
  toBytes 3 (chunk.number last) ++ chunk.payload

/-- A block's limit is for what it gives and for what it takes. -/
def Fits (limit : Nat) (chunk : Chunk) : Prop :=
  chunk.content.length ≤ limit ∧ chunk.payload.length ≤ limit

instance (limit : Nat) (chunk : Chunk) : Decidable (chunk.Fits limit) :=
  inferInstanceAs (Decidable (_ ∧ _))

theorem taken_block (chunk : Chunk) (last : Bool) :
    (chunk.block last).taken = chunk.payload.length := by
  cases chunk <;> rfl

/-- **A block's header is read as it was written.** -/
theorem ofHeader?_number (chunk : Chunk) (last : Bool) :
    Block.ofHeader? (chunk.number last) = some (chunk.block last) := by
  have hbit : last.toNat < 2 := last.toNat_lt
  have hcode : chunk.code < 4 := by cases chunk <;> simp only [code] <;> omega
  have hkind : chunk.number last / 2 % 4 = chunk.code := by
    rw [number]
    omega
  have hsize : chunk.number last / 8 = chunk.content.length := by
    rw [number]
    omega
  have hlast : (chunk.number last % 2 == 1) = last := by
    have hodd : chunk.number last % 2 = last.toNat := by
      rw [number]
      omega
    rw [hodd]
    cases last <;> rfl
  rw [Block.ofHeader?, hkind, hsize, hlast]
  cases chunk <;> rfl

/-- The sizes of blocks are far below what a block's header can tell. -/
theorem number_lt {chunk : Chunk} (h : chunk.content.length ≤ blockMaximum) (last : Bool) :
    chunk.number last < 256 ^ 3 := by
  have hbit : last.toNat < 2 := last.toNat_lt
  have hcode : chunk.code < 4 := by cases chunk <;> simp only [code] <;> omega
  rw [blockMaximum] at h
  rw [number]
  omega

end Chunk

/-! ### Pieces of a file -/

structure Written where
  form : Form
  /-- Its blocks but for the last one. -/
  front : List Chunk
  last : Chunk
  deriving DecidableEq, Repr

namespace Written

def chunks (frame : Written) : List Chunk := frame.front ++ [frame.last]

def content (frame : Written) : List UInt8 := frame.chunks.flatMap Chunk.content

def header (frame : Written) : Header := frame.form.header frame.content.length

/-- What the header declares is the size of the content. -/
theorem declared_eq (frame : Written) :
    ∀ size ∈ frame.header.declared, size = frame.content.length := by
  intro size hsize
  simp only [header, Form.header] at hsize
  split at hsize
  · cases hsize
  · exact (Option.some.inj hsize).symm

def bytes (frame : Written) : List UInt8 :=
  magic ++ (frame.form.descriptor :: frame.form.fields frame.content.length) ++
    frame.front.flatMap (Chunk.bytes false) ++ frame.last.bytes true

/-- The header can tell the size of the content, and the blocks are within their limit. -/
def Fits (frame : Written) : Prop :=
  frame.form.Tells frame.content.length ∧
    ∀ chunk ∈ frame.chunks, chunk.Fits frame.header.blockLimit

instance (frame : Written) : Decidable frame.Fits := inferInstanceAs (Decidable (_ ∧ _))

end Written

inductive Piece where
  | frame (written : Written)
  /-- Anything, behind one of sixteen magic numbers. -/
  | skippable (variant : Fin 16) (data : List UInt8)
  deriving DecidableEq, Repr

namespace Piece

def bytes : Piece → List UInt8
  | frame written => written.bytes
  | skippable variant data =>
    skippableMagic (UInt8.ofNat (0x50 + variant.val)) ++ toBytes 4 data.length ++ data

theorem bytes_ne_nil : (piece : Piece) → piece.bytes ≠ []
  | frame _ => List.cons_ne_nil _ _
  | skippable _ _ => List.cons_ne_nil _ _

def content : Piece → List UInt8
  | frame written => written.content
  | skippable _ _ => []

def Fits : Piece → Prop
  | frame written => written.Fits
  | skippable _ data => data.length < UInt32.size

instance : (piece : Piece) → Decidable piece.Fits
  | frame written => inferInstanceAs (Decidable written.Fits)
  | skippable _ data => inferInstanceAs (Decidable (data.length < UInt32.size))

/-- There is memory for its window. -/
def IsAffordable : Piece → Prop
  | frame written => written.header.window ≤ windowMaximum
  | skippable _ _ => True

instance : (piece : Piece) → Decidable piece.IsAffordable
  | frame written => inferInstanceAs (Decidable (written.header.window ≤ windowMaximum))
  | skippable _ _ => inferInstanceAs (Decidable True)

end Piece

/-! ### Decoders -/

/-- What is left of a file that is cut where none of its pieces ends, be it nothing. -/
def IsCut (pieces : List Piece) (left : List UInt8) : Prop :=
  left <+: pieces.flatMap Piece.bytes ∧
    ∀ front, front <+: pieces → front ≠ [] → left ≠ front.flatMap Piece.bytes

/-- What is relied on of a decoder, for files of pieces that it accepts: a library may refuse what
the format allows, such as a frame with a large window. -/
structure Reliable (decoder : StreamDecoder) (accepts : Piece → Prop) : Prop where
  /-- Frames of raw and repeated blocks, one behind the other and among skippable frames, are
  decoded to the end of the file. -/
  whole : ∀ pieces : List Piece, pieces ≠ [] → (∀ piece ∈ pieces, piece.Fits ∧ accepts piece) →
    decoder { bytes := pieces.flatMap Piece.bytes } =
      .ok { bytes := pieces.flatMap Piece.content }
  /-- Of a file that is cut is handed over what was decoded before: the content of all pieces in
  front of the cut, and nothing that is not in the file. -/
  handedOver : ∀ (pieces : List Piece) (left : List UInt8),
    (∀ piece ∈ pieces, piece.Fits ∧ accepts piece) → IsCut pieces left →
    ∃ stream, decoder { bytes := left } = .ok stream ∧
      (∀ front, front <+: pieces → front.flatMap Piece.bytes <+: left →
        front.flatMap Piece.content <+: stream.bytes) ∧
      stream.bytes <+: pieces.flatMap Piece.content
  /-- That a file ends before a frame is complete is a failure. -/
  reported : ∀ (pieces : List Piece) (left : List UInt8) (stream : Stream),
    (∀ piece ∈ pieces, piece.Fits ∧ accepts piece) → IsCut pieces left →
    decoder { bytes := left } = .ok stream → stream.failure ≠ none

end Lockstep.Zstd
