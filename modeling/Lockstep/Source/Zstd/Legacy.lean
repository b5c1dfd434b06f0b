import Lockstep.Source.Zstd.Frame

/-! Frames of older versions of the zstd format, of which the four latest are decoded.

Their block headers put the kind first and the size last, a block of a kind of its own ends
a frame, and a raw block is delivered when it is complete. Nothing checks a size that the
header of a frame may tell. -/
namespace Lockstep.Zstd.Legacy

inductive Version where
  | one | two | three | four | five | six | seven
  deriving DecidableEq, Repr

namespace Version

def all : List Version := [one, two, three, four, five, six, seven]

def magic : Version → List UInt8
  | one => [0xFD, 0x2F, 0xB5, 0x1E]
  | two => [0x22, 0xB5, 0x2F, 0xFD]
  | three => [0x23, 0xB5, 0x2F, 0xFD]
  | four => [0x24, 0xB5, 0x2F, 0xFD]
  | five => [0x25, 0xB5, 0x2F, 0xFD]
  | six => [0x26, 0xB5, 0x2F, 0xFD]
  | seven => [0x27, 0xB5, 0x2F, 0xFD]

def ofMagic? (bytes : List UInt8) : Option Version := all.find? (·.magic == bytes)

def fieldBytes (version : Version) (first : UInt8) : Nat :=
  match version with
  | six =>
    match (first / 64).toNat with
    | 0 => 0
    | 1 => 1
    | 2 => 2
    | _ => 8
  | seven => Descriptor.fieldBytes first
  | _ => 0

end Version

/-- Whether bytes begin as a frame of some version does. -/
def begins (bytes : List UInt8) : Bool := Version.all.any (bytes.isPrefixOf ·.magic)

/-- Sizes that follow from a frame's header: of its buffers, and of its largest block. -/
structure Layout where
  input : Nat
  output : Nat
  block : Nat
  deriving DecidableEq, Repr

/-- The layout for a window: the window itself, a block and a margin. -/
def Layout.ofWindow (window : Nat) : Layout :=
  let block := min window blockMaximum
  ⟨block, window + block + 16, block⟩

def windowMaximum : Nat := 128 * 1024 * 1024

/-- The window of a frame of the last version. Where the size of the content stands for it,
only four bytes of that size count. -/
def sevenWindow (first : Descriptor) (fields : List UInt8) : Nat :=
  let window := (Header.ofFields first fields).window
  if first.isSingle then window % UInt32.size else window

def Version.layout (version : Version) (first : UInt8) (fields : List UInt8) :
    Except ReadError Layout :=
  match version with
  | one | two | three => .error .versionUnsupported
  | four | five =>
    if first / 16 ≠ 0 then .error .unsupported
    else .ok ⟨blockMaximum, 1 <<< (11 + (first % 16).toNat), blockMaximum⟩
  | six =>
    if first / 32 % 2 ≠ 0 then .error .unsupported
    else .ok (.ofWindow (1 <<< (12 + (first % 16).toNat)))
  | seven =>
    let window := sevenWindow first fields
    if Descriptor.isRefused first || windowMaximum < window then .error .unsupported
    else if Descriptor.dictionary first fields ≠ 0 then .error .dictionaryMismatch
    else .ok (.ofWindow (max window 1024))

/-! ### Frames -/

inductive Stage where
  /-- The header of a block, of which some bytes were seen. -/
  | header (seen : List UInt8)
  /-- Bytes of a block, one or more, after those seen; the last one seen comes first. -/
  | data (kind : BlockKind) (left : Nat) (seen : List UInt8)
  deriving DecidableEq, Repr

structure Frame where
  version : Version
  buffers : Buffers
  outlet : Outlet
  stage : Stage := .header []
  /-- What its blocks gave, the last byte first. -/
  content : List UInt8 := []
  deriving DecidableEq, Repr

namespace Frame

def begin (version : Version) (layout : Layout) (buffers : Buffers) : Frame :=
  let buffers := buffers.grow layout.input layout.output
  { version, buffers, outlet := { room := buffers.output, reserve := some layout.block } }

/-- Where a fault breaks it off: the window begun is lost. -/
def breakoff (frame : Frame) (cause : ReadError) : Breakoff :=
  ⟨cause, frame.content.drop frame.outlet.pending⟩

/-- Whether bytes of a block wait for the others that the input buffer could not hold. -/
def isStuck (frame : Frame) : Bool :=
  match frame.stage with
  | .data _ left (b :: seen) => frame.buffers.input < left + (b :: seen).length
  | _ => false

/-- What is read of a frame that goes no further for some cause. -/
def cut (frame : Frame) (cause : ReadError) : Breakoff :=
  if frame.isStuck then frame.breakoff .corrupted else ⟨cause, frame.content⟩

/-- After the last byte of an intake: what has arrived is handed over. -/
def release (frame : Frame) : Progress Frame :=
  if frame.isStuck then .broken (frame.breakoff .corrupted)
  else .going { frame with outlet := frame.outlet.release }

/-- After the header of a block. A block that has no bytes ends the frame. -/
def openBlock (frame : Frame) (kind : BlockKind) (size : Nat) : Progress Frame :=
  let taken := if kind = .repeated then 1 else size
  if taken = 0 then .ended frame else .going { frame with stage := .data kind taken [] }

/-- After the last byte of a block; the last byte comes first. -/
def closeBlock (frame : Frame) (kind : BlockKind) (bytes : List UInt8) : Progress Frame :=
  match kind with
  | .raw =>
    if frame.outlet.room < frame.outlet.filled + bytes.length then
      .broken (frame.breakoff .noRoom)
    else .going { frame with
      outlet := frame.outlet.put bytes.length
      stage := .header []
      content := bytes ++ frame.content }
  | .repeated => .broken (frame.breakoff .generic)
  | .compressed => .broken (frame.breakoff .corrupted)

def step (frame : Frame) (b : UInt8) : Progress Frame :=
  match frame.stage with
  | .header [first, second] =>
    let size := (first % 8).toNat * 65536 + second.toNat * 256 + b.toNat
    match (first / 64).toNat with
    | 0 => frame.openBlock .compressed size
    | 1 => frame.openBlock .raw size
    | 2 => frame.openBlock .repeated size
    | _ => .ended frame
  | .header seen => .going { frame with stage := .header (seen ++ [b]) }
  | .data kind left seen =>
    if left ≤ 1 then frame.closeBlock kind (b :: seen)
    else .going { frame with stage := .data kind (left - 1) (b :: seen) }

end Frame

end Lockstep.Zstd.Legacy
