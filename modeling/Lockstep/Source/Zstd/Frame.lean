import Lockstep.Source.Zstd.Outlet

/-! Frames of raw and repeated blocks, one byte at a time.

A frame is decoded in one of two ways, and only its end shows in which. One that declares
no more content than a window takes, and that lies in one intake, is decoded *at once*: its
content has to be what it declares, and if anything is wrong, nothing of it is delivered.
Any other frame is decoded *as it arrives*: its blocks are held to the frame's window and to
the room in the output buffer, a fault takes the window begun with it, and an empty last
block ends the frame whatever its content is. So a frame keeps what each way has found, and
`Frame.finish` says which of the two counts. Cut short, a frame was decoded as it arrived. -/
namespace Lockstep.Zstd

/-- The largest window for which memory is found. -/
def windowMaximum : Nat := 128 * 1024 * 1024 + 1

/-! ### Blocks -/

inductive BlockKind where
  | raw
  | repeated
  /-- Anything else; such blocks are not decoded. -/
  | compressed
  deriving DecidableEq, Repr

structure Block where
  kind : BlockKind
  /-- How many bytes it gives, or has if it is compressed. -/
  size : Nat
  last : Bool
  deriving DecidableEq, Repr

namespace Block

/-- The block that a header begins: one bit for the last block, two for the kind, and the
size. One kind is reserved. -/
def ofHeader? (header : Nat) : Option Block :=
  let kind? : Option BlockKind := match header / 2 % 4 with
    | 0 => some .raw
    | 1 => some .repeated
    | 2 => some .compressed
    | _ => none
  kind?.map fun kind => ⟨kind, header / 8, header % 2 == 1⟩

def taken (block : Block) : Nat := if block.kind = .repeated then 1 else block.size

end Block

/-! ### Frames -/

structure Breakoff where
  cause : ReadError
  /-- What was delivered of it, the last byte first. -/
  delivered : List UInt8
  deriving DecidableEq, Repr

inductive Progress (σ : Type) where
  | going (frame : σ)
  | ended (frame : σ)
  | broken (breakoff : Breakoff)
  deriving DecidableEq, Repr

inductive Frame.Stage where
  /-- The header of a block, of which some bytes were seen. -/
  | header (seen : List UInt8)
  /-- Bytes of a block, one or more. -/
  | data (block : Block) (left : Nat)
  deriving DecidableEq, Repr

structure Frame where
  header : Header
  start : Nat
  /-- The buffers to decode it as it arrives. -/
  buffers : Buffers
  outlet : Outlet
  stage : Frame.Stage := .header []
  /-- What its blocks gave, the last byte first, as long as either way goes on. -/
  content : List UInt8 := []
  produced : Nat := 0
  /-- How many of them are not in the outlet yet. -/
  part : Nat := 0
  /-- Where decoding as it arrives broke off. -/
  broken : Option Breakoff := none
  /-- Why decoding at once fails. -/
  refused : Option ReadError := none
  deriving DecidableEq, Repr

namespace Frame

/-- The buffers that a frame needs as it arrives. -/
def fitted (header : Header) (buffers : Buffers) : Buffers :=
  let window := max header.window 1024 + 2 * header.blockLimit + 64
  buffers.fit (max header.blockLimit 4) (min (header.declared.getD window) window)

def begin (header : Header) (start : Nat) (buffers : Buffers) : Frame :=
  let buffers := fitted header buffers
  let reserve := if header.declared.all (buffers.output < ·) then some header.blockLimit else none
  { header, start, buffers
    outlet := { room := buffers.output, reserve }
    broken := if windowMaximum < header.window then some ⟨.windowTooLarge, []⟩ else none }

/-- Decoding as it arrives breaks off, if it did not before, and loses the window begun. -/
def breakOff (frame : Frame) (cause : ReadError) : Frame :=
  { frame with
    broken := frame.broken <|>
      some ⟨cause, frame.content.drop (frame.outlet.pending + frame.part)⟩ }

/-- Decoding at once fails, if it did not before. -/
def refuse (frame : Frame) (cause : ReadError) : Frame :=
  { frame with refused := frame.refused <|> some cause }

/-- What is read of a frame that goes no further for some cause. -/
def cut (frame : Frame) (cause : ReadError) : Breakoff :=
  frame.broken.getD ⟨cause, frame.content⟩

/-- Whether what the blocks gave is not what the header declares. -/
def isMiscounted (frame : Frame) : Bool := frame.header.declared.any (· != frame.produced)

/-- A block's byte, as often as it gives it. -/
def give (frame : Frame) (count : Nat) (b : UInt8) : Frame :=
  let wanted := frame.broken.isNone || frame.refused.isNone
  let frame := { frame with
    content := if wanted then List.replicate count b ++ frame.content else frame.content
    produced := frame.produced + count
    part := frame.part + count }
  if frame.outlet.room < frame.outlet.filled + frame.part then frame.breakOff .noRoom else frame

def settle (frame : Frame) : Frame :=
  { frame with outlet := frame.outlet.put frame.part, part := 0 }

/-- After the last byte of an intake: what has arrived is handed over. -/
def release (frame : Frame) : Frame :=
  let frame := frame.settle
  { frame with outlet := frame.outlet.release }

def next (frame : Frame) (block : Block) : Progress Frame :=
  if block.last then .ended frame else .going { frame with stage := .header [] }

/-- What a block's header alone gives away. -/
def weigh (frame : Frame) (block : Block) : Frame :=
  let frame := if frame.header.blockLimit < block.taken then frame.breakOff .corrupted else frame
  if block.kind = .compressed then frame.refuse .corrupted
  else if handover < frame.produced + block.size then frame.refuse .noRoom
  else frame

def openBlock (frame : Frame) (header : Nat) : Progress Frame :=
  match Block.ofHeader? header with
  | none => .broken ((frame.breakOff .corrupted).cut .corrupted)
  | some block =>
    let frame := frame.weigh block
    if block.taken = 0 then frame.next block
    else .going { frame with stage := .data block block.taken }

def takeByte (frame : Frame) (block : Block) (b : UInt8) : Frame :=
  match block.kind with
  | .raw => frame.give 1 b
  | .repeated =>
    let frame := frame.give block.size b
    if frame.header.blockLimit < block.size then frame.breakOff .corrupted else frame
  | .compressed => frame

def closeBlock (frame : Frame) (block : Block) : Progress Frame :=
  let isFaulty := block.kind == .compressed || block.last && frame.isMiscounted
  let frame := if isFaulty then frame.breakOff .corrupted else frame
  frame.settle.next block

def step (frame : Frame) (b : UInt8) : Progress Frame :=
  match frame.stage with
  | .header seen =>
    let seen := seen ++ [b]
    if seen.length = 3 then frame.openBlock (littleEndian seen)
    else .going { frame with stage := .header seen }
  | .data block left =>
    let frame := frame.takeByte block b
    if left ≤ 1 then frame.closeBlock block
    else .going { frame with stage := .data block (left - 1) }

/-- Whether a frame that ends before a place in the file is decoded at once. -/
def isAtOnce (frame : Frame) (stop : Nat) : Bool :=
  frame.header.declared.any (· ≤ handover) && frame.start / intake == (stop - 1) / intake

/-- The content of a frame that ends before a place in the file, the last byte first. -/
def finish (frame : Frame) (stop : Nat) : Except Breakoff (List UInt8) :=
  if frame.isAtOnce stop then
    match frame.refused with
    | some cause => .error ⟨cause, []⟩
    | none => if frame.isMiscounted then .error ⟨.corrupted, []⟩ else .ok frame.content
  else
    match frame.broken with
    | some breakoff => .error breakoff
    | none => .ok frame.content

end Frame

end Lockstep.Zstd
