import Lockstep.Source.Stream
import Lockstep.Source.Zstd.Legacy

/-! A decoder for the zstd format, as far as frames of raw and repeated blocks go.

It takes one byte at a time, so that a file cut anywhere is a decoder stopped anywhere, and
files one after the other are decoded one after the other. Between frames it expects a
frame's magic number; skippable frames carry nothing. Compressed blocks, checksums and
dictionaries are not read. A check works with any decoder: this is the one that the program
is built with. -/
namespace Lockstep.Zstd

def magic : List UInt8 := [0x28, 0xB5, 0x2F, 0xFD]

/-- Begins a skippable frame; the first byte is one of sixteen. -/
def skippableMagic (first : UInt8) : List UInt8 := [first, 0x2A, 0x4D, 0x18]

/-- Whether bytes begin as a skippable frame does. -/
def beginsSkippable (bytes : List UInt8) : Bool :=
  match bytes with
  | [] => true
  | first :: _ => first / 16 == 5 && bytes.isPrefixOf (skippableMagic first)

inductive Phase where
  /-- A magic number, of which some bytes were seen. -/
  | magic (seen : List UInt8)
  | skipSize (seen : List UInt8)
  /-- Bytes of a skippable frame, one or more. -/
  | skipping (left : Nat)
  | descriptor
  | header (descriptor : Descriptor) (seen : List UInt8)
  | frame (frame : Frame)
  | legacyHeader (version : Legacy.Version) (seen : List UInt8)
  | legacy (frame : Legacy.Frame)
  /-- Nothing: decoding broke off. -/
  | failed (cause : ReadError)
  deriving DecidableEq, Repr

structure Decoder where
  phase : Phase := .magic []
  position : Nat := 0
  start : Nat := 0
  buffers : Buffers := {}
  /-- The buffers for the version of the last older frame. -/
  legacyBuffers : Option (Legacy.Version × Buffers) := none
  /-- What was delivered, the last byte first. -/
  output : List UInt8 := []
  deriving DecidableEq, Repr

namespace Decoder

def fail (decoder : Decoder) (cause : ReadError) : Decoder :=
  { decoder with phase := .failed cause }

def breakOff (decoder : Decoder) (breakoff : Breakoff) : Decoder :=
  { decoder with
    phase := .failed breakoff.cause
    output := breakoff.delivered ++ decoder.output }

/-- After a frame: its content is delivered, and another frame may begin. -/
def deliver (decoder : Decoder) (content : List UInt8) : Decoder :=
  { decoder with
    phase := .magic []
    start := decoder.position
    output := content ++ decoder.output }

/-- Whether the frame lies in one intake so far. -/
def isInOneIntake (decoder : Decoder) : Bool :=
  decoder.start / intake == (decoder.position - 1) / intake

/-! ### Skippable frames -/

/-- Before bytes of a skippable frame, if there are any. -/
def skip (decoder : Decoder) (size : Nat) : Decoder :=
  if size = 0 then decoder.deliver [] else { decoder with phase := .skipping size }

/-- After the size of a skippable frame. Buffers are made for it as for a frame without
blocks. -/
def openSkippable (decoder : Decoder) (size : Nat) : Decoder :=
  { decoder with buffers := Frame.fitted ⟨some size, 0⟩ decoder.buffers }.skip size

/-! ### Frames -/

def openFrame (decoder : Decoder) (d : Descriptor) (fields : List UInt8) : Decoder :=
  match Header.read d fields with
  | .ok header =>
    { decoder with phase := .frame (.begin header decoder.start decoder.buffers) }
  | .error cause => decoder.fail cause

/-- After the last byte of a frame. A frame that is decoded at once needs no buffers. -/
def closeFrame (decoder : Decoder) (frame : Frame) : Decoder :=
  match frame.finish decoder.position with
  | .ok content =>
    let buffers := if frame.isAtOnce decoder.position then decoder.buffers else frame.buffers
    { decoder with buffers }.deliver content
  | .error breakoff => decoder.breakOff breakoff

def advance (decoder : Decoder) (progress : Progress Frame) : Decoder :=
  match progress with
  | .going frame => { decoder with phase := .frame frame }
  | .ended frame => decoder.closeFrame frame
  | .broken breakoff => decoder.breakOff breakoff

/-! ### Frames of older versions -/

/-- The buffers for a version: those of the last older frame if it had the same one. -/
def buffersFor (decoder : Decoder) (version : Legacy.Version) : Buffers :=
  match decoder.legacyBuffers with
  | some (known, buffers) => if known = version then buffers else {}
  | none => {}

/-- After some bytes of the header of an older frame. -/
def openLegacy (decoder : Decoder) (version : Legacy.Version) (seen : List UInt8) : Decoder :=
  let first := seen.headD 0
  if seen.length ≤ version.fieldBytes first then
    { decoder with phase := .legacyHeader version seen }
  else match version.layout first (seen.drop 1) with
    | .ok layout =>
      { decoder with phase := .legacy (.begin version layout (decoder.buffersFor version)) }
    | .error cause => decoder.fail cause

def advanceLegacy (decoder : Decoder) (progress : Progress Legacy.Frame) : Decoder :=
  match progress with
  | .going frame => { decoder with phase := .legacy frame }
  | .ended frame =>
    { decoder with legacyBuffers := some (frame.version, frame.buffers) }.deliver frame.content
  | .broken breakoff => decoder.breakOff breakoff

/-! ### The bytes of a file -/

/-- A byte where a frame begins. Older versions are known by the byte after their magic
number, in the same intake. -/
def takeMagic (decoder : Decoder) (seen : List UInt8) (b : UInt8) : Decoder :=
  match Legacy.Version.ofMagic? seen with
  | some version =>
    if decoder.isInOneIntake then decoder.openLegacy version [b] else decoder.fail .unknownFrame
  | none =>
    let seen := seen ++ [b]
    if seen = magic then { decoder with phase := .descriptor }
    else if beginsSkippable seen then
      { decoder with phase := if seen.length = 4 then .skipSize [] else .magic seen }
    else if seen.isPrefixOf magic || Legacy.begins seen then { decoder with phase := .magic seen }
    else decoder.fail .unknownFrame

def take (decoder : Decoder) (b : UInt8) : Decoder :=
  match decoder.phase with
  | .magic seen => decoder.takeMagic seen b
  | .skipSize seen =>
    let seen := seen ++ [b]
    if seen.length = 4 then decoder.openSkippable (littleEndian seen)
    else { decoder with phase := .skipSize seen }
  | .skipping left => decoder.skip (left - 1)
  | .descriptor => { decoder with phase := .header b [] }
  | .header d seen =>
    let seen := seen ++ [b]
    if seen.length = d.fieldBytes then decoder.openFrame d seen
    else { decoder with phase := .header d seen }
  | .frame frame => decoder.advance (frame.step b)
  | .legacyHeader version seen => decoder.openLegacy version (seen ++ [b])
  | .legacy frame => decoder.advanceLegacy (frame.step b)
  | .failed _ => decoder

def release (decoder : Decoder) : Decoder :=
  match decoder.phase with
  | .frame frame => { decoder with phase := .frame frame.release }
  | .legacy frame => decoder.advanceLegacy frame.release
  | _ => decoder

def step (decoder : Decoder) (b : UInt8) : Decoder :=
  let decoder := { decoder with position := decoder.position + 1 }.take b
  if decoder.position % intake = 0 then decoder.release else decoder

/-- Why a file that ends in the magic number of a frame is not complete. -/
def missing (seen : List UInt8) : ReadError :=
  if seen.isPrefixOf magic || beginsSkippable seen then .incompleteFrame else .unknownFrame

/-- What a file gives that ends here, or that cannot be read on. An empty file has no frame,
so it is not complete. -/
def finish (decoder : Decoder) (failure : Option ReadError) : Stream :=
  let broken (breakoff : Breakoff) : Stream :=
    { bytes := (breakoff.delivered ++ decoder.output).reverse, failure := some breakoff.cause }
  let cause := failure.getD .incompleteFrame
  match decoder.phase with
  | .magic [] =>
    if decoder.position = 0 then broken ⟨cause, []⟩
    else { bytes := decoder.output.reverse, failure }
  | .magic seen => broken ⟨failure.getD (missing seen), []⟩
  | .frame frame => broken (frame.cut cause)
  | .legacy frame => broken (frame.cut cause)
  | .failed earlier => broken ⟨earlier, []⟩
  | _ => broken ⟨cause, []⟩

end Decoder

/-- The content of a compressed stream, as far as it can be read. -/
def decode (stream : Stream) : Stream :=
  (stream.bytes.foldl Decoder.step {}).finish stream.failure

/-- Nothing is read before decoding begins, so there is always reading it. -/
def decoder : StreamDecoder := fun stream => .ok (decode stream)

end Lockstep.Zstd
