import Lockstep.Source.Failure
import Lockstep.Text.Line
import Lockstep.Text.Utf8

/-! Opened inputs: bytes, and the failure after them if there is one.

Lines are delivered while reading goes on. A failure takes what follows the last line
feed with it, because that line was not complete when reading broke off. How a stream is
decoded is up to a library, so a decoder is any function of one. -/
namespace Lockstep

structure Stream where
  /-- What can be read. -/
  bytes : List UInt8 := []
  /-- Why no more can, if that is not the end. -/
  failure : Option ReadError := none
  deriving DecidableEq, Repr

namespace Stream

/-- The lines of bytes as text. -/
def textLines (bytes : List UInt8) : List Text := (lines 0x0A 0x0D bytes).map Utf8.decode

/-- The lines that are delivered. -/
def lines (stream : Stream) : List Text :=
  match stream.failure with
  | none => textLines stream.bytes
  | some _ => (endedLines 0x0A 0x0D stream.bytes).map Utf8.decode

/-- All lines, or why there are not all. -/
def readAll (stream : Stream) : Except ReadError (List Text) :=
  match stream.failure with
  | none => .ok stream.lines
  | some cause => .error cause

end Stream

/-- A library's way to read a compressed stream: what it decodes to and where that breaks
off, or why there is no reading it. -/
abbrev StreamDecoder := Stream → Except OpenError Stream

end Lockstep
