import Lockstep.Source.Failure

/-! Headers of zstd frames.

The first byte of a header, its descriptor, says which fields follow: a window byte, a
dictionary's number, the size of the content. What they say together is the `Header`;
`Header.read` refuses one that asks for what is not decoded. -/
namespace Lockstep.Zstd

/-- The number in bytes, the least significant byte first. -/
def littleEndian (bytes : List UInt8) : Nat := bytes.foldr (fun b n => b.toNat + 256 * n) 0

def blockMaximum : Nat := 128 * 1024

/-- The first byte of a frame header. -/
abbrev Descriptor := UInt8

namespace Descriptor

/-- Whether the frame's window is its whole content. -/
def isSingle (d : Descriptor) : Bool := d / 32 % 2 == 1

/-- Whether the frame has a checksum or a reserved bit. -/
def isRefused (d : Descriptor) : Bool := d / 4 % 4 != 0

def windowBytes (d : Descriptor) : Nat := if d.isSingle then 0 else 1

def dictionaryBytes (d : Descriptor) : Nat :=
  match (d % 4).toNat with
  | 0 => 0
  | 1 => 1
  | 2 => 2
  | _ => 4

def sizeBytes (d : Descriptor) : Nat :=
  match (d / 64).toNat with
  | 0 => if d.isSingle then 1 else 0
  | 1 => 2
  | 2 => 4
  | _ => 8

def fieldBytes (d : Descriptor) : Nat := d.windowBytes + d.dictionaryBytes + d.sizeBytes

/-- The number of the dictionary; no dictionary is number zero. -/
def dictionary (d : Descriptor) (fields : List UInt8) : Nat :=
  littleEndian ((fields.drop d.windowBytes).take d.dictionaryBytes)

/-- The number that tells the size of the content. In two bytes it counts from 256. -/
def sizeField (d : Descriptor) (fields : List UInt8) : Nat :=
  littleEndian (fields.drop (d.windowBytes + d.dictionaryBytes)) +
    if d.sizeBytes = 2 then 256 else 0

/-- The size of the content, if the header tells it: the largest number of eight bytes tells
nothing. -/
def contentSize? (d : Descriptor) (fields : List UInt8) : Option Nat :=
  if d.sizeBytes = 0 || d.sizeField fields == UInt64.size - 1 then none
  else some (d.sizeField fields)

/-- The power of two in a window byte. -/
def windowPower (b : UInt8) : Nat := 10 + (b / 8).toNat

/-- The window that a window byte asks for: a power of two and eighths of it. -/
def windowOf (b : UInt8) : Nat := 1 <<< windowPower b / 8 * (8 + (b % 8).toNat)

end Descriptor

structure Header where
  /-- The size of its content, if known beforehand. -/
  declared : Option Nat
  /-- How much of its content has to stay at hand. -/
  window : Nat
  deriving DecidableEq, Repr

namespace Header

def powerMaximum : Nat := 31

def ofFields (d : Descriptor) (fields : List UInt8) : Header where
  declared := d.contentSize? fields
  window := if d.isSingle then d.sizeField fields else Descriptor.windowOf (fields.headD 0)

/-- The header of a frame, if the frame is decoded at all. -/
def read (d : Descriptor) (fields : List UInt8) : Except ReadError Header :=
  if d.isRefused then .error .unsupported
  else if !d.isSingle && powerMaximum < Descriptor.windowPower (fields.headD 0) then
    .error .windowTooLarge
  else if d.dictionary fields ≠ 0 then .error .dictionaryMismatch
  else .ok (ofFields d fields)

def blockLimit (header : Header) : Nat := min header.window blockMaximum

end Header

end Lockstep.Zstd
