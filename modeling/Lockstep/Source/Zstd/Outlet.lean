import Lockstep.Source.Zstd.Header

/-! A decoder's memory, and the way of decoded bytes through it.

A file is taken in by portions (`intake`) and what is decoded is handed over by windows
(`handover`). `Buffers` are kept from frame to frame and replaced when a frame needs more,
or when they were far too large for long. Within a frame an `Outlet` counts what its output
buffer holds and what no window has taken over yet. -/
namespace Lockstep.Zstd

/-- How many bytes of a file are taken in at a time: a largest block and its header. -/
def intake : Nat := blockMaximum + 3

/-- How many decoded bytes are handed over at a time. -/
def handover : Nat := 8192

/-- Sizes of the buffers for data on its way in and on its way out. -/
structure Buffers where
  input : Nat := 0
  output : Nat := 0
  /-- For how many frames on end they were far too large. -/
  oversized : Nat := 0
  deriving DecidableEq, Repr

namespace Buffers

def oversize : Nat := 3

/-- After how many frames buffers that are far too large are given up. -/
def patience : Nat := 128

/-- For how many frames on end they are far too large, counting one with these needs. -/
def oversizedFor (buffers : Buffers) (input output : Nat) : Nat :=
  if oversize * (input + output) ≤ buffers.input + buffers.output then buffers.oversized + 1
  else 0

def fit (buffers : Buffers) (input output : Nat) : Buffers :=
  let oversized := buffers.oversizedFor input output
  if buffers.input < input || buffers.output < output || patience ≤ oversized then
    { input, output, oversized }
  else { buffers with oversized }

theorem le_output_fit (buffers : Buffers) (input output : Nat) :
    output ≤ (buffers.fit input output).output := by
  simp only [fit]
  split
  · exact Nat.le_refl _
  · simp_all

/-- The buffers, each made larger if it has to be. -/
def grow (buffers : Buffers) (input output : Nat) : Buffers :=
  { buffers with input := max buffers.input input, output := max buffers.output output }

end Buffers

structure Outlet where
  room : Nat
  /-- What has to stay free in it for the next block; nothing, if it holds a whole frame. -/
  reserve : Option Nat
  filled : Nat := 0
  /-- How many decoded bytes are in a window not yet handed over. -/
  pending : Nat := 0
  deriving DecidableEq, Repr

namespace Outlet

/-- Puts bytes into the buffer and from there into the window. The buffer starts over where
the next block might not fit, and a window that they overflow is handed over. -/
def put (outlet : Outlet) (size : Nat) : Outlet :=
  let filled := outlet.filled + size
  { outlet with
    filled := if outlet.reserve.any (outlet.room < filled + ·) then 0 else filled
    pending := if outlet.pending + size ≤ handover then outlet.pending + size else 0 }

/-- Hands the window over, however little is in it. -/
def release (outlet : Outlet) : Outlet := { outlet with pending := 0 }

end Outlet

end Lockstep.Zstd
