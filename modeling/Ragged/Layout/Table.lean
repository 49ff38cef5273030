import Ragged.Host
import Ragged.Widths

/-!
# Layout tables

Where every segment lies in the input and in the output, in blocks. Offsets and lengths
turn into elements only in `outRegions`.
-/

namespace Ragged

/-- Which way blocks move between input and output. -/
inductive Direction where
  /-- The output has the padding. -/
  | insert
  /-- The input has the padding. -/
  | strip
  deriving DecidableEq

structure Table where
  segments : List Segment
  widths : Widths
  direction : Direction
  blockSize : Nat
  inBlocks : Nat
  outBlocks : Nat
  deriving DecidableEq

namespace Table

def numSegments (t : Table) : Nat := t.segments.length

def inElements (t : Table) : Nat := t.inBlocks * t.blockSize

def outElements (t : Table) : Nat := t.outBlocks * t.blockSize

def segmentOutBlocks (t : Table) (seg : Segment) : Nat :=
  match t.direction with
  | .insert => seg.len + t.widths.total
  | .strip => seg.len - t.widths.total

/-- Offset and length of a segment in the output, in elements. -/
def outRegion (t : Table) (seg : Segment) : Nat × Nat :=
  (seg.outStart * t.blockSize, t.segmentOutBlocks seg * t.blockSize)

def outRegions (t : Table) : List (Nat × Nat) := t.segments.map t.outRegion

def newLength (t : Table) (seg : Segment) : Except Fault Int32 :=
  if t.segmentOutBlocks seg ≤ maxLength then .ok (Int32.ofNat (t.segmentOutBlocks seg))
  else .error (.newLengthOverflow seg.len)

def newLengths (t : Table) (h : Host) : Except Fault (List Int32) :=
  h.collect (t.segments.map t.newLength)

end Table

end Ragged
