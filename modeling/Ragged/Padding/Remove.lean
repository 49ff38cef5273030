import Ragged.Fill
import Ragged.Padding.Rewrite

/-!
# Removing padding

A segment's output region is filled from the input, past the segment's start pad.
-/

namespace Ragged.Padding

variable {α : Type}

def removeRegion (t : Table) (grain : Nat) (input : List α)
    (seg : Segment) (region : List α) : Except Fault (List α) := do
  let payload ← slice input ((seg.inStart + t.widths.start) * t.blockSize) region.length
  return copy grain region payload

def launchRemove (t : Table) (h : Host) (grain : Nat) (input : List α) :
    Launch (Buffers α) Unit :=
  Buffers.rewrite t h (removeRegion t grain input) input

end Ragged.Padding
