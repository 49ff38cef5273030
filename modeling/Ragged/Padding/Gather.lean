import Ragged.Chunk
import Ragged.Padding.Rewrite

/-!
# Gathering padding

The padding blocks of all segments are summed column by column, start pads and end pads
apart. The segments are cut into tasks as the host has it; every task sums its own
segments, and the sums of tasks are added pairwise. A column is narrowed once, when it is
written.
-/

namespace Ragged

inductive GatherMode where
  | separate
  | merged
  deriving DecidableEq

/-- Sums of the padding, one block each: the start pads and the end pads, or both in one. -/
inductive Gathered (α : Type) where
  | separate (start stop : List α)
  | merged (sums : List α)
  deriving DecidableEq

namespace Gathered

variable {α : Type}

def checkSize (buffer : SumBuffer) (held blockSize : Nat) : Except Fault Unit :=
  if held = blockSize then .ok () else .error (.sumSize buffer held blockSize)

def check (blockSize : Nat) : Gathered α → Except Fault Unit
  | separate start stop => do
    checkSize .start start.length blockSize
    checkSize .stop stop.length blockSize
  | merged sums => checkSize .merged sums.length blockSize

def zeroed [Element α] (h : Host) (blockSize : Nat) : GatherMode → Except Fault (Gathered α)
  | .separate => do
    let start ← Ragged.zeroed α h .startSums blockSize
    let stop ← Ragged.zeroed α h .stopSums blockSize
    return separate start stop
  | .merged => do
    let sums ← Ragged.zeroed α h .mergedSums blockSize
    return merged sums

end Gathered

/-- Sums in progress, a column an entry. -/
structure PadSums (α : Type) [Element α] where
  start : List (Element.Acc α)
  stop : List (Element.Acc α)

namespace PadSums

variable {α : Type} [Element α]

def zero (blockSize : Nat) : PadSums α :=
  ⟨List.replicate blockSize Element.zeroAcc, List.replicate blockSize Element.zeroAcc⟩

def add (s t : PadSums α) : PadSums α :=
  ⟨List.zipWith Element.addAcc s.start t.start, List.zipWith Element.addAcc s.stop t.stop⟩

def addRow (sums : List (Element.Acc α)) (row : List α) : List (Element.Acc α) :=
  List.zipWith (fun s a => Element.addAcc s (Element.widen a)) sums row

/-- `count` blocks of the input from block `first` on. -/
def rows (input : List α) (blockSize first count : Nat) : Except Fault (List (List α)) := do
  let run ← slice input (first * blockSize) (count * blockSize)
  return chunks blockSize run

/-- The end pad of a segment. When it is longer than all there is before the segment's end,
its first row wraps to a number past its last one and it has no rows. -/
def stopRows (t : Table) (input : List α) (seg : Segment) : Except Fault (List (List α)) :=
  if t.widths.stop ≤ seg.inStart + seg.len then
    rows input t.blockSize (seg.inStart + seg.len - t.widths.stop) t.widths.stop
  else .ok []

/-- Adds the padding of one segment. -/
def addSegment (t : Table) (input : List α) (sums : PadSums α) (seg : Segment) :
    Except Fault (PadSums α) := do
  let startRows ← rows input t.blockSize seg.inStart t.widths.start
  let stopRows ← stopRows t input seg
  return ⟨startRows.foldl addRow sums.start, stopRows.foldl addRow sums.stop⟩

/-- Sums of the segments that a cut holds. -/
def ofCut (t : Table) (input : List α) : Cut → Except Fault (PadSums α)
  | .task segs => segs.foldlM (addSegment t input) (zero t.blockSize)
  | .join left right => do
    let a ← ofCut t input left
    let b ← ofCut t input right
    return a.add b

/-- Narrows the sums into buffers of the given form. -/
def narrow (s : PadSums α) : Gathered α → Gathered α
  | .separate _ _ => .separate (s.start.map Element.narrow) (s.stop.map Element.narrow)
  | .merged _ =>
    .merged (List.zipWith (fun a b => Element.narrow (Element.addAcc a b)) s.start s.stop)

end PadSums

namespace Padding

variable {α : Type} [Element α]

def launchGather (t : Table) (cut : Cut) (input : List α) : Launch (Gathered α) Unit := do
  liftExcept (Buffers.checkInput t input.length)
  liftExcept ((← get).check t.blockSize)
  let sums ← liftExcept (PadSums.ofCut t input cut)
  modify sums.narrow

end Padding

end Ragged
