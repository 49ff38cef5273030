import Ragged.Layout.Table

/-!
# Planning a layout

A planner turns the bounds of the segments in the input into a table. What the caller
gives is checked on the way: the widths, the number of padding blocks, the size of both
spaces, and then the segments, all at the same time. The host says which of the faults
that segments meet is reported.
-/

namespace Ragged

/-- How an input is divided into segments. -/
inductive Bounds where
  /-- The end of every segment. -/
  | inclusive (ends : List Int32)
  /-- The start and the length of every segment. -/
  | exclusive (starts lengths : List Int32)
  /-- Without lengths: the batch is one segment, and `segments` have been asked for. -/
  | whole (segments : Nat)
  deriving DecidableEq

namespace Bounds

def count : Bounds → Nat
  | inclusive ends => ends.length
  | exclusive _ lengths => lengths.length
  | whole segments => segments

end Bounds

structure Planner where
  direction : Direction
  widths : Widths
  blockSize : Nat
  deriving DecidableEq

namespace Planner

/-- Padding blocks of the segments before segment `e`. -/
def priorPadding (p : Planner) (e : Nat) : Nat := Word.satMul e p.widths.total

def paddingBlocks (n pad : Nat) : Except Fault Nat :=
  match Word.mul? n pad with
  | some blocks => .ok blocks
  | none => .error (.paddingOverflow n pad)

def checkElements (blocks blockSize : Nat) : Except Fault Unit :=
  match Word.mul? blocks blockSize with
  | some _ => .ok ()
  | none => .error (.elementOverflow blocks blockSize)

/-- Refuses padding that the padded batch cannot hold, its blocks being counted by a length. -/
def checkPadded (p : Planner) (outer padding : Nat) : Except Fault Unit :=
  match p.direction with
  | .strip => .ok ()
  | .insert =>
    if outer + padding ≤ maxLength then checkElements (outer + padding) p.blockSize
    else .error (.paddedOverflow outer padding)

def checkTotal (total outer : Nat) : Except Fault Unit :=
  if total = outer then .ok () else .error (.totalMismatch total outer)

def blocks (e : Nat) (value : Int) : Except Fault Nat :=
  if 0 ≤ value then .ok value.toNat else .error (.negativeBlocks e value)

def within (outer e inStart len : Nat) : Except Fault Nat :=
  if inStart + len ≤ outer then .ok len
  else .error (.segmentPastInput e inStart (inStart + len) outer)

/-- Segment `e`, given where it lies in the input. -/
def segment (p : Planner) (e inStart len : Nat) : Except Fault Segment :=
  match p.direction with
  | .insert => .ok ⟨inStart, inStart + p.priorPadding e, len⟩
  | .strip =>
    if len < p.widths.total then .error (.segmentTooShort e len p.widths.total)
    else if inStart < p.priorPadding e then
      .error (.startBeforePadding e inStart (p.priorPadding e))
    else .ok ⟨inStart, inStart - p.priorPadding e, len⟩

/-- Segment `e`, from where the one before it ends. The start is counted back from the
end, in 64 bits. -/
def inclusiveAt (p : Planner) (e : Nat) (start stop : Int) : Except Fault Segment := do
  let len ← blocks e (stop - start)
  p.segment e (Word.ofInt (stop - len)) len

def exclusiveAt (p : Planner) (outer e : Nat) (start length : Int) : Except Fault Segment := do
  let inStart ← blocks e start
  let len ← blocks e length
  let len ← within outer e inStart len
  p.segment e inStart len

/-- What the segments from position `e` on come to, the first starting at `start`. -/
def inclusiveFrom (p : Planner) (e : Nat) (start : Int) : List Int32 → List (Except Fault Segment)
  | [] => []
  | stop :: ends => p.inclusiveAt e start stop.toInt :: p.inclusiveFrom (e + 1) stop.toInt ends

def exclusiveFrom (p : Planner) (outer e : Nat) :
    List Int32 → List Int32 → List (Except Fault Segment)
  | start :: starts, length :: lengths =>
    p.exclusiveAt outer e start.toInt length.toInt :: p.exclusiveFrom outer (e + 1) starts lengths
  | _, _ => []

/-- The end of the last segment, or zero when there is none. -/
def inclusiveTotal (ends : List Int32) : Nat :=
  match ends.getLast? with
  | some stop => stop.toInt.toNat
  | none => 0

def exclusiveTotal (starts lengths : List Int32) : Nat :=
  match starts.getLast?, lengths.getLast? with
  | some start, some length => (start.toInt + length.toInt).toNat
  | _, _ => 0

def segments (p : Planner) (h : Host) (bounds : Bounds) (outer : Nat) :
    Except Fault (List Segment) :=
  match bounds with
  | .whole n =>
    if n = 1 then do
      let seg ← p.segment 0 0 outer
      return [seg]
    else .error (.notOneSegment n)
  | .inclusive ends => do
    checkTotal (inclusiveTotal ends) outer
    h.collect (p.inclusiveFrom 0 0 ends)
  | .exclusive starts lengths =>
    if starts.length = lengths.length then do
      checkTotal (exclusiveTotal starts lengths) outer
      h.collect (p.exclusiveFrom outer 0 starts lengths)
    else .error (.startsMismatch starts.length lengths.length)

def outBlocks (p : Planner) (outer padding : Nat) : Except Fault Nat :=
  match p.direction with
  | .insert => .ok (outer + padding)
  | .strip =>
    if outer < padding then .error (.paddingPastInput padding outer)
    else .ok (outer - padding)

/-- The table for an input of `outer` blocks. -/
def plan (p : Planner) (h : Host) (bounds : Bounds) (outer : Nat) : Except Fault Table := do
  let pad ← p.widths.checkedTotal
  let padding ← paddingBlocks bounds.count pad
  checkElements outer p.blockSize
  p.checkPadded outer padding
  let segments ← p.segments h bounds outer
  let outBlocks ← p.outBlocks outer padding
  return { segments, outBlocks, widths := p.widths, direction := p.direction,
           blockSize := p.blockSize, inBlocks := outer }

end Planner

end Ragged
