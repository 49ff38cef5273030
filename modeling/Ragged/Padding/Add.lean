import Ragged.Fill
import Ragged.Padding.Rewrite

/-!
# Adding padding

A segment's output region is its start pad, its own blocks and its end pad. Pads are
filled from templates of one block each.
-/

namespace Ragged

/-- Widths, and the blocks that the pads are filled with; zeros where there is none. -/
structure Padding (α : Type) where
  widths : Widths
  startFill : Option (List α) := none
  stopFill : Option (List α) := none
  deriving DecidableEq

namespace Padding

variable {α : Type}

def withStartFill (p : Padding α) (block : List α) : Padding α :=
  { p with startFill := some block }

def withStopFill (p : Padding α) (block : List α) : Padding α :=
  { p with stopFill := some block }

def withFill (p : Padding α) (block : List α) : Padding α :=
  (p.withStartFill block).withStopFill block

def checkFill (side : Side) (blockSize : Nat) : Option (List α) → Except Fault Unit
  | none => .ok ()
  | some block =>
    if block.length = blockSize then .ok ()
    else .error (.fillSize side block.length blockSize)

/-- Fills have to be one block. -/
def checkFills (p : Padding α) (blockSize : Nat) : Except Fault Unit := do
  checkFill .start blockSize p.startFill
  checkFill .stop blockSize p.stopFill

variable [Element α]

def addRegion (p : Padding α) (t : Table) (grain : Nat) (input : List α)
    (seg : Segment) (region : List α) : Except Fault (List α) := do
  let payload ← slice input (seg.inStart * t.blockSize) (seg.len * t.blockSize)
  let (head, rest) ← splitOff region (t.widths.start * t.blockSize)
  let (body, tail) ← splitOff rest (seg.len * t.blockSize)
  return fill p.startFill grain head ++ copy grain body payload ++ fill p.stopFill grain tail

/-- Writes the padded batch by the given table; the table has the widths. -/
def launchAdd (p : Padding α) (t : Table) (h : Host) (grain : Nat) (input : List α) :
    Launch (Buffers α) Unit :=
  Buffers.rewrite t h (p.addRegion t grain input) input

end Padding

end Ragged
