import Ragged.Decimal
import Ragged.Layout.Table
import Ragged.Padding.Add
import Ragged.Shape

/-!
# Reports

Text about layouts and transforms for people to read.
-/

namespace Ragged.Report

/-- Rows of a report; segments past them are only counted. -/
def maxRows : Nat := 16

/-- Dimensions that are still written out. -/
def maxDims : Nat := 4

/-- Sizes are written in units of 2^20 bytes with two places. The byte count goes through
a binary number of 53 digits. -/
def memoryText (bytes : Nat) : String :=
  Decimal.fixed 2 (Decimal.roundBinary 53 bytes) 0x100000 ++ " MiB"

def dimsText (dims : List Nat) : String :=
  if dims.length ≤ maxDims then "×".intercalate (dims.map toString)
  else s!"{dims.length}d batch"

def directionText : Direction → String
  | .insert => "insert"
  | .strip => "strip"

def column (width : Nat) (text : String) : String :=
  text ++ String.ofList (List.replicate (width - text.length) ' ')

def row (seg inStart outStart len outLen : String) : String :=
  column 8 seg ++ " " ++ column 12 inStart ++ " " ++ column 12 outStart ++ " " ++
    column 12 len ++ " " ++ outLen

def rule : String := String.ofList (List.replicate 60 '-')

def segmentRow (t : Table) (index : Nat) (seg : Segment) : String :=
  row (toString index) (toString seg.inStart) (toString seg.outStart) (toString seg.len)
    (toString (t.segmentOutBlocks seg))

def moreRows (t : Table) : List String :=
  if maxRows < t.numSegments then [s!"... {t.numSegments - maxRows} more segments"] else []

def lines (t : Table) (shape : Shape) (elementBytes : Nat) : List String :=
  ["", "Layout Statistics", "=================", "",
    "Input Shape: " ++ dimsText shape.dims,
    s!"Direction: {directionText t.direction}  Widths: start={t.widths.start} end={t.widths.stop}  Block Size: {t.blockSize}",
    s!"Segments: {t.numSegments}  Blocks: {t.inBlocks} -> {t.outBlocks}",
    "Output Memory: " ++ memoryText (t.outElements * elementBytes), "",
    "Segment Details:", rule, row "Seg" "In Start" "Out Start" "Len" "Out Len", rule] ++
  (t.segments.take maxRows).mapIdx (segmentRow t) ++ moreRows t ++ [rule]

def layout (t : Table) (shape : Shape) (elementBytes : Nat) : String :=
  String.join ((lines t shape elementBytes).map (· ++ "\n"))

/-! ## Transforms -/

def addText {α : Type} (p : Padding α) : String :=
  s!"AddPadding(start_width={p.widths.start}, end_width={p.widths.stop}, start_fill={p.startFill.isSome}, end_fill={p.stopFill.isSome})"

def removeText (w : Widths) : String :=
  s!"RemovePadding(start_width={w.start}, end_width={w.stop})"

def gatherText (w : Widths) : String :=
  s!"GatherPadding(start_width={w.start}, end_width={w.stop})"

end Ragged.Report
