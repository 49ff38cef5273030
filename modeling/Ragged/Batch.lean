import Ragged.Buffer
import Ragged.Chunk
import Ragged.Shape

/-!
# Batches

A batch is a shape with as many elements as the shape says, block after block.
-/

namespace Ragged

structure Batch (α : Type) where
  shape : Shape
  data : List α
  size_eq : data.length = shape.numElements
  deriving DecidableEq

namespace Batch

variable {α : Type}

def ofShape (shape : Shape) (data : List α) : Except Fault (Batch α) :=
  if size_eq : data.length = shape.numElements then .ok { shape, data, size_eq }
  else .error (.dataSize data.length shape.dims shape.numElements)

def ofDims (dims : List Int) (data : List α) : Except Fault (Batch α) := do
  ofShape (← Shape.ofDims dims) data

def zeros [Element α] (h : Host) (shape : Shape) : Except Fault (Batch α) := do
  ofShape shape (← zeroed α h .output shape.numElements)

def outerSize (b : Batch α) : Nat := b.shape.outer

def blockSize (b : Batch α) : Nat := b.shape.blockSize

/-- Block `i`. Blocks without elements exist at every index. -/
def block (b : Batch α) (i : Nat) : Except Fault (List α) :=
  slice b.data (i * b.blockSize) b.blockSize

def set (b : Batch α) (i : Nat) (a : α) : Except Fault (Batch α) :=
  if i < b.data.length then
    .ok { b with data := b.data.set i a, size_eq := by rw [List.length_set, b.size_eq] }
  else .error .outOfRange

/-! ## Bytes -/

section Bytes

variable [Element α]

def toBytes (b : Batch α) : List UInt8 := b.data.flatMap Element.toBytes

/-- Reads aligned bytes in place: element `i` lies at byte `i * size`. -/
def readAligned (bytes : List UInt8) : List α :=
  (List.range (bytes.length / Element.size α)).map fun i =>
    Element.ofBytes ((bytes.drop (i * Element.size α)).take (Element.size α))

/-- Reads bytes at any address, one element after the other. -/
def readUnaligned (bytes : List UInt8) : List α :=
  (takeChunks (Element.size α) (bytes.length / Element.size α) bytes).map Element.ofBytes

def ofBytes (dims : List Int) (bytes : List UInt8) (aligned : Bool) :
    Except Fault (Batch α) :=
  if bytes.length % Element.size α = 0 then
    ofDims dims (if aligned then readAligned bytes else readUnaligned bytes)
  else .error (.partialElement bytes.length (Element.size α))

end Bytes

end Batch

end Ragged
