import Ragged.Fault
import Ragged.Word

/-!
# Shapes

A batch is `outer` blocks one after another, each an array of dimensions `block`. A
shape is checked when it is made: the leading dimension is a 32-bit length, and the
block size and then the element count fit in 64 bits.
-/

namespace Ragged

/-- The dimensions of a batch, leading one first. -/
structure Shape where
  outer : Nat
  block : List Nat
  outer_le : outer ≤ maxLength
  fits : (Word.product? (block ++ [outer])).isSome
  deriving DecidableEq

namespace Shape

/-- The shape with the given dimensions. The block size is multiplied out first and the
leading dimension last, so an empty batch does not hide an oversized block. -/
def ofDims (dims : List Int) : Except Fault Shape :=
  match dims with
  | [] => .error .noDimensions
  | lead :: rest =>
    match dims.find? (· < 0) with
    | some d => .error (.negativeDimension d dims)
    | none =>
      if outer_le : lead.toNat ≤ maxLength then
        if fits : (Word.product? (rest.map Int.toNat ++ [lead.toNat])).isSome then
          .ok { outer := lead.toNat, block := rest.map Int.toNat, outer_le, fits }
        else .error (.shapeOverflow dims)
      else .error (.leadingTooLong lead)

def dims (s : Shape) : List Nat := s.outer :: s.block

def ndim (s : Shape) : Nat := s.dims.length

def blockSize (s : Shape) : Nat := Word.wrapProduct s.block

def numElements (s : Shape) : Nat := Word.wrapProduct s.dims

/-- The same blocks, `n` of them. Dimensions are signed, so `n` has 63 bits at most. -/
def withOuter (s : Shape) (n : Nat) : Except Fault Shape :=
  if n < 0x8000000000000000 then ofDims ((n :: s.block).map Int.ofNat)
  else .error (.leadingPastSigned n)

end Shape

end Ragged
