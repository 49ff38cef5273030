import Ragged.Bytes

/-!
# Elements

What a batch can hold: integers of 8, 32 and 64 bits, and IEEE singles and doubles. An
element is a word of `size` bytes; moving elements around only moves words. Padding
sums run in a wider accumulator `Acc` and are narrowed back once: integers keep their
low bits, singles round.
-/

namespace Ragged

class Element (α : Type) where
  /-- Bytes of one element. -/
  size : Nat
  size_pos : 0 < size
  bits : α → BitVec (8 * size)
  ofBits : BitVec (8 * size) → α
  ofBits_bits : ∀ a, ofBits (bits a) = a
  bits_ofBits : ∀ w, bits (ofBits w) = w
  /-- What sums are carried in. -/
  Acc : Type
  zeroAcc : Acc
  addAcc : Acc → Acc → Acc
  widen : α → Acc
  narrow : Acc → α

namespace Element

def zero {α : Type} [Element α] : α := ofBits 0

def toBytes {α : Type} [Element α] (a : α) : List UInt8 :=
  Bytes.encode (size α) (bits a).toNat

/-- The element with the given bytes, lowest first. -/
def ofBytes {α : Type} [Element α] (bs : List UInt8) : α :=
  ofBits (BitVec.ofNat _ (Bytes.decode bs))

@[simp] theorem length_toBytes {α : Type} [Element α] (a : α) :
    (toBytes a).length = size α := Bytes.length_encode ..

end Element

/-- An IEEE single, held as its bits. -/
structure Single where
  bits : UInt32
  deriving DecidableEq

/-- An IEEE double, held as its bits. -/
structure Double where
  bits : UInt64
  deriving DecidableEq

namespace Single

def toFloat (x : Single) : Float := (Float32.ofBits x.bits).toFloat

def ofFloat (x : Float) : Single := ⟨x.toFloat32.toBits⟩

end Single

namespace Double

def toFloat (x : Double) : Float := Float.ofBits x.bits

def ofFloat (x : Float) : Double := ⟨x.toBits⟩

end Double

instance : Element UInt8 where
  size := 1
  size_pos := by decide
  bits := UInt8.toBitVec
  ofBits := UInt8.ofBitVec
  ofBits_bits _ := rfl
  bits_ofBits _ := rfl
  Acc := BitVec 64
  zeroAcc := 0
  addAcc := (· + ·)
  widen a := a.toBitVec.zeroExtend 64
  narrow s := ⟨s.truncate 8⟩

instance : Element UInt32 where
  size := 4
  size_pos := by decide
  bits := UInt32.toBitVec
  ofBits := UInt32.ofBitVec
  ofBits_bits _ := rfl
  bits_ofBits _ := rfl
  Acc := BitVec 64
  zeroAcc := 0
  addAcc := (· + ·)
  widen a := a.toBitVec.zeroExtend 64
  narrow s := ⟨s.truncate 32⟩

instance : Element Int32 where
  size := 4
  size_pos := by decide
  bits := Int32.toBitVec
  ofBits := Int32.ofBitVec
  ofBits_bits _ := rfl
  bits_ofBits _ := rfl
  Acc := BitVec 64
  zeroAcc := 0
  addAcc := (· + ·)
  widen a := a.toBitVec.signExtend 64
  narrow s := Int32.ofBitVec (s.truncate 32)

instance : Element Int64 where
  size := 8
  size_pos := by decide
  bits := Int64.toBitVec
  ofBits := Int64.ofBitVec
  ofBits_bits _ := rfl
  bits_ofBits _ := rfl
  Acc := BitVec 128
  zeroAcc := 0
  addAcc := (· + ·)
  widen a := a.toBitVec.signExtend 128
  narrow s := Int64.ofBitVec (s.truncate 64)

instance : Element Single where
  size := 4
  size_pos := by decide
  bits a := a.bits.toBitVec
  ofBits w := ⟨⟨w⟩⟩
  ofBits_bits _ := rfl
  bits_ofBits _ := rfl
  Acc := Float
  zeroAcc := 0
  addAcc := (· + ·)
  widen := Single.toFloat
  narrow := Single.ofFloat

instance : Element Double where
  size := 8
  size_pos := by decide
  bits a := a.bits.toBitVec
  ofBits w := ⟨⟨w⟩⟩
  ofBits_bits _ := rfl
  bits_ofBits _ := rfl
  Acc := Float
  zeroAcc := 0
  addAcc := (· + ·)
  widen := Double.toFloat
  narrow := Double.ofFloat

end Ragged
