import Mathlib.Data.Int.ModEq
import Ragged.Element
import Ragged.Word

/-!
# Integer elements

The integer element types have a value, and so have their accumulators. An addition of
accumulators is exact as long as the sum stays in their range, and as many elements as a
length can count leave room in it. `Checked` has the same elements with accumulators that
refuse to leave the range, and a `Reading` is what the two kinds of accumulators share.
-/

namespace Ragged

/-- Elements that are integers, and accumulators wide enough for `maxLength` of them. -/
class Integral (α : Type) [Element α] where
  value : α → Int
  accValue : Element.Acc α → Int
  minValue : Int
  maxValue : Int
  minAcc : Int
  maxAcc : Int
  value_mem : ∀ a, minValue ≤ value a ∧ value a ≤ maxValue
  value_signs : minValue ≤ 0 ∧ 0 ≤ maxValue
  acc_room : minAcc ≤ maxLength * minValue ∧ maxLength * maxValue ≤ maxAcc
  accValue_zero : accValue Element.zeroAcc = 0
  accValue_widen : ∀ a, accValue (Element.widen a) = value a
  accValue_add : ∀ s t, minAcc ≤ accValue s + accValue t → accValue s + accValue t ≤ maxAcc →
    accValue (Element.addAcc s t) = accValue s + accValue t
  accValue_inj : ∀ s t, accValue s = accValue t → s = t
  /-- Narrowing keeps the low bits. -/
  value_narrow : ∀ s, value (Element.narrow s) ≡ accValue s [ZMOD 2 ^ (8 * Element.size α)]

section Words

variable {n : Nat}

theorem toNat_add_exact {s t : BitVec n} (h : (s.toNat : Int) + t.toNat ≤ 2 ^ n - 1) :
    ((s + t).toNat : Int) = s.toNat + t.toNat := by
  have hlt : s.toNat + t.toNat < 2 ^ n := by
    have hpow : ((2 ^ n : Nat) : Int) = 2 ^ n := by simp
    omega
  rw [BitVec.toNat_add_of_lt hlt]
  rfl

theorem toInt_add_exact {s t : BitVec n} (h₁ : -2 ^ (n - 1) ≤ s.toInt + t.toInt)
    (h₂ : s.toInt + t.toInt ≤ 2 ^ (n - 1) - 1) : (s + t).toInt = s.toInt + t.toInt := by
  apply BitVec.toInt_add_of_not_saddOverflow
  rw [BitVec.saddOverflow, Bool.or_eq_true, decide_eq_true_eq, decide_eq_true_eq]
  omega

theorem toNat_truncate_modEq {w : Nat} (s : BitVec n) :
    ((s.truncate w).toNat : Int) ≡ s.toNat [ZMOD 2 ^ w] := by
  rw [BitVec.truncate, BitVec.toNat_setWidth, Int.natCast_emod, Int.natCast_pow]
  exact Int.mod_modEq _ _

theorem bmod_modEq (x : Int) (m : Nat) : x.bmod m ≡ x [ZMOD m] := Int.bmod_emod

theorem toInt_truncate_modEq {w : Nat} (hw : w ≤ n) (s : BitVec n) :
    (s.truncate w).toInt ≡ s.toInt [ZMOD 2 ^ w] := by
  have hdvd : (2 ^ w : Int) ∣ 2 ^ n := pow_dvd_pow 2 hw
  have hs : s.toInt ≡ s.toNat [ZMOD 2 ^ n] := by
    rw [BitVec.toInt_eq_toNat_bmod]
    exact_mod_cast bmod_modEq s.toNat (2 ^ n)
  have ht : (s.truncate w).toInt ≡ s.toNat [ZMOD 2 ^ w] := by
    rw [BitVec.truncate, BitVec.toInt_setWidth]
    exact_mod_cast bmod_modEq s.toNat (2 ^ w)
  exact ht.trans (hs.of_dvd hdvd).symm

end Words

instance : Integral UInt8 where
  value a := a.toNat
  accValue (s : BitVec 64) := s.toNat
  minValue := 0
  maxValue := 2 ^ 8 - 1
  minAcc := 0
  maxAcc := 2 ^ 64 - 1
  value_mem a := by have := a.toNat_lt; omega
  value_signs := by decide
  acc_room := by decide
  accValue_zero := rfl
  accValue_widen a := Int.ofNat_inj.2 (BitVec.toNat_setWidth_of_le (by decide))
  accValue_add _ _ _ h := toNat_add_exact h
  accValue_inj _ _ h := BitVec.eq_of_toNat_eq (Int.ofNat_inj.1 h)
  value_narrow (s : BitVec 64) := toNat_truncate_modEq s

instance : Integral UInt32 where
  value a := a.toNat
  accValue (s : BitVec 64) := s.toNat
  minValue := 0
  maxValue := 2 ^ 32 - 1
  minAcc := 0
  maxAcc := 2 ^ 64 - 1
  value_mem a := by have := a.toNat_lt; omega
  value_signs := by decide
  acc_room := by decide
  accValue_zero := rfl
  accValue_widen a := Int.ofNat_inj.2 (BitVec.toNat_setWidth_of_le (by decide))
  accValue_add _ _ _ h := toNat_add_exact h
  accValue_inj _ _ h := BitVec.eq_of_toNat_eq (Int.ofNat_inj.1 h)
  value_narrow (s : BitVec 64) := toNat_truncate_modEq s

instance : Integral Int32 where
  value := Int32.toInt
  accValue (s : BitVec 64) := s.toInt
  minValue := -2 ^ 31
  maxValue := 2 ^ 31 - 1
  minAcc := -2 ^ 63
  maxAcc := 2 ^ 63 - 1
  value_mem a := by have := a.toInt_lt; have := a.le_toInt; omega
  value_signs := by decide
  acc_room := by decide
  accValue_zero := rfl
  accValue_widen _ := BitVec.toInt_signExtend_of_le (by decide)
  accValue_add _ _ h₁ h₂ := toInt_add_exact h₁ h₂
  accValue_inj _ _ h := BitVec.eq_of_toInt_eq h
  value_narrow (s : BitVec 64) := toInt_truncate_modEq (by decide) s

instance : Integral Int64 where
  value := Int64.toInt
  accValue (s : BitVec 128) := s.toInt
  minValue := -2 ^ 63
  maxValue := 2 ^ 63 - 1
  minAcc := -2 ^ 127
  maxAcc := 2 ^ 127 - 1
  value_mem a := by have := a.toInt_lt; have := a.le_toInt; omega
  value_signs := by decide
  acc_room := by decide
  accValue_zero := rfl
  accValue_widen _ := BitVec.toInt_signExtend_of_le (by decide)
  accValue_add _ _ h₁ h₂ := toInt_add_exact h₁ h₂
  accValue_inj _ _ h := BitVec.eq_of_toInt_eq h
  value_narrow (s : BitVec 128) := toInt_truncate_modEq (by decide) s

/-- Integers whose zero bytes are the number zero. -/
class ZeroBytes (α : Type) [Element α] [Integral α] : Prop where
  value_zero : Integral.value (Element.zero : α) = 0

instance : ZeroBytes UInt8 := ⟨rfl⟩

instance : ZeroBytes UInt32 := ⟨rfl⟩

instance : ZeroBytes Int32 := ⟨rfl⟩

instance : ZeroBytes Int64 := ⟨rfl⟩

variable {α : Type} [Element α] [Integral α]

namespace Integral

def InRange (α : Type) [Element α] [Integral α] (z : Int) : Prop := minAcc α ≤ z ∧ z ≤ maxAcc α

instance (z : Int) : Decidable (InRange α z) := by unfold InRange; infer_instance

/-- The number is small enough for a sum of `n` elements. -/
def Bounded (α : Type) [Element α] [Integral α] (n : Nat) (z : Int) : Prop :=
  n * minValue α ≤ z ∧ z ≤ n * maxValue α

theorem bounded_zero : Bounded α 0 0 := by simp [Bounded]

theorem bounded_value (a : α) : Bounded α 1 (value a) := by simpa [Bounded] using value_mem a

theorem Bounded.add {m n : Nat} {y z : Int} (hy : Bounded α m y) (hz : Bounded α n z) :
    Bounded α (m + n) (y + z) := by
  unfold Bounded at *
  rw [Int.natCast_add, Int.add_mul, Int.add_mul]
  omega

/-- Sums of as many elements as a length counts stay in the range of the accumulators. -/
theorem Bounded.inRange {n : Nat} {z : Int} (h : Bounded α n z) (hn : n ≤ maxLength) :
    InRange α z := by
  obtain ⟨hmin, hmax⟩ : minValue α ≤ 0 ∧ 0 ≤ maxValue α := value_signs
  obtain ⟨hlow, hhigh⟩ : minAcc α ≤ maxLength * minValue α ∧ maxLength * maxValue α ≤ maxAcc α :=
    acc_room
  have hn' : (n : Int) ≤ maxLength := Int.ofNat_le.2 hn
  have h₁ : (maxLength : Int) * minValue α ≤ n * minValue α :=
    Int.mul_le_mul_of_nonpos_right hn' hmin
  have h₂ : (n : Int) * maxValue α ≤ maxLength * maxValue α :=
    Int.mul_le_mul_of_nonneg_right hn' hmax
  exact ⟨(hlow.trans h₁).trans h.1, (h.2.trans h₂).trans hhigh⟩

end Integral

/-! ## Accumulators that refuse to leave the range -/

/-- An element that is summed in checked accumulators. -/
structure Checked (α : Type) where
  val : α

namespace Checked

/-- The sum, or nothing when it leaves the range or there was nothing to add to. -/
def add? (α : Type) [Element α] [Integral α] (x y : Option Int) : Option Int :=
  match x, y with
  | some x, some y => if Integral.InRange α (x + y) then some (x + y) else none
  | _, _ => none

instance : Element (Checked α) where
  size := Element.size α
  size_pos := Element.size_pos
  bits a := Element.bits a.val
  ofBits w := ⟨Element.ofBits w⟩
  ofBits_bits a := by rw [Element.ofBits_bits]
  bits_ofBits w := Element.bits_ofBits w
  Acc := Option Int
  zeroAcc := some 0
  addAcc := add? α
  widen a := some (Integral.value a.val)
  narrow s := ⟨Element.ofBits (BitVec.ofInt _ (s.getD 0))⟩

end Checked

/-- How the elements of `β` and their accumulators stand for those of `α` and for numbers.
Additions keep it up as long as the sum stays in the range of accumulators of `α`. -/
structure Reading (α : Type) [Element α] [Integral α] (β : Type) [Element β] where
  element : β → α
  holds : Element.Acc β → Int → Prop
  zero : holds Element.zeroAcc 0
  widen : ∀ b, holds (Element.widen b) (Integral.value (element b))
  add : ∀ {s t x y}, holds s x → holds t y → Integral.InRange α (x + y) →
    holds (Element.addAcc s t) (x + y)
  unique : ∀ {s t x}, holds s x → holds t x → s = t

namespace Reading

def exact (α : Type) [Element α] [Integral α] : Reading α α where
  element a := a
  holds s x := Integral.accValue s = x
  zero := Integral.accValue_zero
  widen := Integral.accValue_widen
  add := by
    rintro s t _ _ rfl rfl ⟨hlow, hhigh⟩
    exact Integral.accValue_add s t hlow hhigh
  unique := by
    rintro s t _ hs rfl
    exact Integral.accValue_inj s t hs

/-- Checked accumulators hold a number as long as no sum was refused. -/
def checked (α : Type) [Element α] [Integral α] : Reading α (Checked α) where
  element := Checked.val
  holds s x := s = some x
  zero := rfl
  widen _ := rfl
  add := by
    rintro _ _ x y rfl rfl h
    exact if_pos h
  unique := by
    rintro _ _ x rfl rfl
    rfl

end Reading

end Ragged
