import Ragged.Host
import Ragged.Widths

/-!
# Segment lengths

Lengths are 32-bit and count blocks. Totals are carried in 64 bits and wrap there. A
padded batch can be described by the lengths of its segments with their padding (the
padded basis) or without (the payload basis); `padded` reads either as the padded basis.
-/

namespace Ragged.Lengths

def firstNegative (e : Nat) : List Int32 → Option (Nat × Int32)
  | [] => none
  | l :: ls => if l.toInt < 0 then some (e, l) else firstNegative (e + 1) ls

/-- Refuses the first negative length. -/
def check (ls : List Int32) : Except Fault Unit :=
  match firstNegative 0 ls with
  | some (e, l) => .error (.negativeLength e l.toInt)
  | none => .ok ()

def sum (xs : List Int64) : Int64 := xs.foldr (· + ·) 0

/-- All blocks of all segments, in 64 bits. -/
def total (ls : List Int32) : Int64 := sum (ls.map Int32.toInt64)

def widenedTotal (ls : List Int32) (pad : Nat) : Option Int64 :=
  if ls.length * pad < 0x8000000000000000 ∧
      (total ls).toInt + ls.length * pad < 0x8000000000000000 then
    some (total ls + Int64.ofNat (ls.length * pad))
  else none

/-- A length with `pad` more blocks. -/
def widen (pad : Nat) (l : Int32) : Except Fault Int32 :=
  if l.toInt + pad ≤ maxLength then .ok (Int32.ofInt (l.toInt + pad))
  else .error (.widenedOverflow l.toInt pad)

/-- The lengths in the padded basis. They are taken as they are when they already sum to
`outer`, and also when they fit neither basis. -/
def padded (h : Host) (ls : List Int32) (outer : Nat) (w : Widths) :
    Except Fault (List Int32) := do
  let pad ← w.checkedTotal
  if pad = 0 ∨ ls = [] ∨ total ls = Int64.ofNat outer ∨
      widenedTotal ls pad ≠ some (Int64.ofNat outer) then
    return ls
  else
    h.collect (ls.map (widen pad))

theorem firstNegative_eq_none {e : Nat} {ls : List Int32} :
    firstNegative e ls = none ↔ ∀ l ∈ ls, 0 ≤ l.toInt := by
  induction ls generalizing e with
  | nil => simp [firstNegative]
  | cons l ls ih =>
    rw [firstNegative]
    split
    · rename_i h
      simp
      omega
    · rename_i h
      rw [ih]
      simp
      omega

theorem check_eq_ok {ls : List Int32} : check ls = .ok () ↔ ∀ l ∈ ls, 0 ≤ l.toInt := by
  rw [← firstNegative_eq_none (e := 0), check]
  cases firstNegative 0 ls <;> simp

end Ragged.Lengths
