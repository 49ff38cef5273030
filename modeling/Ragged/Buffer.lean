import Ragged.Element
import Ragged.Host

/-!
# Buffers

A buffer is a list of elements. New ones are zeroed and need memory; `slice` reads a run
of elements and stops the run when it leaves the buffer.
-/

namespace Ragged

/-- A buffer of `n` zero elements. -/
def zeroed (α : Type) [Element α] (h : Host) (need : Need) (n : Nat) :
    Except Fault (List α) := do
  h.memory need (n * Element.size α)
  return List.replicate n Element.zero

/-- The `len` elements from `start` on. -/
def slice {α : Type} (xs : List α) (start len : Nat) : Except Fault (List α) :=
  if start + len ≤ xs.length then .ok ((xs.drop start).take len) else .error .outOfRange

def splitOff {α : Type} (xs : List α) (n : Nat) : Except Fault (List α × List α) :=
  if n ≤ xs.length then .ok (xs.take n, xs.drop n) else .error .outOfRange

theorem zeroed_eq_ok {α : Type} [Element α] {h : Host} {need : Need} {n : Nat} {xs : List α} :
    zeroed α h need n = .ok xs ↔
      h.Gives need (n * Element.size α) ∧ List.replicate n Element.zero = xs := by
  unfold zeroed
  rw [← Host.memory_eq_ok]
  cases h.memory need (n * Element.size α) <;> simp [bind, Except.bind, pure, Except.pure]

end Ragged
