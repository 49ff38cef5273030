import Ragged.Fault
import Ragged.Word

/-!
# Padding widths

How many blocks of padding a segment gets before and after its own.
-/

namespace Ragged

structure Widths where
  start : Nat := 0
  stop : Nat := 0
  deriving DecidableEq

namespace Widths

def symmetric (width : Nat) : Widths := ⟨width, width⟩

/-- Padding blocks of one segment. -/
def total (w : Widths) : Nat := Word.satAdd w.start w.stop

def checkedTotal (w : Widths) : Except Fault Nat :=
  if w.start + w.stop ≤ maxLength then .ok (w.start + w.stop)
  else .error (.widthsOverflow w.start w.stop)

def isZero (w : Widths) : Bool := w.total == 0

theorem total_eq {w : Widths} (h : w.start + w.stop ≤ maxLength) :
    w.total = w.start + w.stop :=
  Word.satAdd_eq (Nat.le_trans h (by decide))

theorem checkedTotal_eq_ok {w : Widths} {n : Nat} :
    w.checkedTotal = .ok n ↔ w.start + w.stop ≤ maxLength ∧ w.start + w.stop = n := by
  unfold checkedTotal
  split <;> rename_i h <;> simp [h]

end Widths

end Ragged
