import Mathlib.Algebra.Order.Ring.Int
import Ragged.Proofs.Layout.Placement

/-!
# What every planned table keeps to

Bounds need not be running sums: starts may leave gaps, overlap or go backwards, and the
regions of such a table need not tile the output. What a planner has checked of any bounds
is that every segment lies in the input, that a strip leaves it its padding, and that the
elements of its region can be counted.
-/

namespace Ragged

namespace Table

variable {t : Table} {seg : Segment}

end Table

namespace Planner

variable {p : Planner}

theorem segment_place {e inStart len : Nat} {seg : Segment}
    (h : p.segment e inStart len = .ok seg) : seg.inStart = inStart ∧ seg.len = len := by
  unfold segment at h
  split at h
  · cases h
    exact ⟨rfl, rfl⟩
  · split at h
    · cases h
    · split at h
      · cases h
      · cases h
        exact ⟨rfl, rfl⟩

/-- The planner has let the segment pass as one of `n` in an input of `outer` blocks. -/
def Accepts (p : Planner) (outer n : Nat) (seg : Segment) : Prop :=
  (∃ e < n, p.segment e seg.inStart seg.len = .ok seg) ∧ seg.inStart + seg.len ≤ outer

theorem blocks_eq_ok {e n : Nat} {value : Int} :
    blocks e value = .ok n ↔ 0 ≤ value ∧ value.toNat = n := by
  unfold blocks
  split <;> rename_i h <;> simp [h]

theorem within_eq_ok {outer e inStart len n : Nat} :
    within outer e inStart len = .ok n ↔ inStart + len ≤ outer ∧ len = n := by
  unfold within
  split <;> rename_i h <;> simp [h]

/-- Where the last segment ends; `start` when there is none. -/
def lastEnd (start : Int) (ends : List Int32) : Int := (ends.getLast?.map Int32.toInt).getD start

theorem lastEnd_cons (start : Int) (stop : Int32) (ends : List Int32) :
    lastEnd start (stop :: ends) = lastEnd stop.toInt ends := by
  unfold lastEnd
  rw [List.getLast?_cons]
  cases ends.getLast? <;> rfl

theorem lastEnd_zero (ends : List Int32) : (lastEnd 0 ends).toNat = inclusiveTotal ends := by
  unfold lastEnd inclusiveTotal
  cases ends.getLast? <;> rfl

theorem inclusiveAt_eq_ok {e : Nat} {start stop : Int} {seg : Segment} (h0 : 0 ≤ start)
    (hlt : start < wordCount) (h : p.inclusiveAt e start stop = .ok seg) :
    start ≤ stop ∧ p.segment e start.toNat (stop - start).toNat = .ok seg := by
  obtain ⟨len, hlen, hseg⟩ := bind_eq_ok.1 h
  obtain ⟨hle, rfl⟩ := blocks_eq_ok.1 hlen
  obtain ⟨n, rfl⟩ := Int.eq_ofNat_of_zero_le h0
  have hback : stop - ((stop - n).toNat : Nat) = (n : Int) := by omega
  rw [hback, Word.ofInt_natCast (Int.ofNat_lt.1 hlt)] at hseg
  exact ⟨by omega, hseg⟩

theorem exclusiveAt_eq_ok {outer e : Nat} {start length : Int} {seg : Segment}
    (h : p.exclusiveAt outer e start length = .ok seg) :
    (0 ≤ start ∧ 0 ≤ length) ∧ start.toNat + length.toNat ≤ outer ∧
      p.segment e start.toNat length.toNat = .ok seg := by
  simp only [exclusiveAt, bind_eq_ok, within_eq_ok, blocks_eq_ok] at h
  obtain ⟨_, ⟨hstart, rfl⟩, _, ⟨hlength, rfl⟩, _, ⟨hin, rfl⟩, hseg⟩ := h
  exact ⟨⟨hstart, hlength⟩, hin, hseg⟩

end Planner

end Ragged
