import Mathlib.Data.List.GetD
import Ragged.Proofs.Padding.Gather

/-!
# Columns of runs

A column of a run of blocks sums up one element of each. Runs that follow one another add up
column by column, whether they lie in one buffer or are put together from several.
-/

namespace Ragged

theorem columnSum_consecutive (size : Nat) (values : List Int) (c : Nat) {first mid last : Nat}
    (h₁ : first ≤ mid) (h₂ : mid ≤ last) :
    columnSum size values c first mid + columnSum size values c mid last =
      columnSum size values c first last :=
  Finset.sum_Ico_consecutive _ h₁ h₂

theorem columnSum_append {size m n c : Nat} (hc : c < size) {xs ys : List Int}
    (hx : xs.length = m * size) :
    columnSum size (xs ++ ys) c 0 (m + n) = columnSum size xs c 0 m + columnSum size ys c 0 n := by
  rw [← columnSum_consecutive size _ c (Nat.zero_le m) (Nat.le_add_right m n)]
  congr 1
  · apply Finset.sum_congr rfl
    intro r hr
    have hlast : (r + 1) * size ≤ m * size := Nat.mul_le_mul_right _ (Finset.mem_Ico.1 hr).2
    rw [Nat.succ_mul] at hlast
    exact List.getD_append _ _ _ _ (by omega)
  · unfold columnSum
    rw [Finset.sum_Ico_eq_sum_range, Finset.sum_Ico_eq_sum_range, Nat.add_sub_cancel_left,
      Nat.sub_zero]
    apply Finset.sum_congr rfl
    intro r _
    have hskip : (m + r) * size + c = xs.length + ((0 + r) * size + c) := by
      rw [hx, Nat.add_mul, Nat.zero_add, Nat.add_assoc]
    rw [hskip, List.getD_append_right _ _ _ _ (Nat.le_add_right ..), Nat.add_sub_cancel_left]

theorem columnSum_blockRange {size c : Nat} (hc : c < size) (values : List Int) (first last : Nat) :
    columnSum size (blockRange size values first last) c 0 (last - first) =
      columnSum size values c first last := by
  unfold columnSum
  rw [Finset.sum_Ico_eq_sum_range, Finset.sum_Ico_eq_sum_range, Nat.sub_zero]
  apply Finset.sum_congr rfl
  intro r hr
  have hin : (r + 1) * size ≤ (last - first) * size :=
    Nat.mul_le_mul_right _ (Finset.mem_range.1 hr)
  rw [Nat.succ_mul] at hin
  have hplace : first * size + (r * size + c) = (first + r) * size + c := by
    rw [Nat.add_mul, Nat.add_assoc]
  unfold blockRange
  rw [Nat.zero_add, List.getD_eq_getElem?_getD, List.getElem?_take, if_pos (by omega),
    List.getElem?_drop, hplace, ← List.getD_eq_getElem?_getD]

theorem columnSum_flatMap {size c : Nat} (hc : c < size) {values : List Int}
    {runs : List (Nat × Nat)} (h : ∀ r ∈ runs, r.2 * size ≤ values.length) :
    columnSum size (runs.flatMap fun r => blockRange size values r.1 r.2) c 0
        (runs.map fun r => r.2 - r.1).sum =
      (runs.map fun r => columnSum size values c r.1 r.2).sum := by
  induction runs with
  | nil => exact Finset.sum_empty
  | cons r runs ih =>
    have hlen := length_blockRange r.1 (h r List.mem_cons_self)
    rw [List.flatMap_cons, List.map_cons, List.sum_cons, List.map_cons, List.sum_cons,
      columnSum_append hc hlen, columnSum_blockRange hc,
      ih fun r hr => h r (List.mem_cons_of_mem _ hr)]

/-- Consecutive segments have the columns of the run they make up. -/
theorem columnSum_spans (size : Nat) (values : List Int) (c : Nat) (lens : List Nat) :
    ((spans lens).map fun s => columnSum size values c s.1 s.2).sum =
      columnSum size values c 0 lens.sum := by
  -- Later segments start further on, so the induction has the first block general.
  have shifted : ∀ first,
      ((spans lens).map fun s => columnSum size values c (first + s.1) (first + s.2)).sum =
        columnSum size values c first (first + lens.sum) := by
    induction lens with
    | nil =>
      intro first
      unfold columnSum
      rw [List.sum_nil, Nat.add_zero, Finset.Ico_self]
      rfl
    | cons len lens ih =>
      intro first
      have hrest := ih (first + len)
      simp only [Nat.add_assoc] at hrest
      rw [spans_cons, List.map_cons, List.sum_cons, List.map_map, List.sum_cons]
      simp only [Function.comp_def]
      rw [hrest, Nat.add_zero]
      exact columnSum_consecutive size values c (by omega) (by omega)
  have h := shifted 0
  simp only [Nat.zero_add] at h
  exact h

end Ragged
