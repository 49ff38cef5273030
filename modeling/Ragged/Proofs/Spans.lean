import Mathlib.Algebra.Ring.Nat
import Ragged.Buffer
import Ragged.Chunk

/-!
# Runs of blocks

`blockRange size data a b` is blocks `a` to `b` of a buffer, block `b` not included.
`spans lens` is where consecutive segments of the given lengths begin and end. Both are
given by index, as one states them; the lemmas here turn them into recursions over the
lengths, which is how everything about segments is proved.
-/

namespace Ragged

variable {α β : Type}

/-- Blocks `first` to `last` of a buffer, without block `last`. -/
def blockRange (size : Nat) (data : List α) (first last : Nat) : List α :=
  (data.drop (first * size)).take ((last - first) * size)

theorem length_blockRange {size : Nat} {data : List α} (first : Nat) {last : Nat}
    (h : last * size ≤ data.length) :
    (blockRange size data first last).length = (last - first) * size := by
  unfold blockRange
  rw [List.length_take, List.length_drop, Nat.sub_mul]
  omega

theorem blockRange_drop (size : Nat) (data : List α) (n first last : Nat) :
    blockRange size (data.drop (n * size)) first last =
      blockRange size data (n + first) (n + last) := by
  unfold blockRange
  rw [List.drop_drop, Nat.add_mul, Nat.add_sub_add_left]

theorem blockRange_zero (size : Nat) (data : List α) (last : Nat) :
    blockRange size data 0 last = data.take (last * size) := by
  simp [blockRange]

theorem blockRange_middle {size first last : Nat} {xs ys zs : List α}
    (hx : xs.length = first * size) (hy : ys.length = (last - first) * size) :
    blockRange size (xs ++ (ys ++ zs)) first last = ys := by
  unfold blockRange
  rw [List.drop_left' hx, List.take_left' hy]

theorem slice_eq_blockRange {size : Nat} {data : List α} {first len : Nat}
    (h : (first + len) * size ≤ data.length) :
    slice data (first * size) (len * size) = .ok (blockRange size data first (first + len)) := by
  rw [slice, if_pos (by rw [← Nat.add_mul]; exact h), blockRange, Nat.add_sub_cancel_left]

theorem blockRange_self (size : Nat) (data : List α) (first : Nat) :
    blockRange size data first first = [] := by
  unfold blockRange
  rw [Nat.sub_self, Nat.zero_mul, List.take_zero]

theorem map_blockRange (f : α → β) (size : Nat) (data : List α) (first last : Nat) :
    (blockRange size data first last).map f = blockRange size (data.map f) first last := by
  unfold blockRange
  rw [List.map_take, List.map_drop]

theorem blockRange_blockRange {size first last a b : Nat} (data : List α) (h : first + b ≤ last) :
    blockRange size (blockRange size data first last) a b =
      blockRange size data (first + a) (first + b) := by
  have hlen : (b - a) * size ≤ (last - first) * size - a * size := by
    rw [← Nat.sub_mul]
    exact Nat.mul_le_mul_right _ (by omega)
  unfold blockRange
  rw [List.drop_take, List.drop_drop, List.take_take, Nat.min_eq_left hlen, ← Nat.add_mul,
    Nat.add_sub_add_left]

theorem blockRange_append {size first mid last : Nat} (data : List α) (h₁ : first ≤ mid)
    (h₂ : mid ≤ last) :
    blockRange size data first mid ++ blockRange size data mid last =
      blockRange size data first last := by
  have hmid : mid * size = first * size + (mid - first) * size := by
    rw [← Nat.add_mul, Nat.add_sub_cancel' h₁]
  have hlast : (last - first) * size = (mid - first) * size + (last - mid) * size := by
    rw [← Nat.add_mul]
    congr 1
    omega
  unfold blockRange
  rw [hlast, List.take_add, List.drop_drop, ← hmid]

theorem chunks_blockRange {size first k : Nat} {data : List α} (hs : 0 < size)
    (h : (first + (k + 1)) * size ≤ data.length) :
    chunks size (blockRange size data first (first + (k + 1))) =
      blockRange size data first (first + 1) ::
        chunks size (blockRange size data (first + 1) (first + 1 + k)) := by
  have hlen := length_blockRange first h
  rw [Nat.add_sub_cancel_left, Nat.succ_mul] at hlen
  have hne : blockRange size data first (first + (k + 1)) ≠ [] := List.length_pos_iff.1 (by omega)
  rw [chunks_eq_cons hs hne, blockRange, blockRange, blockRange, Nat.add_sub_cancel_left,
    Nat.add_sub_cancel_left, Nat.add_sub_cancel_left, Nat.succ_mul, Nat.one_mul, List.take_take,
    Nat.min_eq_left (Nat.le_add_left ..), List.drop_take, Nat.add_sub_cancel, List.drop_drop,
    Nat.succ_mul]

theorem blockRange_congr {size first last : Nat} {data data' : List α}
    (h : ∀ i, first * size ≤ i → i < last * size → data[i]? = data'[i]?) :
    blockRange size data first last = blockRange size data' first last := by
  apply List.ext_getElem?
  intro i
  rw [blockRange, blockRange, List.getElem?_take, List.getElem?_take, List.getElem?_drop,
    List.getElem?_drop]
  split
  · rename_i hi
    rw [Nat.sub_mul] at hi
    exact h _ (by omega) (by omega)
  · rfl

/-! ## Spans -/

/-- Blocks of the segments before segment `k`. -/
def segmentStart (lens : List Nat) (k : Nat) : Nat := (lens.take k).sum

/-- The first block of every segment and the block after its last. -/
def spans (lens : List Nat) : List (Nat × Nat) :=
  (List.range lens.length).map fun k => (segmentStart lens k, segmentStart lens (k + 1))

@[simp] theorem spans_nil : spans [] = [] := rfl

theorem spans_cons (l : Nat) (lens : List Nat) :
    spans (l :: lens) = (0, l) :: (spans lens).map fun s => (l + s.1, l + s.2) := by
  rw [spans, List.length_cons, List.range_succ_eq_map, List.map_cons, List.map_map, spans,
    List.map_map]
  rfl

@[simp] theorem length_spans (lens : List Nat) : (spans lens).length = lens.length := by
  simp [spans]

theorem map_length_spans (lens : List Nat) : (spans lens).map (fun s => s.2 - s.1) = lens := by
  induction lens with
  | nil => rfl
  | cons len lens ih =>
    rw [spans_cons, List.map_cons, List.map_map]
    simp only [Function.comp_def, Nat.add_sub_add_left, Nat.sub_zero]
    rw [ih]

/-- A span lies in the blocks of all segments and is as long as its segment. -/
theorem mem_spans {lens : List Nat} {s : Nat × Nat} (hs : s ∈ spans lens) :
    s.1 ≤ s.2 ∧ s.2 ≤ lens.sum ∧ s.2 - s.1 ∈ lens := by
  induction lens generalizing s with
  | nil => cases hs
  | cons l lens ih =>
    rw [spans_cons, List.mem_cons] at hs
    rw [List.sum_cons, List.mem_cons]
    rcases hs with rfl | hs
    · exact ⟨Nat.zero_le l, Nat.le_add_right .., .inl rfl⟩
    · obtain ⟨s', hs', rfl⟩ := List.mem_map.1 hs
      obtain ⟨hle, hsum, hmem⟩ := ih hs'
      simp only [Nat.add_sub_add_left]
      exact ⟨by omega, by omega, .inr hmem⟩

/-- A block lies in one span only. -/
theorem spans_unique {lens : List Nat} {s t : Nat × Nat} (hs : s ∈ spans lens)
    (ht : t ∈ spans lens) {k : Nat} (hks : s.1 ≤ k ∧ k < s.2) (hkt : t.1 ≤ k ∧ k < t.2) :
    s = t := by
  induction lens generalizing s t k with
  | nil => cases hs
  | cons l lens ih =>
    rw [spans_cons, List.mem_cons] at hs ht
    rcases hs with rfl | hs
    · rcases ht with rfl | ht
      · rfl
      · obtain ⟨t', -, rfl⟩ := List.mem_map.1 ht
        simp only at hks hkt
        omega
    · obtain ⟨s', hs', rfl⟩ := List.mem_map.1 hs
      rcases ht with rfl | ht
      · simp only at hks hkt
        omega
      · obtain ⟨t', ht', rfl⟩ := List.mem_map.1 ht
        simp only at hks hkt
        rw [ih hs' ht' (k := k - l) (by omega) (by omega)]

end Ragged
