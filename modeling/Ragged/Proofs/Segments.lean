import Mathlib.Data.List.Forall2
import Ragged.Proofs.Spans

/-!
# What segments hold

`segmentBlocks size lens data` is what each of the consecutive segments of the given lengths
holds. A buffer is its segments put together, and segments put together can be told apart
again by their lengths; so an operation that works on every segment alone is settled by what
it does to one.
-/

namespace Ragged

variable {α : Type} {size : Nat} {lens : List Nat} {segs : List (List α)} {data : List α}

def segmentBlocks (size : Nat) (lens : List Nat) (data : List α) : List (List α) :=
  (spans lens).map fun s => blockRange size data s.1 s.2

/-- The segments hold as many blocks as the lengths say. -/
def HoldBlocks (size : Nat) : List (List α) → List Nat → Prop :=
  List.Forall₂ fun seg len => seg.length = len * size

theorem segmentBlocks_cons (size l : Nat) (lens : List Nat) (data : List α) :
    segmentBlocks size (l :: lens) data =
      data.take (l * size) :: segmentBlocks size lens (data.drop (l * size)) := by
  unfold segmentBlocks
  rw [spans_cons, List.map_cons, List.map_map, blockRange_zero]
  congr
  funext s
  rw [blockRange_drop]
  rfl

theorem holdBlocks_segmentBlocks (h : data.length = lens.sum * size) :
    HoldBlocks size (segmentBlocks size lens data) lens := by
  induction lens generalizing data with
  | nil => exact .nil
  | cons l lens ih =>
    rw [List.sum_cons, Nat.add_mul] at h
    rw [segmentBlocks_cons]
    refine .cons ?_ (ih ?_)
    · rw [List.length_take]
      omega
    · rw [List.length_drop]
      omega

theorem flatten_segmentBlocks (h : data.length = lens.sum * size) :
    (segmentBlocks size lens data).flatten = data := by
  induction lens generalizing data with
  | nil =>
    rw [List.sum_nil, Nat.zero_mul, List.length_eq_zero_iff] at h
    rw [h]
    rfl
  | cons l lens ih =>
    rw [List.sum_cons, Nat.add_mul] at h
    rw [segmentBlocks_cons, List.flatten_cons, ih (by rw [List.length_drop]; omega),
      List.take_append_drop]

theorem HoldBlocks.length_flatten (h : HoldBlocks size segs lens) :
    segs.flatten.length = lens.sum * size := by
  induction h with
  | nil => exact (Nat.zero_mul size).symm
  | cons hseg _ ih =>
    rw [List.flatten_cons, List.length_append, hseg, ih, List.sum_cons, Nat.add_mul]

theorem HoldBlocks.segmentBlocks_flatten (h : HoldBlocks size segs lens) :
    segmentBlocks size lens segs.flatten = segs := by
  induction h with
  | nil => rfl
  | cons hseg _ ih =>
    rw [segmentBlocks_cons, List.flatten_cons, List.take_left' hseg, List.drop_left' hseg, ih]

theorem HoldBlocks.map (h : HoldBlocks size segs lens) {f : List α → List α} {g : Nat → Nat}
    (hf : ∀ seg len, seg.length = len * size → (f seg).length = g len * size) :
    HoldBlocks size (segs.map f) (lens.map g) := by
  unfold HoldBlocks
  rw [List.forall₂_map_left_iff, List.forall₂_map_right_iff]
  exact h.imp hf

theorem map_segmentBlocks_eq_iff {data' : List α} {f g : List α → List α} :
    (segmentBlocks size lens data).map f = (segmentBlocks size lens data').map g ↔
      ∀ s ∈ spans lens, f (blockRange size data s.1 s.2) = g (blockRange size data' s.1 s.2) := by
  unfold segmentBlocks
  rw [List.map_map, List.map_map, List.map_inj_left]
  rfl

end Ragged
