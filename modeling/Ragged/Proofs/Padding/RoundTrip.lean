import Ragged.Proofs.Padding.Segmentwise

/-!
# Removing what was added

Stripping padded segments of their padding gives the segments back. The lengths that come
with a padded batch describe it in the padded basis and the ones it was made from in the
payload basis, so both strip it. That the second call is accepted follows from the acceptance
of the first.
-/

namespace Ragged

open Lengths

variable {α : Type} [Element α]

namespace Engine

variable {e m : Engine} {b : Batch α} {lengths : Option (List Int32)} {p : Padding α}
  {r : Segmented α}

theorem Added.basis_returned (h : e.Added b lengths p r) :
    PaddedBasis r.batch.shape.outer (p.widths.start + p.widths.stop) (some r.lengths)
      (counts r.lengths) := by
  have hsum := sum_map_add (counts (orWhole b.shape.outer lengths))
    (p.widths.start + p.widths.stop)
  obtain ⟨hn, hcounts⟩ := h.lengths_eq
  rw [← hcounts, h.fits.total, length_counts] at hsum
  exact .padded hn (hsum.trans h.built.outer.symm)

/-- The lengths that a batch was padded by describe it in one basis or the other. -/
theorem Added.basis_given (h : e.Added b lengths p r) :
    PaddedBasis r.batch.shape.outer (p.widths.start + p.widths.stop) lengths
      (counts r.lengths) := by
  have houter : r.batch.shape.outer = b.shape.outer +
      (orWhole b.shape.outer lengths).length * (p.widths.start + p.widths.stop) := h.built.outer
  rw [h.lengths_eq.2, houter]
  exact paddedBasis_payload b.shape.outer_le h.nonneg h.fits.total

theorem Added.fits_strip (h : e.Added b lengths p r) :
    (p.widths.planner r.batch.shape.blockSize).Fits (counts r.lengths) r.batch.shape.outer := by
  have htotal : p.widths.total = p.widths.start + p.widths.stop := Widths.total_eq h.fits.widths
  obtain ⟨-, helements⟩ := h.fits.grown rfl
  have hn := length_counts (orWhole b.shape.outer lengths)
  have hsum := h.basis_returned.sum_eq
  rw [h.lengths_eq.2] at hsum ⊢
  rw [htotal, hn] at helements
  refine ⟨h.fits.widths, ?_, ?_, fun hd => (nomatch hd), hsum, fun _ _ hl => ?_⟩
  · rw [List.length_map]
    exact h.fits.padding
  · rw [h.built.outer, Shape.blockSize_congr h.built.block]
    exact helements
  · obtain ⟨len, -, rfl⟩ := List.mem_map.1 hl
    rw [htotal]
    omega

/-- A padded batch read in the padded basis of either lengths is stripped to what was padded. -/
theorem Added.removed (h : e.Added b lengths p r) {lengths' : Option (List Int32)}
    (hbasis : PaddedBasis r.batch.shape.outer (p.widths.start + p.widths.stop) lengths'
      (counts r.lengths))
    (hroom : m.HasRoomFor lengths') (hg : Granting m.host) :
    m.Removed r.batch lengths' p.widths (counts r.lengths) ⟨b, orWhole b.shape.outer lengths⟩ := by
  have houter := h.built.outer
  have hblock := Shape.blockSize_congr h.built.block
  have hn := length_counts (orWhole b.shape.outer lengths)
  refine ⟨hbasis, hroom, h.fits_strip, ⟨?_, ?_, h.built.block.symm, ?_, ?_⟩⟩
  · have hmem := h.built.memory
    rw [h.lengths_eq.2]
    simp only [List.length_map] at hmem ⊢
    refine hmem.of_granting hg (Nat.mul_le_mul ?_ (Nat.le_of_eq hblock))
    rw [houter, hn]
    omega
  · rw [houter, h.lengths_eq.2, List.length_map, hn, Nat.add_sub_cancel]
  · rw [h.built.data, hblock, h.lengths_eq.2]
    refine (Padding.stripped_padded h.fills ?_).symm
    rw [h.fits.total, b.length_eq]
  · have hid : (fun n => n - (p.widths.start + p.widths.stop)) ∘
        (fun n => n + (p.widths.start + p.widths.stop)) = id :=
      funext fun n => Nat.add_sub_cancel n _
    rw [h.lengths_eq.2, List.map_map, hid, List.map_id, ofCounts_counts h.nonneg]

/-- Taking away what was added gives the batch and its lengths back, whether the lengths
that came with it are given or those it was padded by. -/
theorem remove_add (h : (e.add b lengths p).1 = .ok r) (hm : m.Unlimited)
    (hg : Granting m.host) :
    (m.remove r.batch (some r.lengths) p.widths).1 = .ok ⟨b, orWhole b.shape.outer lengths⟩ ∧
      (m.remove r.batch lengths p.widths).1 = .ok ⟨b, orWhole b.shape.outer lengths⟩ := by
  have ha := add_eq_ok.1 h
  have hmem := ha.built.memory
  rw [List.length_map, length_counts] at hmem
  have hroom : m.HasRoom (orWhole b.shape.outer lengths).length := hm.hasRoom (hmem.grants hg)
  refine ⟨?_, ?_⟩
  · rw [← ha.length_lengths] at hroom
    exact remove_eq_ok.2 ⟨_, ha.removed ha.basis_returned (hasRoomFor_some.2 hroom) hg⟩
  · refine remove_eq_ok.2 ⟨_, ha.removed ha.basis_given ?_ hg⟩
    rintro ls rfl
    exact hroom

theorem remove_add_three_blocks :
    ∃ r, (standard.add threeBlocks (some [1, 2]) ⟨⟨1, 1⟩, some [9, 9], none⟩).1 = .ok r ∧
      (standard.remove r.batch (some r.lengths) ⟨1, 1⟩).1 = .ok ⟨threeBlocks, [1, 2]⟩ ∧
      (standard.remove r.batch (some [1, 2]) ⟨1, 1⟩).1 = .ok ⟨threeBlocks, [1, 2]⟩ := by
  have h : (standard.add threeBlocks (some [1, 2]) ⟨⟨1, 1⟩, some [9, 9], none⟩).1 = .ok
      ⟨⟨⟨7, [2], by decide, by decide⟩, [9, 9, 1, 2, 0, 0, 9, 9, 3, 4, 5, 6, 0, 0], by decide⟩,
        [3, 4]⟩ := by rfl
  exact ⟨_, h, remove_add h standard_unlimited fun _ _ => rfl⟩

end Engine

end Ragged
