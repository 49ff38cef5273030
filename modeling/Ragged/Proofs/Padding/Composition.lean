import Ragged.Proofs.Padding.Into
import Ragged.Proofs.Padding.Segmentwise

/-!
# Padding in two steps

Widths add up: padding a batch twice, with the same fills, is padding it once by the widths of
both, and so it is with taking padding away, the outer pads first. When the one call is
accepted, so are the two: what lies between is no larger than the larger of both ends, and
every segment still holds the padding it is to lose.
-/

namespace Ragged

open Lengths

/-! ## Acceptance -/

namespace Planner

variable {w v : Widths} {size outer : Nat} {lens : List Nat}

theorem fits_insert_add (h : (⟨.insert, w + v, size⟩ : Planner).Fits lens outer) :
    (⟨.insert, w, size⟩ : Planner).Fits lens outer ∧
      (⟨.insert, v, size⟩ : Planner).Fits (lens.map (· + (w.start + w.stop)))
        (outer + lens.length * (w.start + w.stop)) := by
  obtain ⟨hw, hsum, hmax, hel⟩ := fits_insert.1 h
  rw [Widths.pad_add] at hw hmax hel
  rw [Nat.mul_add, ← Nat.add_assoc] at hmax hel
  rw [fits_insert, fits_insert, List.length_map, sum_map_add, hsum]
  refine ⟨⟨by omega, rfl, by omega, ?_⟩, by omega, rfl, hmax, hel⟩
  exact Nat.lt_of_le_of_lt (Nat.mul_le_mul_right _ (Nat.le_add_right ..)) hel

theorem fits_strip_add (ho : outer ≤ maxLength)
    (h : (⟨.strip, w + v, size⟩ : Planner).Fits lens outer) :
    (⟨.strip, v, size⟩ : Planner).Fits lens outer ∧
      (⟨.strip, w, size⟩ : Planner).Fits (lens.map (· - (v.start + v.stop)))
        (outer - lens.length * (v.start + v.stop)) := by
  obtain ⟨hw, hsum, hpads, hel⟩ := (fits_strip ho).1 h
  rw [Widths.pad_add] at hw hpads
  have houter : (⟨.strip, v, size⟩ : Planner).Fits lens outer :=
    (fits_strip ho).2 ⟨by omega, hsum, fun len hl => by have := hpads len hl; omega, hel⟩
  refine ⟨houter, (fits_strip (by omega)).2 ⟨by omega, ?_, ?_, ?_⟩⟩
  · rw [← Engine.outLen_planner houter.widths size, ← Engine.outBlocks_planner houter]
    rfl
  · intro _ hl
    obtain ⟨len, hlen, rfl⟩ := List.mem_map.1 hl
    have := hpads len hlen
    omega
  · exact Nat.lt_of_le_of_lt (Nat.mul_le_mul_right _ (Nat.sub_le ..)) hel

end Planner

variable {α : Type} [Element α]

namespace Engine

variable {e m : Engine} {b : Batch α} {lengths : Option (List Int32)} {p : Padding α}
  {w v : Widths} {lens : List Nat} {r r₁ : Segmented α}

/-! ## Adding -/

/-- The inner pads can be added on their own. -/
theorem Added.exists_inner (h : e.Added b lengths (p.withWidths (w + v)) r)
    (hroom : m.HasRoomFor lengths) (hg : Granting m.host) :
    ∃ r₁, m.Added b lengths (p.withWidths w) r₁ := by
  have hfit : ((p.withWidths w).planner b.shape.blockSize).Fits
      (counts (orWhole b.shape.outer lengths)) b.shape.outer := (Planner.fits_insert_add h.fits).1
  have hpad : w.start + w.stop ≤ (w + v).start + (w + v).stop := by
    rw [Widths.pad_add]
    exact Nat.le_add_right ..
  have hmem := h.built.memory
  rw [List.length_map, length_counts] at hmem
  refine exists_added (h.fills.withWidths w) hroom h.nonneg hfit (hmem.of_granting hg ?_)
  refine Nat.mul_le_mul_right _ ?_
  rw [outBlocks_padPlanner hfit, length_counts]
  exact Nat.add_le_add_left (Nat.mul_le_mul_left _ hpad) _

/-- With the outer pads around them the batch is as if both had been added at once. -/
theorem Added.outer (h : e.Added b lengths (p.withWidths (w + v)) r)
    (h₁ : m.Added b lengths (p.withWidths w) r₁) {m' : Engine}
    (hroom : m'.HasRoomFor (some r₁.lengths)) (hg : Granting m'.host) :
    m'.Added r₁.batch (some r₁.lengths) (p.withWidths v) r := by
  have hf : p.FillsFit b.shape.blockSize := ⟨h.fills.start, h.fills.stop⟩
  have hsize := Shape.blockSize_congr h₁.built.block
  have houter : r₁.batch.shape.outer =
      b.shape.outer + (orWhole b.shape.outer lengths).length * (w.start + w.stop) := h₁.built.outer
  have hcounts : counts r₁.lengths =
      (counts (orWhole b.shape.outer lengths)).map (· + (w.start + w.stop)) := h₁.lengths_eq.2
  have hfit : ((p.withWidths v).planner r₁.batch.shape.blockSize).Fits (counts r₁.lengths)
      r₁.batch.shape.outer := by
    rw [hsize, hcounts, houter, ← length_counts]
    exact (Planner.fits_insert_add h.fits).2
  refine ⟨hsize ▸ hf.withWidths v, hroom, h₁.lengths_eq.1, hfit,
    (h.built.granted hg).congr h₁.built.block ?_ ?_ ?_⟩
  · show r₁.batch.shape.outer + r₁.lengths.length * (v.start + v.stop) =
      b.shape.outer + (orWhole b.shape.outer lengths).length * ((w + v).start + (w + v).stop)
    rw [houter, h₁.length_lengths, Widths.pad_add, Nat.mul_add _ (w.start + w.stop), Nat.add_assoc]
  · show (p.withWidths v).padded r₁.batch.shape.blockSize (counts r₁.lengths) r₁.batch.data = _
    rw [h₁.built.data, hcounts, hsize]
    exact Padding.padded_padded hf (b.length_eq_sum h.fits.total)
  · show (counts r₁.lengths).map (· + (v.start + v.stop)) =
      (counts (orWhole b.shape.outer lengths)).map (· + ((w + v).start + (w + v).stop))
    rw [hcounts, Widths.pad_add, List.map_map]
    congr
    funext len
    exact Nat.add_assoc ..

/-! ## Removing -/

theorem Removed.exists_outer (h : e.Removed b lengths (w + v) lens r)
    (hpadded : ∀ ls ∈ lengths, fullTotal ls = b.shape.outer) (hroom : m.HasRoomFor lengths)
    (halloc : ∀ t, (m.planRemove b.shape lengths v).1 = .ok t →
      GivesBatch m.host α t.outElements t.numSegments) :
    ∃ r₁, m.Removed b lengths v lens r₁ := by
  have hfit := (Planner.fits_strip_add b.shape.outer_le h.fits).1
  obtain ⟨hn, hlens⟩ := h.basis.eq_counts b.shape.outer_le hpadded
  have hbasis : PaddedBasis b.shape.outer (v.start + v.stop) lengths lens := by
    rw [← hlens]
    exact paddedBasis_orWhole b.shape.outer_le hn (hlens ▸ hfit.total)
  have hmem := halloc _ (planStrip_eq_ok.2 ⟨lens, ⟨hbasis, hroom, hfit⟩, rfl⟩)
  rw [numSegments_tableFor] at hmem
  exact exists_removed hbasis hroom hfit hmem

theorem Removed.inner (h : e.Removed b lengths (w + v) lens r)
    (h₁ : m.Removed b lengths v lens r₁) {m' : Engine}
    (hroom : m'.HasRoomFor (some r₁.lengths)) (hg : Granting m'.host) :
    m'.Removed r₁.batch (some r₁.lengths) w (lens.map (· - (v.start + v.stop))) r := by
  have hsize := Shape.blockSize_congr h₁.built.block
  have hfit : (w.planner r₁.batch.shape.blockSize).Fits (lens.map (· - (v.start + v.stop)))
      r₁.batch.shape.outer := by
    rw [hsize, h₁.built.outer]
    exact (Planner.fits_strip_add b.shape.outer_le h.fits).2
  refine ⟨?_, hroom, hfit, (h.built.granted hg).congr h₁.built.block ?_ ?_ ?_⟩
  · rw [h₁.built.lengths]
    exact paddedBasis_ofCounts r₁.batch.shape.outer_le hfit.total
  · rw [h₁.built.outer, List.length_map, Widths.pad_add, Nat.mul_add _ (w.start + w.stop),
      Nat.sub_sub, Nat.add_comm (lens.length * (v.start + v.stop))]
  · rw [h₁.built.data, hsize]
    exact Padding.stripped_stripped (b.length_eq_sum h.fits.total)
  · rw [List.map_map, Widths.pad_add]
    congr
    funext len
    show len - (v.start + v.stop) - (w.start + w.stop) = _
    rw [Nat.sub_sub, Nat.add_comm (v.start + v.stop)]

/-! ## Both -/

/-- Padding added or removed at once is padding added or removed in two steps, on any engines
without a limit that are granted memory. -/
theorem widths_compose {m' : Engine} (hm : m.Unlimited) (hm' : m'.Unlimited)
    (hg : Granting m.host) (hg' : Granting m'.host) :
    ((e.add b lengths (p.withWidths (w + v))).1 = .ok r →
      ∃ r₁, (m.add b lengths (p.withWidths w)).1 = .ok r₁ ∧
        (m'.add r₁.batch (some r₁.lengths) (p.withWidths v)).1 = .ok r) ∧
    ((e.remove b lengths (w + v)).1 = .ok r → (∀ ls ∈ lengths, fullTotal ls = b.shape.outer) →
      (∀ t, (m.planRemove b.shape lengths v).1 = .ok t →
        GivesBatch m.host α t.outElements t.numSegments) →
      ∃ r₁, (m.remove b lengths v).1 = .ok r₁ ∧
        (m'.remove r₁.batch (some r₁.lengths) w).1 = .ok r) := by
  refine ⟨fun h => ?_, fun h hpadded halloc => ?_⟩
  · have ha := add_eq_ok.1 h
    have hmem := ha.built.memory
    rw [List.length_map, length_counts] at hmem
    have hroom : m.HasRoomFor lengths := by
      rintro ls rfl
      exact hm.hasRoom (hmem.grants hg)
    obtain ⟨r₁, h₁⟩ := ha.exists_inner hroom hg
    have hroom' := hasRoomFor_some.2 (hm'.hasRoom (h₁.length_lengths ▸ hmem.grants hg'))
    exact ⟨r₁, add_eq_ok.2 h₁, add_eq_ok.2 (ha.outer h₁ hroom' hg')⟩
  · obtain ⟨lens, hr⟩ := remove_eq_ok.1 h
    obtain ⟨-, hlens⟩ := hr.basis.eq_counts b.shape.outer_le hpadded
    have hmem := hr.built.memory
    rw [List.length_map, ← hlens, length_counts] at hmem
    have hroom : m.HasRoomFor lengths := by
      rintro ls rfl
      exact hm.hasRoom (hmem.grants hg)
    obtain ⟨r₁, h₁⟩ := hr.exists_outer hpadded hroom halloc
    have hlen : r₁.lengths.length = (orWhole b.shape.outer lengths).length := by
      rw [← length_counts, h₁.lengths_eq.2, List.length_map, ← hlens, length_counts]
    have hroom' := hasRoomFor_some.2 (hm'.hasRoom (hlen ▸ hmem.grants hg'))
    exact ⟨r₁, remove_eq_ok.2 ⟨lens, h₁⟩, remove_eq_ok.2 ⟨_, hr.inner h₁ hroom' hg'⟩⟩

theorem widths_compose_three_blocks :
    (∃ r r₁ : Segmented UInt8,
      (standard.add threeBlocks (some [1, 2]) ⟨⟨1, 1⟩, some [9, 9], none⟩).1 = .ok r ∧
      (standard.add threeBlocks (some [1, 2]) ⟨⟨1, 0⟩, some [9, 9], none⟩).1 = .ok r₁ ∧
      (standard.add r₁.batch (some r₁.lengths) ⟨⟨0, 1⟩, some [9, 9], none⟩).1 = .ok r) ∧
    ∃ r r₁ : Segmented UInt8,
      (standard.remove threeBlocks none ⟨1, 1⟩).1 = .ok r ∧ r.batch.data = [3, 4] ∧
      (standard.remove threeBlocks none ⟨0, 1⟩).1 = .ok r₁ ∧
      (standard.remove r₁.batch (some r₁.lengths) ⟨1, 0⟩).1 = .ok r := by
  have hadd : (standard.add threeBlocks (some [1, 2])
      (Padding.withWidths ⟨⟨0, 0⟩, some [9, 9], none⟩ (⟨1, 0⟩ + ⟨0, 1⟩))).1 = .ok
      ⟨⟨⟨7, [2], by decide, by decide⟩, [9, 9, 1, 2, 0, 0, 9, 9, 3, 4, 5, 6, 0, 0], by decide⟩,
        [3, 4]⟩ := by rfl
  have hremove : (standard.remove threeBlocks none (⟨1, 0⟩ + ⟨0, 1⟩)).1 = .ok
      ⟨⟨⟨1, [2], by decide, by decide⟩, [3, 4], by decide⟩, [1]⟩ := by rfl
  have hg : Granting standard.host := fun _ _ => rfl
  have halloc : ∀ t, (standard.planRemove threeBlocks.shape none ⟨0, 1⟩).1 = .ok t →
      GivesBatch standard.host UInt8 t.outElements t.numSegments := by
    have hplan : (standard.planRemove threeBlocks.shape none ⟨0, 1⟩).1 =
        .ok ⟨[⟨0, 0, 3⟩], ⟨0, 1⟩, .strip, 2, 3, 2⟩ := by rfl
    intro t ht
    cases hplan.symm.trans ht
    exact ⟨hg.gives (by decide), hg.gives (by decide), hg.gives (by decide)⟩
  obtain ⟨r₁, hinner, houter⟩ :=
    (widths_compose standard_unlimited standard_unlimited hg hg).1 hadd
  obtain ⟨r₂, houter', hinner'⟩ := (widths_compose (p := ⟨⟨0, 0⟩, none, none⟩) standard_unlimited
    standard_unlimited hg hg).2 hremove (fun _ hl => nomatch hl) halloc
  exact ⟨⟨_, r₁, hadd, hinner, houter⟩, _, r₂, hremove, rfl, houter', hinner'⟩

end Engine

end Ragged
