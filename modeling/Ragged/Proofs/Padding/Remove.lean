import Mathlib.Data.List.Basic
import Ragged.Proofs.Engine

/-!
# What removing padding returns

`stripped` is the batch without its padding in terms of the segments alone, and `Removed`
is when a call succeeds and with what. A block of padding is in no segment's payload, so
what it holds does not show in the result.
-/

namespace Ragged

open Lengths

variable {α : Type}

namespace Padding

/-- The payload of the segment between the blocks `s.1` and `s.2`. -/
def strippedSegment (w : Widths) (size : Nat) (data : List α) (s : Nat × Nat) : List α :=
  blockRange size data (s.1 + w.start) (s.2 - w.stop)

def stripped (w : Widths) (size : Nat) (lens : List Nat) (data : List α) : List α :=
  (spans lens).flatMap (strippedSegment w size data)

/-- Block `k` is padding: it is one of the first or of the last blocks of its segment. -/
def InPad (w : Widths) (lens : List Nat) (k : Nat) : Prop :=
  ∃ s ∈ spans lens, (s.1 ≤ k ∧ k < s.2) ∧ (k < s.1 + w.start ∨ s.2 ≤ k + w.stop)

theorem stripped_congr {w : Widths} {size : Nat} {lens : List Nat} {data data' : List α}
    (h : ∀ i, ¬ InPad w lens (i / size) → data[i]? = data'[i]?) :
    stripped w size lens data = stripped w size lens data' := by
  apply List.flatMap_congr
  intro s hs
  apply blockRange_congr
  intro i hfirst hlast
  apply h i
  have hsize : 0 < size := Nat.pos_of_ne_zero fun h0 => by
    rw [h0, Nat.mul_zero] at hlast
    omega
  have hge := (Nat.le_div_iff_mul_le hsize).2 hfirst
  have hlt := (Nat.div_lt_iff_lt_mul hsize).2 hlast
  rintro ⟨t, ht, hk, hpad⟩
  obtain rfl := spans_unique hs ht (k := i / size) (by omega) hk
  omega

theorem removeRegion_eq {t : Table} {grain : Nat} (hg : 0 < grain) {input : List α}
    {seg : Segment} (hpad : t.widths.start + t.widths.stop ≤ seg.len)
    (hin : (seg.inStart + seg.len) * t.blockSize ≤ input.length) {region : List α}
    (hr : region.length = (seg.len - (t.widths.start + t.widths.stop)) * t.blockSize) :
    removeRegion t grain input seg region =
      .ok (strippedSegment t.widths t.blockSize input (seg.inStart, seg.inStart + seg.len)) := by
  have hlast : seg.inStart + t.widths.start + (seg.len - (t.widths.start + t.widths.stop)) =
      seg.inStart + seg.len - t.widths.stop := by omega
  have hle : (seg.inStart + seg.len - t.widths.stop) * t.blockSize ≤ input.length :=
    Nat.le_trans (Nat.mul_le_mul_right _ (Nat.sub_le ..)) hin
  have hpayload := length_blockRange (seg.inStart + t.widths.start) hle
  rw [removeRegion, hr, slice_eq_blockRange (by rwa [hlast]), hlast]
  simp only [bind, Except.bind, pure, Except.pure]
  rw [copy_eq hg (by rw [hr, hpayload]; congr 1; omega), strippedSegment]

theorem removeRegion_writes {w : Widths} {grain size outer : Nat} (hg : 0 < grain)
    {lens : List Nat} (hfit : (w.planner size).Fits lens outer) {input : List α}
    (hin : input.length = outer * size) :
    ((w.planner size).tableFor lens).Writes
      (removeRegion ((w.planner size).tableFor lens) grain input)
      (fun seg => strippedSegment w size input (seg.inStart, seg.inStart + seg.len))
      ((w.planner size).tableFor lens).segments := by
  intro seg hs
  have hin' : (seg.inStart + seg.len) * size ≤ input.length := hin ▸ hfit.inside hs
  have hpad : w.start + w.stop ≤ seg.len := hfit.pads rfl hs
  have hout : ((w.planner size).tableFor lens).segmentOutBlocks seg =
      seg.len - (w.start + w.stop) := by
    rw [Planner.segmentOutBlocks_tableFor, Planner.outLen, Widths.total_eq hfit.widths]
  rw [hout]
  refine ⟨?_, fun region hr => removeRegion_eq hg hpad hin' hr⟩
  have hlast : (seg.inStart + seg.len - w.stop) * size ≤ input.length :=
    Nat.le_trans (Nat.mul_le_mul_right _ (Nat.sub_le ..)) hin'
  refine (length_blockRange _ hlast).trans ?_
  congr 1
  simp only
  omega

end Padding

namespace Engine

variable {e : Engine} {b : Batch α} {lengths : Option (List Int32)} {w : Widths}
  {lens : List Nat} {r : Segmented α} [Element α]

/-- Removing padding from a batch with segments of `lens` blocks succeeds with `r`. -/
structure Removed (e : Engine) (b : Batch α) (lengths : Option (List Int32)) (w : Widths)
    (lens : List Nat) (r : Segmented α) : Prop where
  basis : PaddedBasis b.shape.outer (w.start + w.stop) lengths lens
  room : e.HasRoomFor lengths
  fits : (w.planner b.shape.blockSize).Fits lens b.shape.outer
  built : Built e.host b.shape (b.shape.outer - lens.length * (w.start + w.stop))
    (Padding.stripped w b.shape.blockSize lens b.data) (lens.map (· - (w.start + w.stop))) r

omit [Element α] in
theorem outLen_planner (hw : w.start + w.stop ≤ maxLength) (size : Nat) :
    (w.planner size).outLen = (· - (w.start + w.stop)) := by
  funext len
  unfold Planner.outLen
  rw [Widths.total_eq hw]

omit [Element α] in
theorem outBlocks_planner {size outer : Nat} (hfit : (w.planner size).Fits lens outer) :
    ((w.planner size).tableFor lens).outBlocks = outer - lens.length * (w.start + w.stop) :=
  (Nat.sub_eq_of_eq_add hfit.outBlocks_add.symm).symm

theorem newRemove_eq_ok (e : Engine)
    (hfit : (w.planner b.shape.blockSize).Fits lens b.shape.outer) :
    rewriteNew e.host b.shape ((w.planner b.shape.blockSize).tableFor lens)
        (e.launchRemove ((w.planner b.shape.blockSize).tableFor lens) b.data) = .ok r ↔
      Built e.host b.shape (b.shape.outer - lens.length * (w.start + w.stop))
        (Padding.stripped w b.shape.blockSize lens b.data)
        (lens.map (· - (w.start + w.stop))) r := by
  have hw := Padding.removeRegion_writes e.elementGrain_pos hfit b.length_eq
  unfold Padding.stripped
  rw [← (w.planner b.shape.blockSize).flatMap_tableFor lens, ← outBlocks_planner hfit,
    ← outLen_planner hfit.widths b.shape.blockSize]
  exact rewriteNew_eq_ok hfit rfl hw b.length_eq

theorem remove_eq_ok :
    (e.remove b lengths w).1 = .ok r ↔ ∃ lens, e.Removed b lengths w lens r := by
  refine (launched_eq_ok (fun _ => planStrip_eq_ok)
    (Q := fun _ => ∃ lens, e.Removed b lengths w lens r) ?_).trans ?_
  · rintro _ ⟨lens, ⟨hbasis, hroom, hfit⟩, rfl⟩
    rw [newRemove_eq_ok _ hfit, (planStrip_kept ..).2]
    refine ⟨?_, ?_⟩
    · intro hbuilt
      exact ⟨lens, hbasis, hroom, hfit, hbuilt⟩
    · intro hr
      rcases hr with ⟨lens', h⟩
      obtain rfl := h.basis.unique hbasis
      exact h.built
  · refine ⟨?_, ?_⟩
    · intro hr
      rcases hr with ⟨_, -, h⟩
      exact h
    · intro hr
      rcases hr with ⟨lens, h⟩
      exact ⟨_, ⟨lens, ⟨h.basis, h.room, h.fits⟩, rfl⟩, lens, h⟩

theorem exists_removed
    (hbasis : PaddedBasis b.shape.outer (w.start + w.stop) lengths lens)
    (hroom : e.HasRoomFor lengths)
    (hfit : (w.planner b.shape.blockSize).Fits lens b.shape.outer)
    (hmem : GivesBatch e.host α ((w.planner b.shape.blockSize).tableFor lens).outElements
      lens.length) :
    ∃ r, e.Removed b lengths w lens r := by
  have hw := Padding.removeRegion_writes e.elementGrain_pos hfit b.length_eq
  obtain ⟨r, hnew, -⟩ := exists_rewriteNew hfit rfl hw b.length_eq hmem
  exact ⟨r, hbasis, hroom, hfit, (newRemove_eq_ok e hfit).1 hnew⟩

theorem Removed.lengths_eq (h : e.Removed b lengths w lens r) :
    Nonneg r.lengths ∧ counts r.lengths = lens.map (· - (w.start + w.stop)) := by
  have hle := h.fits.outLen_le b.shape.outer_le
  rw [outLen_planner h.fits.widths] at hle
  rw [h.built.lengths]
  exact ⟨nonneg_ofCounts hle, counts_ofCounts hle⟩

/-- What a call leaves of the engine is settled by the plan. -/
theorem remove_snd : (e.remove b lengths w).2 = (e.planRemove b.shape lengths w).2 := by
  unfold remove
  obtain ⟨t, e'⟩ := e.planRemove b.shape lengths w
  cases t <;> rfl

theorem Removed.congr {b' : Batch α} (h : e.Removed b lengths w lens r) (hs : b'.shape = b.shape)
    (hdata : ∀ i, ¬ Padding.InPad w lens (i / b.shape.blockSize) → b.data[i]? = b'.data[i]?) :
    e.Removed b' lengths w lens r := by
  obtain ⟨hbasis, hroom, hfit, hbuilt⟩ := h
  rw [Padding.stripped_congr hdata, ← hs] at hbuilt
  rw [← hs] at hbasis hfit
  exact ⟨hbasis, hroom, hfit, hbuilt⟩

/-- Every segment loses its padding, in order, and what the padding held does not show. -/
theorem remove_strips_segments (h : (e.remove b lengths w).1 = .ok r) :
    let pad := w.start + w.stop
    ∃ lens, PaddedBasis b.shape.outer pad lengths lens ∧ lens.sum = b.shape.outer ∧
      (∀ len ∈ lens, pad ≤ len) ∧
      r.batch.data = (spans lens).flatMap (fun s =>
        blockRange b.shape.blockSize b.data (s.1 + w.start) (s.2 - w.stop)) ∧
      r.lengths.map Int32.toInt = lens.map (fun len : Nat => (len : Int) - (pad : Int)) ∧
      lens.length * pad ≤ b.shape.outer ∧
      r.batch.shape.dims = (b.shape.outer - lens.length * pad) :: b.shape.block ∧
      ∀ b' : Batch α, b'.shape = b.shape →
        (∀ i, ¬ Padding.InPad w lens (i / b.shape.blockSize) → b.data[i]? = b'.data[i]?) →
        e.remove b' lengths w = e.remove b lengths w := by
  intro pad
  obtain ⟨lens, hr⟩ := remove_eq_ok.1 h
  have htotal : w.total = pad := Widths.total_eq hr.fits.widths
  have hpad : ∀ len ∈ lens, pad ≤ len := htotal ▸ hr.fits.holds rfl
  have hsum := (Planner.sum_outLen hr.fits.holds).2 rfl
  have hle : ∀ l ∈ lens.map (· - pad), l ≤ maxLength := by
    intro l hl
    obtain ⟨len, hlen, rfl⟩ := List.mem_map.1 hl
    have hmem := mem_le_sum hlen
    have hmax := b.shape.outer_le
    rw [hr.basis.sum_eq] at hmem
    omega
  refine ⟨lens, hr.basis, hr.basis.sum_eq, hpad, hr.built.data, ?_, ?_, hr.built.dims_eq, ?_⟩
  · rw [hr.built.lengths, map_toInt_ofCounts hle, List.map_map]
    exact List.map_congr_left fun len hl => Int.natCast_sub (hpad len hl)
  · rw [hr.basis.sum_eq, htotal] at hsum
    omega
  · intro b' hs hdata
    have h' := remove_eq_ok.2 ⟨lens, hr.congr hs hdata⟩
    exact Prod.ext (h'.trans h.symm) (by rw [remove_snd, remove_snd, hs])

theorem remove_strips_three_blocks :
    ∃ r, (standard.remove threeBlocks none ⟨1, 1⟩).1 = .ok r ∧ r.batch.data = [3, 4] ∧
      r.lengths = [1] := by
  have h : (standard.remove threeBlocks none ⟨1, 1⟩).1 = .ok
      ⟨⟨⟨1, [2], by decide, by decide⟩, [3, 4], by decide⟩, [1]⟩ := by rfl
  obtain ⟨_, ⟨⟩, -, -, hdata, -⟩ := remove_strips_segments h
  exact ⟨_, h, hdata, rfl⟩

end Engine

end Ragged
