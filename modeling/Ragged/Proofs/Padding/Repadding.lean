import Ragged.Proofs.Padding.Into
import Ragged.Proofs.Padding.Segmentwise

/-!
# Adding again what was removed

Padding added to a batch that was stripped fills its pads and leaves its payloads where they
were, so only the padding is made anew; a batch whose pads held the fills already comes back
as it was. That padding can be added follows from the acceptance of the strip: the padded
batch is as large as the one before.
-/

namespace Ragged

open Lengths

variable {α : Type} [Element α]

namespace Engine

variable {e m : Engine} {b : Batch α} {lengths : Option (List Int32)} {p : Padding α}
  {lens : List Nat} {r r' : Segmented α}

theorem Removed.outer_add (h : e.Removed b lengths p.widths lens r) :
    r.batch.shape.outer + r.lengths.length * (p.widths.start + p.widths.stop) = b.shape.outer := by
  have hblocks := h.fits.outBlocks_add
  rw [outBlocks_planner h.fits] at hblocks
  rw [h.built.outer, h.built.lengths, ofCounts, List.length_map, List.length_map, hblocks]

/-- The segments of a stripped batch held their padding before. -/
theorem Removed.lens_eq (h : e.Removed b lengths p.widths lens r) :
    (counts r.lengths).map (· + (p.widths.start + p.widths.stop)) = lens := by
  obtain ⟨-, -, hpads, -⟩ := (Planner.fits_strip b.shape.outer_le).1 h.fits
  rw [h.lengths_eq.2, List.map_map]
  calc lens.map _ = lens.map id :=
        List.map_congr_left fun len hl => Nat.sub_add_cancel (hpads len hl)
    _ = lens := List.map_id lens

theorem Removed.exists_added (h : e.Removed b lengths p.widths lens r)
    (hf : p.FillsFit b.shape.blockSize) (hroom : m.HasRoomFor (some r.lengths))
    (halloc : ∀ t, (m.planAdd r.batch.shape (some r.lengths) p).1 = .ok t →
      GivesBatch m.host α t.outElements t.numSegments) :
    ∃ r', m.Added r.batch (some r.lengths) p r' := by
  have hsize := Shape.blockSize_congr h.built.block
  have houter := h.outer_add
  obtain ⟨hw, hsum, -, hel⟩ := (Planner.fits_strip b.shape.outer_le).1 h.fits
  obtain ⟨hn, -⟩ := h.lengths_eq
  have hfit : (p.planner r.batch.shape.blockSize).Fits (counts r.lengths) r.batch.shape.outer := by
    have hlens := congrArg List.sum h.lens_eq
    rw [sum_map_add, length_counts, hsum, ← houter] at hlens
    rw [Planner.fits_insert, length_counts, houter, hsize]
    exact ⟨hw, Nat.add_right_cancel hlens, b.shape.outer_le, hel⟩
  rw [← hsize] at hf
  have hmem := halloc _ (planAdd_eq_ok.2 ⟨⟨hf, hroom, hn, hfit⟩, rfl⟩)
  rw [numSegments_tableFor, length_counts] at hmem
  exact Engine.exists_added hf hroom hn hfit hmem

/-- A stripped batch that is padded again has the old payloads and new pads. -/
theorem Removed.repadded (h : e.Removed b lengths p.widths lens r)
    (ha : m.Added r.batch (some r.lengths) p r') :
    r'.batch.shape = b.shape ∧ r'.lengths = ofCounts lens ∧
      Padding.stripped p.widths b.shape.blockSize lens r'.batch.data =
        Padding.stripped p.widths b.shape.blockSize lens b.data ∧
      p.Filled b.shape.blockSize lens r'.batch.data := by
  have hsize := Shape.blockSize_congr h.built.block
  have hlen : r.batch.data.length = (counts r.lengths).sum * r.batch.shape.blockSize :=
    r.batch.length_eq_sum ha.fits.total
  have hdata : r'.batch.data =
      p.padded r.batch.shape.blockSize (counts r.lengths) r.batch.data := ha.built.data
  have hstripped := Padding.stripped_padded ha.fills hlen
  have hfilled := Padding.padded_filled ha.fills hlen
  rw [h.lens_eq, ← hdata, hsize] at hstripped hfilled
  refine ⟨Shape.ext_outer ?_ ?_, ?_, ?_, hfilled⟩
  · rw [ha.built.outer]
    exact h.outer_add
  · rw [ha.built.block, h.built.block]
  · rw [ha.built.lengths]
    exact congrArg ofCounts h.lens_eq
  · rw [hstripped, h.built.data]

/-- Padding a stripped batch again keeps its shape, its lengths and its payloads, and fills its
pads. -/
theorem add_remove (h : (e.remove b lengths p.widths).1 = .ok r)
    (hpadded : ∀ ls ∈ lengths, fullTotal ls = b.shape.outer) (hf : p.FillsFit b.shape.blockSize)
    (hm : m.Unlimited) (hg : m.Grants r.lengths.length)
    (halloc : ∀ t, (m.planAdd r.batch.shape (some r.lengths) p).1 = .ok t →
      GivesBatch m.host α t.outElements t.numSegments) :
    let lens := counts (orWhole b.shape.outer lengths)
    ∃ r', (m.add r.batch (some r.lengths) p).1 = .ok r' ∧
      r'.batch.shape = b.shape ∧ r'.lengths = orWhole b.shape.outer lengths ∧
      (∀ s ∈ spans lens,
        blockRange b.shape.blockSize r'.batch.data (s.1 + p.widths.start) (s.2 - p.widths.stop) =
          blockRange b.shape.blockSize b.data (s.1 + p.widths.start) (s.2 - p.widths.stop)) ∧
      p.Filled b.shape.blockSize lens r'.batch.data ∧
      (p.Filled b.shape.blockSize lens b.data → r'.batch = b) := by
  intro lens
  obtain ⟨lens', hr⟩ := remove_eq_ok.1 h
  obtain ⟨hn, hlens⟩ := hr.basis.eq_counts b.shape.outer_le hpadded
  obtain rfl : lens = lens' := hlens
  obtain ⟨r', ha⟩ := hr.exists_added hf (hasRoomFor_some.2 (hm.hasRoom hg)) halloc
  obtain ⟨hshape, hlengths, hstripped, hfilled⟩ := hr.repadded ha
  obtain ⟨-, hsum, hpads, -⟩ := (Planner.fits_strip b.shape.outer_le).1 hr.fits
  have hlen := b.length_eq_sum hsum
  have hlen' : r'.batch.data.length = lens.sum * b.shape.blockSize := by
    rw [r'.batch.length_eq, hshape, hsum]
  refine ⟨r', add_eq_ok.2 ha, hshape, ?_, ?_, hfilled, fun hb => ?_⟩
  · rw [hlengths]
    exact ofCounts_counts hn
  · exact Padding.strippedSegment_congr hlen' hlen hstripped
  · exact Batch.ext_data hshape (hfilled.eq_of_stripped hb hlen' hlen hpads hstripped)

/-- Two segments of two blocks and of one, each after a block of nines. -/
def fiveBlocks : Batch UInt8 :=
  ⟨⟨5, [2], by decide, by decide⟩, [9, 9, 1, 2, 3, 4, 9, 9, 5, 6], by decide⟩

/-- A block of nines before every segment. -/
def nineFirst : Padding UInt8 := ⟨⟨1, 0⟩, some [9, 9], none⟩

theorem add_remove_two_segments :
    ∃ r r', (standard.remove fiveBlocks (some [3, 2]) nineFirst.widths).1 = .ok r ∧
      r.batch.data = [1, 2, 3, 4, 5, 6] ∧ r.lengths = [2, 1] ∧
      (standard.add r.batch (some r.lengths) nineFirst).1 = .ok r' ∧
      r'.lengths = [3, 2] ∧ r'.batch = fiveBlocks := by
  have h : (standard.remove fiveBlocks (some [3, 2]) nineFirst.widths).1 = .ok
      ⟨⟨⟨3, [2], by decide, by decide⟩, [1, 2, 3, 4, 5, 6], by decide⟩, [2, 1]⟩ := by rfl
  have hf : nineFirst.FillsFit fiveBlocks.shape.blockSize :=
    ⟨fun _ hb => by cases hb; rfl, fun _ hb => nomatch hb⟩
  have halloc : ∀ t, (standard.planAdd (⟨3, [2], by decide, by decide⟩ : Shape) (some [2, 1])
      nineFirst).1 = .ok t → GivesBatch standard.host UInt8 t.outElements t.numSegments := by
    have hplan : (standard.planAdd (⟨3, [2], by decide, by decide⟩ : Shape) (some [2, 1])
        nineFirst).1 = .ok ⟨[⟨0, 0, 2⟩, ⟨2, 3, 1⟩], ⟨1, 0⟩, .insert, 2, 3, 5⟩ := by rfl
    intro t ht
    cases hplan.symm.trans ht
    exact granting_sequential.givesBatch (by decide) (by decide)
  obtain ⟨r', ha, -, hlengths, -, -, hback⟩ := add_remove h (by rintro _ ⟨⟩; rfl) hf
    standard_unlimited (granting_sequential.grants (by decide)) halloc
  have hfilled : nineFirst.Filled 2 [3, 2] fiveBlocks.data := ⟨by decide, by decide⟩
  exact ⟨_, r', h, rfl, rfl, ha, hlengths, hback hfilled⟩

end Engine

end Ragged
