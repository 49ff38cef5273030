import Ragged.Proofs.Layout.Placement
import Ragged.Proofs.Spans

/-!
# Planned tables tile both sides

Every segment of a planned table begins where the one before it ends, in the input and in
the output, and the last ends where input and output end. Regions of such a table neither
overlap nor leave a gap.
-/

namespace Ragged

namespace Table

/-- The segments follow one another from block `i` of the input and block `o` of the output
on, up to the end of both. -/
def Tiles (t : Table) : Nat → Nat → List Segment → Prop
  | i, o, [] => i = t.inBlocks ∧ o = t.outBlocks
  | i, o, seg :: segs =>
    seg.inStart = i ∧ seg.outStart = o ∧
      t.Tiles (i + seg.len) (o + t.segmentOutBlocks seg) segs

variable {t : Table}

theorem Tiles.le {i o : Nat} {segs : List Segment} (h : t.Tiles i o segs) :
    i ≤ t.inBlocks ∧ o ≤ t.outBlocks := by
  induction segs generalizing i o with
  | nil =>
    obtain ⟨rfl, rfl⟩ := h
    exact ⟨Nat.le_refl _, Nat.le_refl _⟩
  | cons seg segs ih =>
    have := ih h.2.2
    omega

theorem Tiles.mem_le {i o : Nat} {segs : List Segment} (h : t.Tiles i o segs) {seg : Segment}
    (hs : seg ∈ segs) : seg.inStart + seg.len ≤ t.inBlocks := by
  induction segs generalizing i o with
  | nil => cases hs
  | cons s segs ih =>
    obtain ⟨hi, -, hrest⟩ := h
    rcases List.mem_cons.1 hs with rfl | hs
    · have := hrest.le
      omega
    · exact ih hrest hs

end Table

namespace Planner

variable {p : Planner}

theorem segmentOutBlocks_tableFor (p : Planner) (lens : List Nat) (seg : Segment) :
    (p.tableFor lens).segmentOutBlocks seg = p.outLen seg.len := by
  unfold Table.segmentOutBlocks outLen tableFor
  cases p.direction <;> rfl

theorem placed_tiles (p : Planner) (all : List Nat) {i o : Nat} {lens : List Nat}
    (hi : i + lens.sum = all.sum) (ho : o + (lens.map p.outLen).sum = (all.map p.outLen).sum) :
    (p.tableFor all).Tiles i o (p.placed i o lens) := by
  induction lens generalizing i o with
  | nil => exact ⟨hi, ho⟩
  | cons len lens ih =>
    simp only [List.sum_cons, List.map_cons] at hi ho
    refine ⟨rfl, rfl, ?_⟩
    rw [segmentOutBlocks_tableFor]
    exact ih (by simp only; omega) (by simp only; omega)

theorem tableFor_tiles (p : Planner) (lens : List Nat) :
    (p.tableFor lens).Tiles 0 0 (p.tableFor lens).segments :=
  p.placed_tiles lens (Nat.zero_add _) (Nat.zero_add _)

@[simp] theorem length_placed (p : Planner) (i o : Nat) (lens : List Nat) :
    (p.placed i o lens).length = lens.length := by
  induction lens generalizing i o with
  | nil => rfl
  | cons len lens ih => rw [placed, List.length_cons, ih, List.length_cons]

theorem map_len_placed (p : Planner) (i o : Nat) (lens : List Nat) :
    (p.placed i o lens).map Segment.len = lens := by
  induction lens generalizing i o with
  | nil => rfl
  | cons len lens ih => rw [placed, List.map_cons, ih]

theorem len_mem (p : Planner) {lens : List Nat} {seg : Segment}
    (hs : seg ∈ (p.tableFor lens).segments) : seg.len ∈ lens := by
  rw [← map_len_placed p 0 0 lens]
  exact List.mem_map_of_mem hs

theorem map_span_placed (p : Planner) (i o : Nat) (lens : List Nat) :
    (p.placed i o lens).map (fun seg => (seg.inStart, seg.inStart + seg.len)) =
      (spans lens).map fun s => (i + s.1, i + s.2) := by
  induction lens generalizing i o with
  | nil => rfl
  | cons len lens ih =>
    unfold placed
    rw [List.map_cons, ih, spans_cons, List.map_cons, List.map_map]
    simp [Nat.add_assoc]

theorem map_span_tableFor (p : Planner) (lens : List Nat) :
    (p.tableFor lens).segments.map (fun seg => (seg.inStart, seg.inStart + seg.len)) =
      spans lens := by
  unfold tableFor
  rw [map_span_placed]
  simp

theorem flatMap_tableFor {β : Type} (p : Planner) (lens : List Nat) (f : Nat × Nat → List β) :
    (p.tableFor lens).segments.flatMap (fun seg => f (seg.inStart, seg.inStart + seg.len)) =
      (spans lens).flatMap f := by
  rw [← map_span_tableFor p lens, List.flatMap_map]

theorem newLengths_tableFor {lens : List Nat} (host : Host)
    (h : ∀ len ∈ lens, p.outLen len ≤ maxLength) :
    (p.tableFor lens).newLengths host = .ok (Lengths.ofCounts (lens.map p.outLen)) := by
  have hseg : ∀ seg ∈ (p.tableFor lens).segments,
      (p.tableFor lens).newLength seg = .ok (Int32.ofNat (p.outLen seg.len)) := by
    intro seg hs
    unfold Table.newLength
    rw [segmentOutBlocks_tableFor, if_pos (h _ (p.len_mem hs))]
  have hmap : lens.map p.outLen = (p.tableFor lens).segments.map fun seg => p.outLen seg.len := by
    have hlens := congrArg (List.map p.outLen) (map_len_placed p 0 0 lens)
    rw [List.map_map] at hlens
    exact hlens.symm
  unfold Table.newLengths
  rw [Host.collect_map hseg, Lengths.ofCounts, hmap, List.map_map]
  rfl

theorem Fits.inside {lens : List Nat} {outer : Nat} (h : p.Fits lens outer) {seg : Segment}
    (hs : seg ∈ (p.tableFor lens).segments) :
    (seg.inStart + seg.len) * p.blockSize ≤ outer * p.blockSize := by
  rw [← h.total]
  exact Nat.mul_le_mul_right _ ((p.tableFor_tiles lens).mem_le hs)

theorem Fits.pads {lens : List Nat} {outer : Nat} (h : p.Fits lens outer)
    (hd : p.direction = .strip) {seg : Segment} (hs : seg ∈ (p.tableFor lens).segments) :
    p.widths.start + p.widths.stop ≤ seg.len := by
  rw [← Widths.total_eq h.widths]
  exact h.holds hd _ (p.len_mem hs)

theorem Fits.outBlocks_le {lens : List Nat} {outer : Nat} (h : p.Fits lens outer)
    (ho : outer ≤ maxLength) :
    (p.tableFor lens).outBlocks ≤ maxLength ∧
      (p.tableFor lens).outBlocks * p.blockSize < wordCount := by
  obtain ⟨hinsert, hstrip⟩ := sum_outLen h.holds
  have htotal := h.total
  have hel := h.elements
  cases hd : p.direction with
  | insert =>
    have hgrown := h.grown hd
    unfold tableFor
    rw [hinsert hd, htotal]
    exact hgrown
  | strip =>
    have hle : (p.tableFor lens).outBlocks ≤ outer := by
      have := hstrip hd
      simp only [tableFor]
      omega
    exact ⟨by omega, Nat.lt_of_le_of_lt (Nat.mul_le_mul_right _ hle) hel⟩

theorem Fits.outLen_le {lens : List Nat} {outer : Nat} (h : p.Fits lens outer)
    (ho : outer ≤ maxLength) : ∀ len ∈ lens.map p.outLen, len ≤ maxLength :=
  fun _ hl => Nat.le_trans (Lengths.mem_le_sum hl) (h.outBlocks_le ho).1

theorem Fits.newLengths_eq {lens : List Nat} {outer : Nat} (h : p.Fits lens outer)
    (host : Host) (ho : outer ≤ maxLength) :
    (p.tableFor lens).newLengths host = .ok (Lengths.ofCounts (lens.map p.outLen)) :=
  newLengths_tableFor host fun _ hl => h.outLen_le ho _ (List.mem_map_of_mem hl)

end Planner

end Ragged
