import Ragged.Proofs.Engine
import Ragged.Proofs.Fill

/-!
# What adding padding returns

`padded` is the padded batch in terms of the segments alone: for each of them the start
pad, its own blocks and the end pad. `Added` is when a call succeeds and with what; grains,
regions and the order of the writes are gone from it.
-/

namespace Ragged

open Lengths

variable {α : Type} [Element α]

namespace Padding

/-- The segment between the blocks `s.1` and `s.2`, with its padding. -/
def paddedSegment (p : Padding α) (size : Nat) (data : List α) (s : Nat × Nat) : List α :=
  padRun p.startFill size p.widths.start ++ blockRange size data s.1 s.2 ++
    padRun p.stopFill size p.widths.stop

def padded (p : Padding α) (size : Nat) (lens : List Nat) (data : List α) : List α :=
  (spans lens).flatMap (p.paddedSegment size data)

/-- Fills are one block. -/
structure FillsFit (p : Padding α) (size : Nat) : Prop where
  start : ∀ block, p.startFill = some block → block.length = size
  stop : ∀ block, p.stopFill = some block → block.length = size

abbrev planner (p : Padding α) (size : Nat) : Planner := ⟨.insert, p.widths, size⟩

omit [Element α] in
theorem checkFill_eq_ok {side : Side} {size : Nat} {fill : Option (List α)} :
    checkFill side size fill = .ok () ↔ ∀ block, fill = some block → block.length = size := by
  cases fill with
  | none => simp [checkFill]
  | some block =>
    simp only [checkFill, Option.some.injEq, forall_eq']
    split <;> rename_i h <;> simp [h]

omit [Element α] in
theorem checkFills_eq_ok {p : Padding α} {size : Nat} :
    p.checkFills size = .ok () ↔ p.FillsFit size := by
  unfold checkFills
  rw [bind_eq_ok]
  refine ⟨?_, ?_⟩
  · intro h
    rcases h with ⟨⟨⟩, hstart, hstop⟩
    exact ⟨checkFill_eq_ok.1 hstart, checkFill_eq_ok.1 hstop⟩
  · intro h
    rcases h with ⟨hstart, hstop⟩
    exact ⟨(), checkFill_eq_ok.2 hstart, checkFill_eq_ok.2 hstop⟩

theorem length_paddedSegment {p : Padding α} {size : Nat} (hf : p.FillsFit size) {data : List α}
    {s : Nat × Nat} (hs : s.2 * size ≤ data.length) :
    (p.paddedSegment size data s).length =
      (p.widths.start + (s.2 - s.1) + p.widths.stop) * size := by
  rw [paddedSegment, List.length_append, List.length_append, length_padRun hf.start,
    length_padRun hf.stop, length_blockRange s.1 hs, Nat.add_mul, Nat.add_mul]

/-- What a launch by a table makes of a segment's region: the pads are filled and the payload
lies between them. Fills of another size than a block leave elements as they were. -/
def regionOver (p : Padding α) (t : Table) (input : List α) (seg : Segment) (region : List α) :
    List α :=
  filled p.startFill (region.take (t.widths.start * t.blockSize)) ++
    blockRange t.blockSize input seg.inStart (seg.inStart + seg.len) ++
    filled p.stopFill (region.drop ((t.widths.start + seg.len) * t.blockSize))

/-- One region, whatever the fills and the widths asked for. -/
theorem addRegion_over {p : Padding α} {t : Table} {grain : Nat} (hg : 0 < grain)
    {input : List α} {seg : Segment}
    (hin : (seg.inStart + seg.len) * t.blockSize ≤ input.length) {region : List α}
    (hr : region.length = (t.widths.start + seg.len + t.widths.stop) * t.blockSize) :
    p.addRegion t grain input seg region = .ok (p.regionOver t input seg region) := by
  rw [Nat.add_mul, Nat.add_mul] at hr
  have hpayload := length_blockRange seg.inStart hin
  rw [Nat.add_sub_cancel_left] at hpayload
  have hbody : ((region.drop (t.widths.start * t.blockSize)).take (seg.len * t.blockSize)).length =
      (blockRange t.blockSize input seg.inStart (seg.inStart + seg.len)).length := by
    rw [List.length_take, List.length_drop, hpayload]
    omega
  unfold addRegion
  rw [slice_eq_blockRange hin]
  simp only [bind, Except.bind]
  rw [splitOff, if_pos (by omega)]
  simp only
  rw [splitOff, if_pos (by rw [List.length_drop]; omega)]
  simp only [pure, Except.pure]
  rw [fill_eq hg, fill_eq hg, copy_eq hg hbody, List.drop_drop, ← Nat.add_mul, regionOver]

/-- Fills of one block leave nothing of the old region. -/
theorem regionOver_eq {p : Padding α} {t : Table} (hf : p.FillsFit t.blockSize)
    (hw : t.widths = p.widths) {input : List α} {seg : Segment} {region : List α}
    (hr : region.length = (t.widths.start + seg.len + t.widths.stop) * t.blockSize) :
    p.regionOver t input seg region =
      p.paddedSegment t.blockSize input (seg.inStart, seg.inStart + seg.len) := by
  rw [Nat.add_mul, Nat.add_mul, ← Nat.add_mul] at hr
  have hhead : (region.take (t.widths.start * t.blockSize)).length =
      t.widths.start * t.blockSize := by
    rw [Nat.add_mul] at hr
    rw [List.length_take]
    omega
  have htail : (region.drop ((t.widths.start + seg.len) * t.blockSize)).length =
      t.widths.stop * t.blockSize := by
    rw [List.length_drop]
    omega
  rw [regionOver, filled_eq_padRun hf.start hhead, filled_eq_padRun hf.stop htail, paddedSegment,
    hw]

theorem addRegion_writes {p : Padding α} {grain size outer : Nat} (hg : 0 < grain)
    (hf : p.FillsFit size) {lens : List Nat} (hfit : (p.planner size).Fits lens outer)
    {input : List α} (hin : input.length = outer * size) :
    ((p.planner size).tableFor lens).Writes
      (p.addRegion ((p.planner size).tableFor lens) grain input)
      (fun seg => p.paddedSegment size input (seg.inStart, seg.inStart + seg.len))
      ((p.planner size).tableFor lens).segments := by
  intro seg hs
  have hin' : (seg.inStart + seg.len) * size ≤ input.length := hin ▸ hfit.inside hs
  have hout : ((p.planner size).tableFor lens).segmentOutBlocks seg =
      p.widths.start + seg.len + p.widths.stop := by
    rw [Planner.segmentOutBlocks_tableFor, Planner.outLen, Widths.total_eq hfit.widths]
    simp only
    omega
  rw [hout]
  refine ⟨?_, fun region hr => ?_⟩
  · rw [length_paddedSegment hf hin', Nat.add_sub_cancel_left]
    rfl
  · rw [addRegion_over hg hin' hr, regionOver_eq hf rfl hr]
    rfl

end Padding

namespace Engine

variable {e : Engine} {b : Batch α} {lengths : Option (List Int32)} {p : Padding α}
  {r : Segmented α}

/-- Adding padding to a batch succeeds with `r`. -/
structure Added (e : Engine) (b : Batch α) (lengths : Option (List Int32)) (p : Padding α)
    (r : Segmented α) : Prop where
  fills : p.FillsFit b.shape.blockSize
  room : e.HasRoomFor lengths
  nonneg : Nonneg (orWhole b.shape.outer lengths)
  fits : (p.planner b.shape.blockSize).Fits (counts (orWhole b.shape.outer lengths)) b.shape.outer
  built : Built e.host b.shape
    (b.shape.outer + (orWhole b.shape.outer lengths).length * (p.widths.start + p.widths.stop))
    (p.padded b.shape.blockSize (counts (orWhole b.shape.outer lengths)) b.data)
    ((counts (orWhole b.shape.outer lengths)).map (· + (p.widths.start + p.widths.stop))) r

omit [Element α] in
theorem planAdd_eq_ok {shape : Shape} {t : Table} :
    (e.planAdd shape lengths p).1 = .ok t ↔
      (p.FillsFit shape.blockSize ∧ e.HasRoomFor lengths ∧
        Nonneg (orWhole shape.outer lengths) ∧
        (p.planner shape.blockSize).Fits (counts (orWhole shape.outer lengths)) shape.outer) ∧
        t = (p.planner shape.blockSize).tableFor (counts (orWhole shape.outer lengths)) := by
  rw [← Padding.checkFills_eq_ok, planAdd]
  cases p.checkFills shape.blockSize with
  | error f => simp
  | ok u =>
    simp only [plan_eq_ok shape.outer_le, Planner.planLengths_eq_ok, true_and]
    simp only [and_assoc]

omit [Element α] in
theorem outBlocks_padPlanner {size outer : Nat} {lens : List Nat}
    (hfit : (p.planner size).Fits lens outer) :
    ((p.planner size).tableFor lens).outBlocks =
      outer + lens.length * (p.widths.start + p.widths.stop) := by
  rw [Planner.tableFor, (Planner.sum_outLen hfit.holds).1 rfl, hfit.total,
    Widths.total_eq hfit.widths]

/-- What is launched on the table shows only the memory of the engine's host. -/
theorem newAdd_eq_ok (e : Engine) (hf : p.FillsFit b.shape.blockSize) {lens : List Nat}
    (hfit : (p.planner b.shape.blockSize).Fits lens b.shape.outer) :
    rewriteNew e.host b.shape ((p.planner b.shape.blockSize).tableFor lens)
        (e.launchAdd ((p.planner b.shape.blockSize).tableFor lens) p b.data) = .ok r ↔
      Built e.host b.shape (b.shape.outer + lens.length * (p.widths.start + p.widths.stop))
        (p.padded b.shape.blockSize lens b.data)
        (lens.map (· + (p.widths.start + p.widths.stop))) r := by
  have hw := Padding.addRegion_writes e.elementGrain_pos hf hfit b.length_eq
  have hlens : (p.planner b.shape.blockSize).outLen = (· + (p.widths.start + p.widths.stop)) := by
    funext len
    unfold Planner.outLen
    rw [Widths.total_eq hfit.widths]
  unfold Padding.padded
  rw [← (p.planner b.shape.blockSize).flatMap_tableFor lens, ← outBlocks_padPlanner hfit, ← hlens]
  exact rewriteNew_eq_ok hfit rfl hw b.length_eq

theorem add_eq_ok : (e.add b lengths p).1 = .ok r ↔ e.Added b lengths p r := by
  refine (launched_eq_ok (fun _ => planAdd_eq_ok) (Q := fun _ => e.Added b lengths p r) ?_).trans ?_
  · rintro _ ⟨⟨hf, hroom, hn, hfit⟩, rfl⟩
    rw [newAdd_eq_ok _ hf hfit, (planAdd_kept ..).2, length_counts]
    exact ⟨fun hbuilt => ⟨hf, hroom, hn, hfit, hbuilt⟩, fun h => h.built⟩
  · refine ⟨?_, ?_⟩
    · intro hr
      rcases hr with ⟨_, -, h⟩
      exact h
    · intro h
      exact ⟨_, ⟨⟨h.fills, h.room, h.nonneg, h.fits⟩, rfl⟩, h⟩

theorem exists_added (hf : p.FillsFit b.shape.blockSize) (hroom : e.HasRoomFor lengths)
    (hn : Nonneg (orWhole b.shape.outer lengths))
    (hfit : (p.planner b.shape.blockSize).Fits (counts (orWhole b.shape.outer lengths))
      b.shape.outer)
    (hmem : GivesBatch e.host α ((p.planner b.shape.blockSize).tableFor
        (counts (orWhole b.shape.outer lengths))).outElements
      (orWhole b.shape.outer lengths).length) :
    ∃ r, e.Added b lengths p r := by
  have hw := Padding.addRegion_writes e.elementGrain_pos hf hfit b.length_eq
  rw [← length_counts] at hmem
  obtain ⟨r, hnew, -⟩ := exists_rewriteNew hfit rfl hw b.length_eq hmem
  have hbuilt := (newAdd_eq_ok e hf hfit).1 hnew
  rw [length_counts] at hbuilt
  exact ⟨r, hf, hroom, hn, hfit, hbuilt⟩

theorem Added.len_le (h : e.Added b lengths p r) :
    ∀ l ∈ (counts (orWhole b.shape.outer lengths)).map (· + (p.widths.start + p.widths.stop)),
      l ≤ maxLength := by
  intro l hl
  have hsum := mem_le_sum hl
  have hgrown := (h.fits.grown rfl).1
  rw [Widths.total_eq h.fits.widths] at hgrown
  rw [sum_map_add, h.fits.total] at hsum
  exact Nat.le_trans hsum hgrown

theorem Added.lengths_eq (h : e.Added b lengths p r) :
    Nonneg r.lengths ∧ counts r.lengths =
      (counts (orWhole b.shape.outer lengths)).map (· + (p.widths.start + p.widths.stop)) := by
  rw [h.built.lengths]
  exact ⟨nonneg_ofCounts h.len_le, counts_ofCounts h.len_le⟩

theorem Added.length_lengths (h : e.Added b lengths p r) :
    r.lengths.length = (orWhole b.shape.outer lengths).length := by
  rw [← length_counts, h.lengths_eq.2, List.length_map, length_counts]

/-- Padding is added to every segment, in order: copies of the start fill, the segment's own
blocks and copies of the end fill. -/
theorem add_pads_segments (h : (e.add b lengths p).1 = .ok r) :
    let ls := orWhole b.shape.outer lengths
    let pad := p.widths.start + p.widths.stop
    Nonneg ls ∧ (counts ls).sum = b.shape.outer ∧
      r.batch.data = (spans (counts ls)).flatMap (fun s =>
        padRun p.startFill b.shape.blockSize p.widths.start ++
          blockRange b.shape.blockSize b.data s.1 s.2 ++
          padRun p.stopFill b.shape.blockSize p.widths.stop) ∧
      r.lengths.map Int32.toInt = ls.map (fun l => l.toInt + (pad : Int)) ∧
      r.batch.shape.dims = (b.shape.outer + ls.length * pad) :: b.shape.block := by
  intro ls pad
  have ha := add_eq_ok.1 h
  refine ⟨ha.nonneg, ha.fits.total, ha.built.data, ?_, ha.built.dims_eq⟩
  rw [ha.built.lengths, map_toInt_ofCounts ha.len_le, List.map_map]
  exact map_counts ha.nonneg (g := fun n => n + pad) fun n => Int.natCast_add n pad

theorem add_pads_two_segments :
    ∃ r, (standard.add threeBlocks (some [1, 2]) ⟨⟨1, 1⟩, some [9, 9], none⟩).1 = .ok r ∧
      r.batch.data = [9, 9, 1, 2, 0, 0, 9, 9, 3, 4, 5, 6, 0, 0] ∧ r.batch.shape.dims = [7, 2] := by
  have h : (standard.add threeBlocks (some [1, 2]) ⟨⟨1, 1⟩, some [9, 9], none⟩).1 = .ok
      ⟨⟨⟨7, [2], by decide, by decide⟩, [9, 9, 1, 2, 0, 0, 9, 9, 3, 4, 5, 6, 0, 0], by decide⟩,
        [3, 4]⟩ := by rfl
  obtain ⟨-, -, hdata, -, hdims⟩ := add_pads_segments h
  exact ⟨_, h, hdata.trans rfl, hdims⟩

end Engine

end Ragged
