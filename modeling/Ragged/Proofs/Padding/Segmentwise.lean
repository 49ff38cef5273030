import Ragged.Proofs.Padding.Add
import Ragged.Proofs.Padding.Remove
import Ragged.Proofs.Segments

/-!
# Padding and stripping, segment by segment

`around` is one segment with its pads and `inner` is one segment without them. A padded or a
stripped batch is its segments so treated and put together, hence laws of the two carry over
to batches: stripping undoes padding, and both come to the same in one step or in two.
-/

namespace Ragged

variable {α : Type}

/-- Padding on the outside of other padding. -/
instance : Add Widths := ⟨fun w v => ⟨w.start + v.start, w.stop + v.stop⟩⟩

theorem Widths.pad_add (w v : Widths) :
    (w + v).start + (w + v).stop = w.start + w.stop + (v.start + v.stop) :=
  Nat.add_add_add_comm ..

namespace Padding

variable {w v : Widths} {size : Nat} {lens : List Nat} {data data' : List α}

/-! ## Stripping -/

/-- A segment without its pads. -/
def inner (w : Widths) (size : Nat) (seg : List α) : List α :=
  (seg.drop (w.start * size)).take (seg.length - (w.start + w.stop) * size)

theorem length_inner {seg : List α} {len : Nat} (h : seg.length = len * size) :
    (inner w size seg).length = (len - (w.start + w.stop)) * size := by
  unfold inner
  rw [List.length_take, List.length_drop, h, Nat.sub_mul, Nat.add_mul]
  omega

theorem strippedSegment_eq_inner {s : Nat × Nat} (h : s.2 * size ≤ data.length) :
    strippedSegment w size data s = inner w size (blockRange size data s.1 s.2) := by
  have hpads : s.2 - s.1 - (w.start + w.stop) ≤ s.2 - s.1 - w.start := by omega
  have hlen : s.2 - s.1 - (w.start + w.stop) = s.2 - w.stop - (s.1 + w.start) := by omega
  unfold strippedSegment inner
  rw [length_blockRange s.1 h]
  unfold blockRange
  rw [List.drop_take, List.drop_drop, List.take_take, ← Nat.add_mul, ← Nat.sub_mul, ← Nat.sub_mul,
    Nat.min_eq_left (Nat.mul_le_mul_right _ hpads), hlen]

theorem stripped_eq_flatten (h : data.length = lens.sum * size) :
    stripped w size lens data = ((segmentBlocks size lens data).map (inner w size)).flatten := by
  unfold stripped segmentBlocks
  rw [List.map_map, ← List.flatMap_def]
  apply List.flatMap_congr
  intro s hs
  apply strippedSegment_eq_inner
  rw [h]
  exact Nat.mul_le_mul_right _ (mem_spans hs).2.1

theorem holdBlocks_inner (h : data.length = lens.sum * size) :
    HoldBlocks size ((segmentBlocks size lens data).map (inner w size))
      (lens.map (· - (w.start + w.stop))) :=
  (holdBlocks_segmentBlocks h).map fun _ _ => length_inner

theorem length_stripped (h : data.length = lens.sum * size) :
    (stripped w size lens data).length = (lens.map (· - (w.start + w.stop))).sum * size := by
  rw [stripped_eq_flatten h]
  exact (holdBlocks_inner h).length_flatten

theorem segmentBlocks_stripped (h : data.length = lens.sum * size) :
    segmentBlocks size (lens.map (· - (w.start + w.stop))) (stripped w size lens data) =
      (segmentBlocks size lens data).map (inner w size) := by
  rw [stripped_eq_flatten h]
  exact (holdBlocks_inner h).segmentBlocks_flatten

/-- Batches that are stripped to the same have the same payloads, each in its place. -/
theorem strippedSegment_congr (h : data.length = lens.sum * size)
    (h' : data'.length = lens.sum * size)
    (hs : stripped w size lens data = stripped w size lens data') :
    ∀ s ∈ spans lens, strippedSegment w size data s = strippedSegment w size data' s := by
  have hsegs := congrArg (segmentBlocks size (lens.map (· - (w.start + w.stop)))) hs
  rw [segmentBlocks_stripped h, segmentBlocks_stripped h', map_segmentBlocks_eq_iff] at hsegs
  intro s hs
  have hin : s.2 * size ≤ lens.sum * size := Nat.mul_le_mul_right _ (mem_spans hs).2.1
  rw [strippedSegment_eq_inner (h ▸ hin), strippedSegment_eq_inner (h' ▸ hin)]
  exact hsegs s hs

theorem inner_inner (seg : List α) :
    inner w size (inner v size seg) = inner (w + v) size seg := by
  have hadd : w + v = ⟨w.start + v.start, w.stop + v.stop⟩ := rfl
  unfold inner
  rw [hadd, List.length_take, List.length_drop, List.drop_take, List.drop_drop, List.take_take]
  simp only [Nat.add_mul]
  congr 2
  · omega
  · omega

/-- Two pads come off one after the other as they come off at once. -/
theorem stripped_stripped (h : data.length = lens.sum * size) :
    stripped w size (lens.map (· - (v.start + v.stop))) (stripped v size lens data) =
      stripped (w + v) size lens data := by
  rw [stripped_eq_flatten (length_stripped h), segmentBlocks_stripped h, stripped_eq_flatten h,
    List.map_map]
  congr
  funext seg
  exact inner_inner seg

/-! ## Padding -/

variable [Element α] {p : Padding α}

/-- A segment with its pads. -/
def around (p : Padding α) (size : Nat) (seg : List α) : List α :=
  padRun p.startFill size p.widths.start ++ seg ++ padRun p.stopFill size p.widths.stop

theorem length_around (hf : p.FillsFit size) {seg : List α} {len : Nat}
    (h : seg.length = len * size) :
    (p.around size seg).length = (len + (p.widths.start + p.widths.stop)) * size := by
  unfold around
  rw [List.length_append, List.length_append, length_padRun hf.start, length_padRun hf.stop, h,
    Nat.add_mul, Nat.add_mul]
  omega

theorem padded_eq_flatten (p : Padding α) (size : Nat) (lens : List Nat) (data : List α) :
    p.padded size lens data = ((segmentBlocks size lens data).map (p.around size)).flatten := by
  unfold padded segmentBlocks
  rw [List.map_map, ← List.flatMap_def]
  rfl

theorem holdBlocks_around (hf : p.FillsFit size) (h : data.length = lens.sum * size) :
    HoldBlocks size ((segmentBlocks size lens data).map (p.around size))
      (lens.map (· + (p.widths.start + p.widths.stop))) :=
  (holdBlocks_segmentBlocks h).map fun _ _ => length_around hf

theorem length_padded (hf : p.FillsFit size) (h : data.length = lens.sum * size) :
    (p.padded size lens data).length =
      (lens.map (· + (p.widths.start + p.widths.stop))).sum * size := by
  rw [padded_eq_flatten]
  exact (holdBlocks_around hf h).length_flatten

theorem segmentBlocks_padded (hf : p.FillsFit size) (h : data.length = lens.sum * size) :
    segmentBlocks size (lens.map (· + (p.widths.start + p.widths.stop))) (p.padded size lens data) =
      (segmentBlocks size lens data).map (p.around size) := by
  rw [padded_eq_flatten]
  exact (holdBlocks_around hf h).segmentBlocks_flatten

theorem inner_around (hf : p.FillsFit size) (seg : List α) :
    inner p.widths size (p.around size seg) = seg := by
  have hstart := length_padRun hf.start p.widths.start
  have hstop := length_padRun hf.stop p.widths.stop
  unfold inner around
  rw [List.append_assoc, List.drop_left' hstart]
  apply List.take_left'
  rw [List.length_append, List.length_append, hstart, hstop, Nat.add_mul]
  omega

/-- Taking pads away undoes putting them on. -/
theorem stripped_padded (hf : p.FillsFit size) (h : data.length = lens.sum * size) :
    stripped p.widths size (lens.map (· + (p.widths.start + p.widths.stop)))
      (p.padded size lens data) = data := by
  have hid : inner p.widths size ∘ p.around size = id := funext (inner_around hf)
  rw [stripped_eq_flatten (length_padded hf h), segmentBlocks_padded hf h, List.map_map, hid,
    List.map_id, flatten_segmentBlocks h]

def withWidths (p : Padding α) (w : Widths) : Padding α := { p with widths := w }

omit [Element α] in
theorem FillsFit.withWidths (h : p.FillsFit size) (w : Widths) :
    (p.withWidths w).FillsFit size := ⟨h.start, h.stop⟩

theorem around_around (p : Padding α) (seg : List α) :
    (p.withWidths v).around size ((p.withWidths w).around size seg) =
      (p.withWidths (w + v)).around size seg := by
  have hadd : w + v = ⟨v.start + w.start, w.stop + v.stop⟩ := by
    rw [Nat.add_comm v.start]
    rfl
  unfold around withWidths
  rw [hadd]
  simp only [padRun_add, List.append_assoc]

theorem padded_padded (hf : p.FillsFit size) (h : data.length = lens.sum * size) :
    (p.withWidths v).padded size (lens.map (· + (w.start + w.stop)))
        ((p.withWidths w).padded size lens data) =
      (p.withWidths (w + v)).padded size lens data := by
  have hsegs : segmentBlocks size (lens.map (· + (w.start + w.stop)))
      ((p.withWidths w).padded size lens data) = _ := segmentBlocks_padded (hf.withWidths w) h
  rw [padded_eq_flatten, hsegs, padded_eq_flatten, List.map_map]
  congr
  funext seg
  exact p.around_around seg

/-! ## Pads that hold their fills -/

/-- The pads of consecutive segments hold the fills. -/
structure Filled (p : Padding α) (size : Nat) (lens : List Nat) (data : List α) : Prop where
  start : ∀ s ∈ spans lens,
    blockRange size data s.1 (s.1 + p.widths.start) = padRun p.startFill size p.widths.start
  stop : ∀ s ∈ spans lens,
    blockRange size data (s.2 - p.widths.stop) s.2 = padRun p.stopFill size p.widths.stop

theorem blockRange_around_start (hf : p.FillsFit size) (seg : List α) :
    blockRange size (p.around size seg) 0 p.widths.start =
      padRun p.startFill size p.widths.start := by
  rw [blockRange_zero, around, List.append_assoc]
  exact List.take_left' (length_padRun hf.start p.widths.start)

theorem blockRange_around_stop (hf : p.FillsFit size) {seg : List α} {len : Nat}
    (h : (p.around size seg).length = len * size) (hlen : p.widths.stop ≤ len) :
    blockRange size (p.around size seg) (len - p.widths.stop) len =
      padRun p.stopFill size p.widths.stop := by
  have hstop := length_padRun hf.stop p.widths.stop
  unfold around at h ⊢
  rw [List.length_append, hstop] at h
  have hbefore : (padRun p.startFill size p.widths.start ++ seg).length =
      (len - p.widths.stop) * size := by
    rw [Nat.sub_mul]
    omega
  have hafter : (padRun p.stopFill size p.widths.stop).length =
      (len - (len - p.widths.stop)) * size := by
    rw [hstop, Nat.sub_sub_self hlen]
  have hrun : blockRange size (_ ++ (_ ++ [])) (len - p.widths.stop) len = _ :=
    blockRange_middle hbefore hafter
  rwa [List.append_nil] at hrun

theorem exists_around (hf : p.FillsFit size) (h : data.length = lens.sum * size) {s : Nat × Nat}
    (hs : s ∈ spans (lens.map (· + (p.widths.start + p.widths.stop)))) :
    s.1 + (p.widths.start + p.widths.stop) ≤ s.2 ∧
      ∃ seg, blockRange size (p.padded size lens data) s.1 s.2 = p.around size seg ∧
        (p.around size seg).length = (s.2 - s.1) * size := by
  obtain ⟨hle, hsum, hlen⟩ := mem_spans hs
  obtain ⟨len, -, hlen⟩ := List.mem_map.1 hlen
  have hmem : blockRange size (p.padded size lens data) s.1 s.2 ∈ segmentBlocks size _ _ :=
    List.mem_map_of_mem hs
  rw [segmentBlocks_padded hf h] at hmem
  obtain ⟨seg, -, hseg⟩ := List.mem_map.1 hmem
  refine ⟨by omega, seg, hseg.symm, ?_⟩
  rw [hseg, length_blockRange]
  rw [length_padded hf h]
  exact Nat.mul_le_mul_right _ hsum

theorem padded_filled (hf : p.FillsFit size) (h : data.length = lens.sum * size) :
    p.Filled size (lens.map (· + (p.widths.start + p.widths.stop))) (p.padded size lens data) := by
  refine ⟨fun s hs => ?_, fun s hs => ?_⟩
  · obtain ⟨hpads, seg, hseg, -⟩ := exists_around hf h hs
    rw [← blockRange_around_start hf seg, ← hseg, blockRange_blockRange _ (by omega), Nat.add_zero]
  · obtain ⟨hpads, seg, hseg, hlen⟩ := exists_around hf h hs
    rw [← blockRange_around_stop hf hlen (by omega), ← hseg, blockRange_blockRange _ (by omega)]
    congr 1
    · omega
    · omega

/-- A batch is its payloads and its pads. -/
theorem Filled.eq_of_stripped (hf : p.Filled size lens data) (hf' : p.Filled size lens data')
    (h : data.length = lens.sum * size) (h' : data'.length = lens.sum * size)
    (hpads : ∀ len ∈ lens, p.widths.start + p.widths.stop ≤ len)
    (hs : stripped p.widths size lens data = stripped p.widths size lens data') :
    data = data' := by
  have hpayload := strippedSegment_congr h h' hs
  unfold strippedSegment at hpayload
  rw [← flatten_segmentBlocks h, ← flatten_segmentBlocks h']
  congr 1
  apply List.map_congr_left
  intro s hs
  obtain ⟨hle, -, hlen⟩ := mem_spans hs
  have hpad := hpads _ hlen
  have hcut : ∀ xs : List α, blockRange size xs s.1 s.2 =
      blockRange size xs s.1 (s.1 + p.widths.start) ++
        (blockRange size xs (s.1 + p.widths.start) (s.2 - p.widths.stop) ++
          blockRange size xs (s.2 - p.widths.stop) s.2) := by
    intro xs
    rw [blockRange_append xs (by omega) (Nat.sub_le ..), blockRange_append xs (by omega) (by omega)]
  rw [hcut, hcut, hf.start s hs, hf'.start s hs, hpayload s hs, hf.stop s hs, hf'.stop s hs]

end Padding

end Ragged
