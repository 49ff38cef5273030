import Mathlib.Algebra.BigOperators.Intervals
import Ragged.Proofs.Integral
import Ragged.Proofs.Padding.Sums

/-!
# What gathering padding sums up

`Totals` is the invariant of sums in progress: what every column holds, and over how many
blocks. A row keeps it, and so do a segment, a task and the join of two tasks; blocks are
counted by a length, so no sum on the way leaves the range of the accumulators. Narrowing
comes last and keeps the low bits.
-/

namespace Ragged

open Integral Lengths

/-- Column `c` of the blocks `first` to `last`, without block `last`, summed up. -/
def columnSum (size : Nat) (values : List Int) (c first last : Nat) : Int :=
  ∑ r ∈ Finset.Ico first last, values.getD (r * size + c) 0

theorem PadSums.addRow_eq {β : Type} [Element β] (sums : List (Element.Acc β)) (row : List β) :
    addRow sums row = List.zipWith Element.addAcc sums (row.map Element.widen) := by
  unfold addRow
  rw [List.zipWith_map_right]

namespace Reading

variable {α : Type} [Element α] [Integral α] {β : Type} [Element β] (R : Reading α β)

def values (data : List β) : List Int := data.map fun b => value (R.element b)

/-- The sums hold `x` column by column, which is small enough for sums of `n` blocks. -/
structure Totals (n size : Nat) (x : Nat → Int) (sums : List (Element.Acc β)) : Prop where
  length : sums.length = size
  holds : ∀ c (h : c < sums.length), R.holds sums[c] (x c)
  bounded : ∀ c, c < size → Bounded α n (x c)

variable {R}

theorem Totals.congr {n size : Nat} {x y : Nat → Int} {sums : List (Element.Acc β)}
    (h : R.Totals n size x sums) (hxy : ∀ c, c < size → x c = y c) : R.Totals n size y sums := by
  refine ⟨h.length, fun c hc => ?_, fun c hc => ?_⟩
  · rw [← hxy c (h.length ▸ hc)]
    exact h.holds c hc
  · rw [← hxy c hc]
    exact h.bounded c hc

theorem totals_zero (size : Nat) :
    R.Totals 0 size (fun _ => 0) (List.replicate size Element.zeroAcc) := by
  refine ⟨List.length_replicate, fun c hc => ?_, fun c _ => bounded_zero⟩
  rw [List.getElem_replicate]
  exact R.zero

theorem totals_row {size : Nat} {row : List β} (h : row.length = size) :
    R.Totals 1 size (fun c => (R.values row).getD c 0) (row.map Element.widen) := by
  have hget : ∀ c (hc : c < row.length), (R.values row).getD c 0 = value (R.element row[c]) := by
    intro c hc
    unfold values
    rw [List.getD_eq_getElem?_getD, List.getElem?_map, List.getElem?_eq_getElem hc]
    rfl
  refine ⟨by rw [List.length_map, h], fun c hc => ?_, fun c hc => ?_⟩
  · rw [List.length_map] at hc
    rw [List.getElem_map, hget c hc]
    exact R.widen _
  · rw [hget c (h ▸ hc)]
    exact bounded_value _

theorem Totals.add {m n size : Nat} {x y : Nat → Int} {s t : List (Element.Acc β)}
    (hs : R.Totals m size x s) (ht : R.Totals n size y t) (hmax : m + n ≤ maxLength) :
    R.Totals (m + n) size (fun c => x c + y c) (List.zipWith Element.addAcc s t) := by
  have hlen : (List.zipWith Element.addAcc s t).length = size := by
    rw [List.length_zipWith, hs.length, ht.length, Nat.min_self]
  have hbounded : ∀ c, c < size → Bounded α (m + n) (x c + y c) := fun c hc =>
    (hs.bounded c hc).add (ht.bounded c hc)
  refine ⟨hlen, fun c hc => ?_, hbounded⟩
  rw [List.getElem_zipWith]
  exact R.add (hs.holds c _) (ht.holds c _) ((hbounded c (hlen ▸ hc)).inRange hmax)

theorem Totals.unique {m n size : Nat} {x : Nat → Int} {s t : List (Element.Acc β)}
    (hs : R.Totals m size x s) (ht : R.Totals n size x t) : s = t := by
  apply List.ext_getElem (hs.length.trans ht.length.symm)
  intro c hc hc'
  exact R.unique (hs.holds c hc) (ht.holds c hc')

theorem getD_blockRange {size first c : Nat} (data : List β) (hc : c < size) :
    (R.values (blockRange size data first (first + 1))).getD c 0 =
      (R.values data).getD (first * size + c) 0 := by
  rw [values, values, List.getD_eq_getElem?_getD, List.getD_eq_getElem?_getD, List.getElem?_map,
    List.getElem?_map, blockRange, Nat.add_sub_cancel_left, Nat.one_mul, List.getElem?_take,
    if_pos hc, List.getElem?_drop]

theorem Totals.foldl_addRow {n size k first : Nat} {x : Nat → Int} {sums : List (Element.Acc β)}
    (h : R.Totals n size x sums) {data : List β} (hin : (first + k) * size ≤ data.length)
    (hmax : n + k ≤ maxLength) :
    R.Totals (n + k) size (fun c => x c + columnSum size (R.values data) c first (first + k))
      ((chunks size (blockRange size data first (first + k))).foldl PadSums.addRow sums) := by
  rcases Nat.eq_zero_or_pos size with rfl | hs
  · have hnone : chunks 0 (blockRange 0 data first (first + k)) = [] := by
      unfold chunks ceilDiv
      rw [Nat.div_zero, takeChunks]
    rw [hnone]
    exact ⟨h.length, fun c hc => absurd (h.length ▸ hc) (Nat.not_lt_zero c),
      fun c hc => absurd hc (Nat.not_lt_zero c)⟩
  · induction k generalizing n first x sums with
    | zero =>
      rw [Nat.add_zero, Nat.add_zero, blockRange_self, chunks_nil hs]
      apply h.congr
      intro c _
      unfold columnSum
      rw [Finset.Ico_self, Finset.sum_empty, Int.add_zero]
    | succ k ih =>
      have hin' : (first + 1 + k) * size ≤ data.length := by
        rwa [Nat.add_assoc, Nat.add_comm 1 k]
      have hfirst : (first + 1) * size ≤ data.length :=
        Nat.le_trans (Nat.mul_le_mul_right _ (by omega)) hin'
      have hrow := length_blockRange first hfirst
      rw [Nat.add_sub_cancel_left, Nat.one_mul] at hrow
      have hstep := h.add (totals_row hrow) (by omega)
      have hrest := ih hstep hin' (by omega)
      rw [chunks_blockRange hs hin, List.foldl_cons, PadSums.addRow_eq, ← Nat.add_assoc n,
        Nat.add_right_comm n k]
      refine hrest.congr fun c hc => ?_
      rw [getD_blockRange data hc, columnSum, columnSum, Int.add_assoc, ← Nat.add_assoc first,
        Nat.add_right_comm first k,
        Finset.sum_eq_sum_Ico_succ_bot (show first < first + 1 + k by omega)]

/-! ## Pads -/

section Pads

variable {t : Table} {input : List β}

/-- Column `c` of the start pads. -/
def startTotal (t : Table) (values : List Int) (segs : List Segment) (c : Nat) : Int :=
  (segs.map fun seg =>
    columnSum t.blockSize values c seg.inStart (seg.inStart + t.widths.start)).sum

def stopTotal (t : Table) (values : List Int) (segs : List Segment) (c : Nat) : Int :=
  (segs.map fun seg =>
    columnSum t.blockSize values c (seg.inStart + seg.len - t.widths.stop)
      (seg.inStart + seg.len)).sum

variable (R) in
/-- The sums hold the padding of the segments. -/
structure PadTotals (t : Table) (input : List β) (segs : List Segment) (sums : PadSums β) :
    Prop where
  start : R.Totals (segs.length * t.widths.start) t.blockSize
    (startTotal t (R.values input) segs) sums.start
  stop : R.Totals (segs.length * t.widths.stop) t.blockSize
    (stopTotal t (R.values input) segs) sums.stop

theorem startTotal_append (values : List Int) (segs segs' : List Segment) (c : Nat) :
    startTotal t values (segs ++ segs') c =
      startTotal t values segs c + startTotal t values segs' c := by
  unfold startTotal
  rw [List.map_append, List.sum_append, ← startTotal, ← startTotal]

theorem stopTotal_append (values : List Int) (segs segs' : List Segment) (c : Nat) :
    stopTotal t values (segs ++ segs') c =
      stopTotal t values segs c + stopTotal t values segs' c := by
  unfold stopTotal
  rw [List.map_append, List.sum_append, ← stopTotal, ← stopTotal]

theorem padTotals_zero : R.PadTotals t input [] (PadSums.zero t.blockSize) := by
  refine ⟨?_, ?_⟩
  · rw [List.length_nil, Nat.zero_mul]
    exact totals_zero _
  · rw [List.length_nil, Nat.zero_mul]
    exact totals_zero _

theorem PadTotals.sumSegment {segs : List Segment} {sums : PadSums β}
    (h : R.PadTotals t input segs sums) {seg : Segment} (hs : PadSums.HasPads t input seg)
    (hmax : (segs.length + 1) * (t.widths.start + t.widths.stop) ≤ maxLength) :
    R.PadTotals t input (segs ++ [seg]) (PadSums.sumSegment t input sums seg) := by
  obtain ⟨hpads, hinside⟩ := hs
  rw [Nat.mul_add, Nat.succ_mul, Nat.succ_mul] at hmax
  refine ⟨?_, ?_⟩
  · have hin : (seg.inStart + t.widths.start) * t.blockSize ≤ input.length :=
      Nat.le_trans (Nat.mul_le_mul_right _ (by omega)) hinside
    have hstep := h.start.foldl_addRow hin (by omega)
    rw [List.length_append, List.length_singleton, Nat.succ_mul]
    apply hstep.congr
    intro c _
    rw [startTotal_append, startTotal, startTotal, List.map_singleton, List.sum_singleton]
  · have hlast : seg.inStart + seg.len - t.widths.stop + t.widths.stop = seg.inStart + seg.len := by
      omega
    have hstep := h.stop.foldl_addRow (by rwa [hlast]) (by omega)
    rw [List.length_append, List.length_singleton, Nat.succ_mul]
    rw [hlast] at hstep
    apply hstep.congr
    intro c _
    rw [stopTotal_append, stopTotal, stopTotal, List.map_singleton, List.sum_singleton]

theorem PadTotals.foldl_sumSegment {before segs : List Segment} {sums : PadSums β}
    (h : R.PadTotals t input before sums) (hs : ∀ seg ∈ segs, PadSums.HasPads t input seg)
    (hmax : (before.length + segs.length) * (t.widths.start + t.widths.stop) ≤ maxLength) :
    R.PadTotals t input (before ++ segs) (segs.foldl (PadSums.sumSegment t input) sums) := by
  induction segs generalizing before sums with
  | nil => rwa [List.append_nil]
  | cons seg segs ih =>
    rw [List.length_cons] at hmax
    have hone : (before.length + 1) * (t.widths.start + t.widths.stop) ≤ maxLength :=
      Nat.le_trans (Nat.mul_le_mul_right _ (by omega)) hmax
    have hstep := h.sumSegment (hs seg List.mem_cons_self) hone
    rw [List.append_cons]
    refine ih hstep (fun s hm => hs s (List.mem_cons_of_mem seg hm)) ?_
    rwa [List.length_append, List.length_singleton, Nat.add_assoc, Nat.add_comm 1]

theorem PadTotals.add {segs segs' : List Segment} {s s' : PadSums β}
    (h : R.PadTotals t input segs s) (h' : R.PadTotals t input segs' s')
    (hmax : (segs.length + segs'.length) * (t.widths.start + t.widths.stop) ≤ maxLength) :
    R.PadTotals t input (segs ++ segs') (s.add s') := by
  rw [Nat.mul_add, Nat.add_mul, Nat.add_mul] at hmax
  refine ⟨?_, ?_⟩
  · rw [List.length_append, Nat.add_mul]
    exact (h.start.add h'.start (by omega)).congr fun c _ => (startTotal_append ..).symm
  · rw [List.length_append, Nat.add_mul]
    exact (h.stop.add h'.stop (by omega)).congr fun c _ => (stopTotal_append ..).symm

/-- However the segments are cut, the sums are exact and none on the way leaves the range. -/
theorem sumCut_totals {cut : Cut} (hs : ∀ seg ∈ cut.segments, PadSums.HasPads t input seg)
    (hmax : cut.segments.length * (t.widths.start + t.widths.stop) ≤ maxLength) :
    R.PadTotals t input cut.segments (PadSums.sumCut t input cut) := by
  induction cut with
  | task segs =>
    exact padTotals_zero.foldl_sumSegment hs (by rwa [List.length_nil, Nat.zero_add])
  | join left right ihl ihr =>
    unfold Cut.segments at hmax
    rw [List.length_append] at hmax
    have hleft := ihl (fun seg hm => hs seg (List.mem_append_left _ hm))
      (Nat.le_trans (Nat.mul_le_mul_right _ (Nat.le_add_right ..)) hmax)
    have hright := ihr (fun seg hm => hs seg (List.mem_append_right _ hm))
      (Nat.le_trans (Nat.mul_le_mul_right _ (Nat.le_add_left ..)) hmax)
    exact hleft.add hright hmax

theorem PadTotals.merged {segs : List Segment} {sums : PadSums β}
    (h : R.PadTotals t input segs sums)
    (hmax : segs.length * (t.widths.start + t.widths.stop) ≤ maxLength) :
    R.Totals (segs.length * (t.widths.start + t.widths.stop)) t.blockSize
      (fun c => startTotal t (R.values input) segs c + stopTotal t (R.values input) segs c)
      (List.zipWith Element.addAcc sums.start sums.stop) := by
  rw [Nat.mul_add] at hmax ⊢
  exact h.start.add h.stop hmax

theorem PadTotals.unique {segs : List Segment} {s s' : PadSums β}
    (h : R.PadTotals t input segs s) (h' : R.PadTotals t input segs s') : s = s' := by
  obtain ⟨start, stop⟩ := s
  obtain ⟨start', stop'⟩ := s'
  obtain rfl := h.start.unique h'.start
  obtain rfl := h.stop.unique h'.stop
  rfl

end Pads

end Reading

/-! ## Columns of a batch -/

def startSum (w : Widths) (size : Nat) (lens : List Nat) (values : List Int) (c : Nat) : Int :=
  ((spans lens).map fun s => columnSum size values c s.1 (s.1 + w.start)).sum

def stopSum (w : Widths) (size : Nat) (lens : List Nat) (values : List Int) (c : Nat) : Int :=
  ((spans lens).map fun s => columnSum size values c (s.2 - w.stop) s.2).sum

theorem startTotal_tableFor (w : Widths) (size : Nat) (lens : List Nat) (values : List Int)
    (c : Nat) :
    Reading.startTotal ((w.planner size).tableFor lens) values
      ((w.planner size).tableFor lens).segments c = startSum w size lens values c := by
  unfold startSum
  rw [← (w.planner size).map_span_tableFor lens, List.map_map]
  rfl

theorem stopTotal_tableFor (w : Widths) (size : Nat) (lens : List Nat) (values : List Int)
    (c : Nat) :
    Reading.stopTotal ((w.planner size).tableFor lens) values
      ((w.planner size).tableFor lens).segments c = stopSum w size lens values c := by
  unfold stopSum
  rw [← (w.planner size).map_span_tableFor lens, List.map_map]
  rfl

variable {α : Type} [Element α] [Integral α]

/-- The columns hold `x`, as far as their low bits go. -/
def Congruent (size : Nat) (x : Nat → Int) (sums : List α) : Prop :=
  sums.length = size ∧
    ∀ c (h : c < sums.length), value sums[c] ≡ x c [ZMOD 2 ^ (8 * Element.size α)]

/-- Buffers of the given form hold `x` for the start pads and `y` for the end pads. -/
def Gathered.Holds (size : Nat) (x y : Nat → Int) : GatherMode → Gathered α → Prop
  | .separate, .separate start stop => Congruent size x start ∧ Congruent size y stop
  | .merged, .merged sums => Congruent size (fun c => x c + y c) sums
  | _, _ => False

/-- No checked sum was refused, and neither is adding the end pads to the start pads. -/
structure PadSums.InRange (sums : PadSums (Checked α)) : Prop where
  start : ∀ s : Option Int, s ∈ sums.start → s.isSome
  stop : ∀ s : Option Int, s ∈ sums.stop → s.isSome
  merged : ∀ s : Option Int, s ∈ List.zipWith Element.addAcc sums.start sums.stop → s.isSome

theorem Reading.Totals.congruent {n size : Nat} {x : Nat → Int} {sums : List (Element.Acc α)}
    (h : (Reading.exact α).Totals n size x sums) : Congruent size x (sums.map Element.narrow) := by
  refine ⟨by rw [List.length_map, h.length], fun c hc => ?_⟩
  rw [List.length_map] at hc
  have hx : accValue sums[c] = x c := h.holds c hc
  rw [List.getElem_map, ← hx]
  exact value_narrow _

theorem Reading.Totals.isSome {n size : Nat} {x : Nat → Int}
    {sums : List (Element.Acc (Checked α))} (h : (Reading.checked α).Totals n size x sums) :
    ∀ s : Option Int, s ∈ sums → s.isSome := by
  intro s hs
  obtain ⟨c, hc, rfl⟩ := List.getElem_of_mem hs
  have hx : (sums[c] : Option Int) = some (x c) := h.holds c hc
  rw [hx]
  rfl

theorem Reading.PadTotals.holds {t : Table} {input : List α} {segs : List Segment}
    {sums : PadSums α} (h : (Reading.exact α).PadTotals t input segs sums)
    (hmax : segs.length * (t.widths.start + t.widths.stop) ≤ maxLength) (mode : GatherMode) :
    Gathered.Holds t.blockSize (startTotal t (input.map value) segs)
      (stopTotal t (input.map value) segs) mode
      (sums.narrow (Gathered.zeros α t.blockSize mode)) := by
  cases mode with
  | separate => exact ⟨h.start.congruent, h.stop.congruent⟩
  | merged =>
    have hmerged := (h.merged hmax).congruent
    rw [List.map_zipWith] at hmerged
    exact hmerged

theorem Reading.PadTotals.inRange {t : Table} {input : List (Checked α)} {segs : List Segment}
    {sums : PadSums (Checked α)} (h : (Reading.checked α).PadTotals t input segs sums)
    (hmax : segs.length * (t.widths.start + t.widths.stop) ≤ maxLength) : sums.InRange :=
  ⟨h.start.isSome, h.stop.isSome, (h.merged hmax).isSome⟩

namespace Engine

variable {e : Engine} {b : Batch α} {lengths : Option (List Int32)} {w : Widths}
  {mode : GatherMode} {lens : List Nat} {g : Gathered α}

theorem Summed.totals (h : e.Summed b lengths w mode lens g) {β : Type} [Element β]
    {R : Reading α β} {input : List β} (hin : input.length = b.data.length) {cut : Cut}
    (hcut : cut.segments = (b.padTable w lens).segments) :
    R.PadTotals (b.padTable w lens) input (b.padTable w lens).segments
      (PadSums.sumCut (b.padTable w lens) input cut) := by
  have hpads : ∀ seg ∈ (b.padTable w lens).segments,
      PadSums.HasPads (b.padTable w lens) input seg := by
    intro seg hs
    exact PadSums.hasPads_of_fits h.fits (hin.trans b.length_eq) hs
  have hmax := h.padBlocks_le
  rw [← hcut] at hpads hmax ⊢
  exact Reading.sumCut_totals hpads hmax

/-- The buffers do not show how the segments are cut. -/
theorem Summed.gathered (h : e.Summed b lengths w mode lens g) {cut : Cut}
    (hcut : cut.segments = (b.padTable w lens).segments) :
    (Padding.launchGather (b.padTable w lens) cut b.data).on
      (Gathered.zeros α b.shape.blockSize mode) = (.ok (), g) := by
  have hpads : ∀ seg ∈ cut.segments, PadSums.HasPads (b.padTable w lens) b.data seg := by
    rw [hcut]
    intro seg hs
    exact PadSums.hasPads_of_fits h.fits b.length_eq hs
  have hsame := (h.totals (R := .exact α) rfl hcut).unique
    (h.totals rfl (e.segments_cut _))
  refine (Padding.launchGather_on (inElements_padTable h.fits) (Gathered.check_zeros ..)
    hpads).trans ?_
  rw [h.result, sums, hsame]

theorem Summed.holds (h : e.Summed b lengths w mode lens g) :
    Gathered.Holds b.shape.blockSize (startSum w b.shape.blockSize lens (b.data.map value))
      (stopSum w b.shape.blockSize lens (b.data.map value)) mode g := by
  have htotals := h.totals (R := .exact α) rfl (e.segments_cut _)
  have hholds := htotals.holds h.padBlocks_le mode
  rw [h.result, sums]
  have hstart := funext (startTotal_tableFor w b.shape.blockSize lens (b.data.map value))
  have hstop := funext (stopTotal_tableFor w b.shape.blockSize lens (b.data.map value))
  rwa [← hstart, ← hstop]

/-- Summed up in checked accumulators, no cut has a sum refused. -/
theorem Summed.inRange (h : e.Summed b lengths w mode lens g) {cut : Cut}
    (hcut : cut.segments = (b.padTable w lens).segments) :
    ∃ sums : PadSums (Checked α),
      PadSums.ofCut (b.padTable w lens) (b.data.map Checked.mk) cut = .ok sums ∧
        sums.InRange := by
  have hlen : (b.data.map Checked.mk).length = b.data.length := List.length_map _
  have hpads : ∀ seg ∈ cut.segments,
      PadSums.HasPads (b.padTable w lens) (b.data.map Checked.mk) seg := by
    rw [hcut]
    intro seg hs
    exact PadSums.hasPads_of_fits h.fits (hlen.trans b.length_eq) hs
  exact ⟨_, PadSums.ofCut_eq hpads, (h.totals hlen hcut).inRange h.padBlocks_le⟩

/-- The sums gathered are those of the columns of the padding, as far as an element can hold
them, whatever way the segments are cut and joined, and no sum on the way leaves the range
of its accumulator. -/
theorem gather_sums_columns (h : (e.gather b lengths w mode).1 = .ok g) :
    ∃ lens t, PaddedBasis b.shape.outer (w.start + w.stop) lengths lens ∧
      (∀ len ∈ lens, w.start + w.stop ≤ len) ∧
      Gathered.Holds b.shape.blockSize (startSum w b.shape.blockSize lens (b.data.map value))
        (stopSum w b.shape.blockSize lens (b.data.map value)) mode g ∧
      (e.planGather b.shape lengths w).1 = .ok t ∧
      ∀ cut : Cut, cut.segments = t.segments →
        (Padding.launchGather t cut b.data).on (Gathered.zeros α b.shape.blockSize mode) =
          (.ok (), g) ∧
        ∃ sums : PadSums (Checked α),
          PadSums.ofCut t (b.data.map Checked.mk) cut = .ok sums ∧ sums.InRange := by
  obtain ⟨lens, hg⟩ := gather_eq_ok.1 h
  have htotal : w.total = w.start + w.stop := Widths.total_eq hg.fits.widths
  have hplan : (e.planGather b.shape lengths w).1 = .ok (b.padTable w lens) :=
    planStrip_eq_ok.2 ⟨lens, ⟨hg.basis, hg.room, hg.fits⟩, rfl⟩
  exact ⟨lens, _, hg.basis, htotal ▸ hg.fits.holds rfl, hg.holds, hplan,
    fun cut hcut => ⟨hg.gathered hcut, hg.inRange hcut⟩⟩

theorem gather_sums_four_bytes :
    ∃ b : Batch UInt8, b.data = [200, 1, 100, 2] ∧
      (standard.gather b (some [2, 2]) ⟨1, 0⟩ .separate).1 = .ok (.separate [44] [0]) ∧
      startSum ⟨1, 0⟩ 1 [2, 2] [200, 1, 100, 2] 0 = 300 ∧
      Gathered.Holds 1 (startSum ⟨1, 0⟩ 1 [2, 2] [200, 1, 100, 2])
        (stopSum ⟨1, 0⟩ 1 [2, 2] [200, 1, 100, 2]) .separate
        (.separate [44] [0] : Gathered UInt8) := by
  have h : (standard.gather (⟨⟨4, [1], by decide, by decide⟩, [200, 1, 100, 2], by decide⟩ :
      Batch UInt8) (some [2, 2]) ⟨1, 0⟩ .separate).1 = .ok (.separate [44] [0]) := by rfl
  obtain ⟨lens, -, hbasis, -, hholds, -⟩ := gather_sums_columns h
  obtain rfl := hbasis.unique (.padded (Lengths.check_eq_ok.1 rfl) (by decide))
  exact ⟨_, rfl, h, by decide, hholds⟩

end Engine

end Ragged
