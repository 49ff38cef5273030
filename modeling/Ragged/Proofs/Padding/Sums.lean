import Ragged.Padding.Gather
import Ragged.Proofs.Engine

/-!
# When gathering padding succeeds

Both pads of every segment of a plan lie in the input, so summing them up never fails: the
sums of a cut are `sumCut`. `Summed` is when a call succeeds and with what.
-/

namespace Ragged

open Lengths

variable {α : Type} [Element α]

/-- The table for segments of `lens` blocks with padding of widths `w`. -/
abbrev Batch.padTable {β : Type} (b : Batch β) (w : Widths) (lens : List Nat) : Table :=
  (w.planner b.shape.blockSize).tableFor lens

namespace PadSums

def sumSegment (t : Table) (input : List α) (sums : PadSums α) (seg : Segment) : PadSums α :=
  ⟨(chunks t.blockSize (blockRange t.blockSize input seg.inStart
      (seg.inStart + t.widths.start))).foldl addRow sums.start,
    (chunks t.blockSize (blockRange t.blockSize input (seg.inStart + seg.len - t.widths.stop)
      (seg.inStart + seg.len))).foldl addRow sums.stop⟩

/-- The sums of the segments that a cut holds. -/
def sumCut (t : Table) (input : List α) : Cut → PadSums α
  | .task segs => segs.foldl (sumSegment t input) (zero t.blockSize)
  | .join left right => (sumCut t input left).add (sumCut t input right)

/-- The segment lies in the input and has room for its padding. -/
structure HasPads (t : Table) (input : List α) (seg : Segment) : Prop where
  pads : t.widths.start + t.widths.stop ≤ seg.len
  inside : (seg.inStart + seg.len) * t.blockSize ≤ input.length

variable {t : Table} {input : List α}

omit [Element α] in
theorem rows_eq {size first count : Nat} (h : (first + count) * size ≤ input.length) :
    rows input size first count =
      .ok (chunks size (blockRange size input first (first + count))) := by
  unfold rows
  rw [slice_eq_blockRange h]
  rfl

theorem addSegment_eq {seg : Segment} (h : HasPads t input seg) (sums : PadSums α) :
    addSegment t input sums seg = .ok (sumSegment t input sums seg) := by
  obtain ⟨hpads, hinside⟩ := h
  have hstart : (seg.inStart + t.widths.start) * t.blockSize ≤ input.length :=
    Nat.le_trans (Nat.mul_le_mul_right _ (by omega)) hinside
  have hstop : seg.inStart + seg.len - t.widths.stop + t.widths.stop = seg.inStart + seg.len := by
    omega
  unfold addSegment stopRows
  rw [rows_eq hstart, if_pos (by omega), rows_eq (by rwa [hstop]), hstop]
  rfl

/-- However the segments are cut, all sums come out. -/
theorem ofCut_eq {cut : Cut} (h : ∀ seg ∈ cut.segments, HasPads t input seg) :
    ofCut t input cut = .ok (sumCut t input cut) := by
  induction cut with
  | task segs => exact foldlM_eq_ok_foldl (fun seg hs => addSegment_eq (h seg hs)) _
  | join left right ihl ihr =>
    have hleft := ihl fun seg hs => h seg (List.mem_append_left _ hs)
    have hright := ihr fun seg hs => h seg (List.mem_append_right _ hs)
    unfold ofCut
    rw [hleft, hright]
    rfl

omit [Element α] in
theorem hasPads_of_fits {w : Widths} {size outer : Nat} {lens : List Nat}
    (hfit : (w.planner size).Fits lens outer) (hin : input.length = outer * size) {seg : Segment}
    (hs : seg ∈ ((w.planner size).tableFor lens).segments) :
    HasPads ((w.planner size).tableFor lens) input seg :=
  ⟨hfit.pads rfl hs, hin ▸ hfit.inside hs⟩

end PadSums

namespace Gathered

def zeros (α : Type) [Element α] (size : Nat) : GatherMode → Gathered α
  | .separate =>
    .separate (List.replicate size Element.zero) (List.replicate size Element.zero)
  | .merged => .merged (List.replicate size Element.zero)

/-- Memory for new sums can be had. -/
def Given (h : Host) (α : Type) [Element α] (size : Nat) : GatherMode → Prop
  | .separate =>
    h.Gives .startSums (size * Element.size α) ∧ h.Gives .stopSums (size * Element.size α)
  | .merged => h.Gives .mergedSums (size * Element.size α)

theorem zeroed_eq_ok {h : Host} {size : Nat} {mode : GatherMode} {g : Gathered α} :
    zeroed h size mode = .ok g ↔ Given h α size mode ∧ g = zeros α size mode := by
  cases mode with
  | separate =>
    simp only [zeroed, bind_eq_ok, Ragged.zeroed_eq_ok]
    refine ⟨?_, ?_⟩
    · intro hr
      rcases hr with ⟨_, ⟨hstart, rfl⟩, _, ⟨hstop, rfl⟩, hg⟩
      cases hg
      exact ⟨⟨hstart, hstop⟩, rfl⟩
    · intro hr
      rcases hr with ⟨⟨hstart, hstop⟩, rfl⟩
      exact ⟨_, ⟨hstart, rfl⟩, _, ⟨hstop, rfl⟩, rfl⟩
  | merged =>
    simp only [zeroed, bind_eq_ok, Ragged.zeroed_eq_ok]
    refine ⟨?_, ?_⟩
    · intro hr
      rcases hr with ⟨_, ⟨hmem, rfl⟩, hg⟩
      cases hg
      exact ⟨hmem, rfl⟩
    · intro hr
      rcases hr with ⟨hmem, rfl⟩
      exact ⟨_, ⟨hmem, rfl⟩, rfl⟩

theorem check_zeros (size : Nat) (mode : GatherMode) : (zeros α size mode).check size = .ok () := by
  cases mode <;> simp [zeros, check, checkSize, bind, Except.bind]

end Gathered

theorem Padding.launchGather_on {t : Table} {input : List α} (hin : input.length = t.inElements)
    {target : Gathered α} (htarget : target.check t.blockSize = .ok ()) {cut : Cut}
    (hpads : ∀ seg ∈ cut.segments, PadSums.HasPads t input seg) :
    (launchGather t cut input).on target =
      (.ok (), (PadSums.sumCut t input cut).narrow target) := by
  have hcheck : Buffers.checkInput t input.length = .ok () := if_pos hin
  unfold launchGather
  simp only [Launch.on_bind, Launch.on_liftExcept, Launch.on_get, Launch.on_modify, hcheck,
    htarget, PadSums.ofCut_eq hpads]

namespace Engine

variable {e : Engine} {b : Batch α} {lengths : Option (List Int32)} {w : Widths}
  {mode : GatherMode} {lens : List Nat} {g : Gathered α}

/-- How an engine has the segments of a table cut. -/
def cut (e : Engine) (t : Table) : Cut := e.host.cut e.settings.segmentGrain t.segments

theorem segments_cut (e : Engine) (t : Table) : (e.cut t).segments = t.segments :=
  e.host.segments_cut ..

def sums (e : Engine) (t : Table) (input : List α) (mode : GatherMode) : Gathered α :=
  (PadSums.sumCut t input (e.cut t)).narrow (Gathered.zeros α t.blockSize mode)

/-- Gathering the padding of a batch with segments of `lens` blocks succeeds with `g`. -/
structure Summed (e : Engine) (b : Batch α) (lengths : Option (List Int32)) (w : Widths)
    (mode : GatherMode) (lens : List Nat) (g : Gathered α) : Prop where
  basis : PaddedBasis b.shape.outer (w.start + w.stop) lengths lens
  room : e.HasRoomFor lengths
  fits : (w.planner b.shape.blockSize).Fits lens b.shape.outer
  memory : Gathered.Given e.host α b.shape.blockSize mode
  result : g = e.sums (b.padTable w lens) b.data mode

/-- The padding is part of the batch, so a length counts its blocks. -/
theorem Summed.padBlocks_le (h : e.Summed b lengths w mode lens g) :
    (b.padTable w lens).segments.length * (w.start + w.stop) ≤ maxLength := by
  have hblocks := h.fits.outBlocks_add
  have houter := b.shape.outer_le
  unfold Batch.padTable Planner.tableFor
  rw [Planner.length_placed]
  omega

omit [Element α] in
theorem inElements_padTable (hfit : (w.planner b.shape.blockSize).Fits lens b.shape.outer) :
    b.data.length = (b.padTable w lens).inElements := by
  rw [b.length_eq, ← hfit.total]
  rfl

theorem gatherNew_eq_ok {t : Table} {input : List α} (hin : input.length = t.inElements)
    (hpads : ∀ seg ∈ t.segments, PadSums.HasPads t input seg) :
    gatherNew e.host t mode (e.launchGather t input) = .ok g ↔
      Gathered.Given e.host α t.blockSize mode ∧ g = e.sums t input mode := by
  have hcut : ∀ seg ∈ (e.cut t).segments, PadSums.HasPads t input seg := by
    rwa [segments_cut]
  have hlaunch : e.launchGather t input (Gathered.zeros α t.blockSize mode) =
      (.ok (), e.sums t input mode) :=
    Padding.launchGather_on hin (Gathered.check_zeros ..) hcut
  unfold gatherNew
  rw [bind_eq_ok]
  simp only [Gathered.zeroed_eq_ok]
  refine ⟨?_, ?_⟩
  · intro h
    rcases h with ⟨_, ⟨hmem, rfl⟩, hg⟩
    rw [hlaunch] at hg
    cases hg
    exact ⟨hmem, rfl⟩
  · intro h
    rcases h with ⟨hmem, rfl⟩
    exact ⟨_, ⟨hmem, rfl⟩, by rw [hlaunch]; rfl⟩

theorem gather_eq_ok :
    (e.gather b lengths w mode).1 = .ok g ↔ ∃ lens, e.Summed b lengths w mode lens g := by
  refine (launched_eq_ok (fun _ => planStrip_eq_ok)
    (Q := fun _ => ∃ lens, e.Summed b lengths w mode lens g) ?_).trans ?_
  · rintro _ ⟨lens, ⟨hbasis, hroom, hfit⟩, rfl⟩
    have hpads : ∀ seg ∈ (b.padTable w lens).segments,
        PadSums.HasPads (b.padTable w lens) b.data seg :=
      fun seg hs => PadSums.hasPads_of_fits hfit b.length_eq hs
    obtain ⟨hsettings, hhost⟩ := e.planStrip_kept .exclusive b.shape lengths w
    rw [gatherNew_eq_ok (inElements_padTable hfit) hpads, sums, cut, hsettings, hhost,
      ← cut, ← sums]
    refine ⟨?_, ?_⟩
    · intro hr
      rcases hr with ⟨hmem, hg⟩
      exact ⟨lens, hbasis, hroom, hfit, hmem, hg⟩
    · intro hr
      rcases hr with ⟨lens', h⟩
      obtain rfl := h.basis.unique hbasis
      exact ⟨h.memory, h.result⟩
  · refine ⟨?_, ?_⟩
    · intro hr
      rcases hr with ⟨_, -, h⟩
      exact h
    · intro hr
      rcases hr with ⟨lens, h⟩
      exact ⟨_, ⟨lens, ⟨h.basis, h.room, h.fits⟩, rfl⟩, lens, h⟩

end Engine

end Ragged
