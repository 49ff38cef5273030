import Ragged.Padding.Remove
import Ragged.Proofs.Padding.Add
import Ragged.Proofs.Padding.Gather
import Ragged.Proofs.Room

/-!
# Launches do not show the grains

Fills and copies come out the same whatever size their chunks are, so a region is written
alike with every grain, by any table and from any fills, on hosts that are alike. Sums of
tasks are added up to the sums of one task as far as adding accumulators is associative and
commutative: it is for integers, which wrap around, and not for IEEE numbers. Those come out
alike only when the segments are cut alike.
-/

namespace Ragged

/-! ## Regions -/

section Regions

variable {α : Type}

theorem length_slice {xs ys : List α} {start len : Nat} (h : slice xs start len = .ok ys) :
    ys.length = len := by
  unfold slice at h
  split at h
  · cases h
    rw [List.length_take, List.length_drop]
    omega
  · cases h

theorem length_splitOff {xs head tail : List α} {n : Nat} (h : splitOff xs n = .ok (head, tail)) :
    head.length = n := by
  unfold splitOff at h
  split at h
  · cases h
    rw [List.length_take]
    omega
  · cases h

namespace Padding

variable {t : Table} {grain grain' : Nat}

theorem removeRegion_grain (hg : 0 < grain) (hg' : 0 < grain') (input : List α) (seg : Segment)
    (region : List α) :
    removeRegion t grain input seg region = removeRegion t grain' input seg region := by
  unfold removeRegion
  cases hs : slice input ((seg.inStart + t.widths.start) * t.blockSize) region.length with
  | error f => rfl
  | ok payload =>
    have hlen := (length_slice hs).symm
    simp only [bind, Except.bind]
    rw [copy_eq hg hlen, copy_eq hg' hlen]

theorem rewrite_congr {h h' : Host} (hn : t.newLengths h = t.newLengths h')
    (hm : h.grants = h'.grants) (write : Segment → List α → Except Fault (List α))
    (input : List α) : Buffers.rewrite t h write input = Buffers.rewrite t h' write input := by
  have hnew : Buffers.newLengths t h = Buffers.newLengths t h' := by
    funext lengths
    unfold Buffers.newLengths
    rw [hn]
  have hcarve : Carving.carve (α := α) h = Carving.carve h' := by
    funext buffer regions
    unfold Carving.carve
    rw [Host.memory_congr hm]
  unfold Buffers.rewrite
  rw [hnew, hcarve]

theorem launchRemove_grain {h h' : Host} (hn : t.newLengths h = t.newLengths h')
    (hm : h.grants = h'.grants) (hg : 0 < grain) (hg' : 0 < grain') (input : List α) :
    launchRemove t h grain input = launchRemove t h' grain' input := by
  have hwrite : removeRegion t grain input = removeRegion t grain' input :=
    funext₂ fun seg region => removeRegion_grain hg hg' input seg region
  rw [launchRemove, hwrite, rewrite_congr hn hm, launchRemove]

variable [Element α]

theorem addRegion_grain (p : Padding α) (hg : 0 < grain) (hg' : 0 < grain') (input : List α)
    (seg : Segment) (region : List α) :
    p.addRegion t grain input seg region = p.addRegion t grain' input seg region := by
  unfold addRegion
  simp only [fill_eq hg, fill_eq hg']
  cases hs : slice input (seg.inStart * t.blockSize) (seg.len * t.blockSize) with
  | error f => rfl
  | ok payload =>
    simp only [bind, Except.bind]
    cases splitOff region (t.widths.start * t.blockSize) with
    | error f => rfl
    | ok pad =>
      simp only
      cases hb : splitOff pad.2 (seg.len * t.blockSize) with
      | error f => rfl
      | ok body =>
        have hlen := (length_splitOff hb).trans (length_slice hs).symm
        simp only
        rw [copy_eq hg hlen, copy_eq hg' hlen]

theorem launchAdd_grain {h h' : Host} (hn : t.newLengths h = t.newLengths h')
    (hm : h.grants = h'.grants) (p : Padding α) (hg : 0 < grain) (hg' : 0 < grain')
    (input : List α) :
    p.launchAdd t h grain input = p.launchAdd t h' grain' input := by
  have hwrite : p.addRegion t grain input = p.addRegion t grain' input :=
    funext₂ fun seg region => p.addRegion_grain hg hg' input seg region
  rw [launchAdd, hwrite, rewrite_congr hn hm, launchAdd]

end Padding

end Regions

/-! ## Sums -/

/-- Elements whose accumulators can be added up in any order. -/
class LawfulSums (α : Type) [Element α] : Prop where
  add_assoc : ∀ r s t : Element.Acc α,
    Element.addAcc (Element.addAcc r s) t = Element.addAcc r (Element.addAcc s t)
  add_comm : ∀ s t : Element.Acc α, Element.addAcc s t = Element.addAcc t s
  add_zero : ∀ s : Element.Acc α, Element.addAcc s Element.zeroAcc = s

instance : LawfulSums UInt8 := ⟨BitVec.add_assoc, BitVec.add_comm, BitVec.add_zero⟩

instance : LawfulSums UInt32 := ⟨BitVec.add_assoc, BitVec.add_comm, BitVec.add_zero⟩

instance : LawfulSums Int32 := ⟨BitVec.add_assoc, BitVec.add_comm, BitVec.add_zero⟩

instance : LawfulSums Int64 := ⟨BitVec.add_assoc, BitVec.add_comm, BitVec.add_zero⟩

theorem zipWith_assoc {γ : Type} {f : γ → γ → γ} (hf : ∀ r s t, f (f r s) t = f r (f s t))
    (xs ys zs : List γ) :
    List.zipWith f (List.zipWith f xs ys) zs = List.zipWith f xs (List.zipWith f ys zs) := by
  induction xs generalizing ys zs with
  | nil => simp
  | cons x xs ih =>
    cases ys with
    | nil => simp
    | cons y ys =>
      cases zs with
      | nil => simp
      | cons z zs => simp only [List.zipWith_cons_cons, hf, ih]

namespace PadSums

variable {α : Type} [Element α] [LawfulSums α] {t : Table} {input : List α}

theorem add_comm (r s : PadSums α) : r.add s = s.add r := by
  have hcomm : ∀ xs ys : List (Element.Acc α),
      List.zipWith Element.addAcc xs ys = List.zipWith Element.addAcc ys xs := fun xs ys =>
    List.zipWith_comm_of_comm LawfulSums.add_comm
  unfold add
  rw [hcomm r.start, hcomm r.stop]

theorem zero_add_zero (size : Nat) : (zero size : PadSums α).add (zero size) = zero size := by
  unfold add zero
  rw [List.zipWith_replicate', LawfulSums.add_zero]

theorem foldl_addRow_add (r s : List (Element.Acc α)) (rows : List (List α)) :
    rows.foldl addRow (List.zipWith Element.addAcc r s) =
      List.zipWith Element.addAcc r (rows.foldl addRow s) := by
  refine List.foldl_hom (List.zipWith Element.addAcc r) fun sums row => ?_
  rw [addRow_eq, addRow_eq, zipWith_assoc LawfulSums.add_assoc]

theorem addSegment_add (r s : PadSums α) (seg : Segment) :
    addSegment t input (r.add s) seg = (addSegment t input s seg).map r.add := by
  unfold addSegment
  cases rows input t.blockSize seg.inStart t.widths.start with
  | error f => rfl
  | ok startRows =>
    simp only [bind, Except.bind]
    cases PadSums.stopRows t input seg with
    | error f => rfl
    | ok stopRows =>
      simp only [add, foldl_addRow_add]
      rfl

theorem foldlM_add (r s : PadSums α) (segs : List Segment) :
    segs.foldlM (addSegment t input) (r.add s) =
      (segs.foldlM (addSegment t input) s).map r.add := by
  induction segs generalizing s with
  | nil => rfl
  | cons seg segs ih =>
    rw [List.foldlM_cons, List.foldlM_cons, addSegment_add]
    cases addSegment t input s seg with
    | error f => rfl
    | ok s' => exact ih s'

theorem add_zero_of_foldlM {segs : List Segment} {s : PadSums α}
    (h : segs.foldlM (addSegment t input) (zero t.blockSize) = .ok s) :
    s.add (zero t.blockSize) = s := by
  have hzero : segs.foldlM (addSegment t input) ((zero t.blockSize).add (zero t.blockSize)) = _ :=
    foldlM_add ..
  rw [zero_add_zero, h] at hzero
  rw [add_comm]
  exact (Except.ok.inj hzero).symm

/-- Going on from the sums of a task is adding the next task to them. -/
theorem foldlM_of_zero {segs : List Segment} {s : PadSums α}
    (h : segs.foldlM (addSegment t input) (zero t.blockSize) = .ok s) (next : List Segment) :
    next.foldlM (addSegment t input) s =
      (next.foldlM (addSegment t input) (zero t.blockSize)).map s.add := by
  rw [← foldlM_add, add_zero_of_foldlM h]

/-- However segments are cut, the sums of the tasks add up to those of one task. -/
theorem ofCut_eq_foldlM (cut : Cut) :
    ofCut t input cut = cut.segments.foldlM (addSegment t input) (zero t.blockSize) := by
  induction cut with
  | task segs => rfl
  | join left right ihl ihr =>
    unfold ofCut Cut.segments
    rw [ihl, ihr, List.foldlM_append]
    -- A fault of the left tasks is the fault of both, whatever the right ones come to.
    cases hl : left.segments.foldlM (addSegment t input) (zero t.blockSize) with
    | error f => rfl
    | ok s => exact (foldlM_of_zero hl right.segments).symm

end PadSums

theorem Padding.launchGather_cut {α : Type} [Element α] [LawfulSums α] {t : Table}
    {cut cut' : Cut} (hc : cut.segments = cut'.segments) (input : List α) :
    launchGather t cut input = launchGather t cut' input := by
  unfold launchGather
  rw [PadSums.ofCut_eq_foldlM, PadSums.ofCut_eq_foldlM, hc]

/-! ## Engines -/

namespace Engine

variable {α : Type} {e m : Engine}

/-- Padding is summed up alike: its segments are cut alike, or sums can be added up in any
order. -/
def SumAlike (α : Type) [Element α] (e m : Engine) : Prop := e.cut = m.cut ∨ LawfulSums α

/-- How segments are cut is settled by the settings and the host. -/
theorem cut_congr (hs : e.settings = m.settings) (hh : e.host = m.host) : e.cut = m.cut := by
  funext t
  rw [cut, cut, hs, hh]

theorem SumAlike.congr [Element α] {e' m' : Engine} (h : e.SumAlike α m)
    (hs : e'.settings = e.settings) (hh : e'.host = e.host) (hs' : m'.settings = m.settings)
    (hh' : m'.host = m.host) : e'.SumAlike α m' := by
  unfold SumAlike
  rwa [cut_congr hs hh, cut_congr hs' hh']

theorem launchRemove_alike (ha : e.host.Alike m.host) (t : Table) (input : List α) :
    e.launchRemove t input = m.launchRemove t input := by
  unfold launchRemove
  rw [Padding.launchRemove_grain (t.newLengths_congr ha.report) ha.grants e.elementGrain_pos
    m.elementGrain_pos]

variable [Element α]

theorem launchAdd_alike (ha : e.host.Alike m.host) (t : Table) (p : Padding α) (input : List α) :
    e.launchAdd t p input = m.launchAdd t p input := by
  unfold launchAdd
  rw [Padding.launchAdd_grain (t.newLengths_congr ha.report) ha.grants p e.elementGrain_pos
    m.elementGrain_pos]

theorem launchGather_alike (hs : e.SumAlike α m) (t : Table) (input : List α) :
    e.launchGather t input = m.launchGather t input := by
  have hlaunch : Padding.launchGather t (e.cut t) input =
      Padding.launchGather t (m.cut t) input := by
    rcases hs with hcut | hsums
    · rw [hcut]
    · exact Padding.launchGather_cut ((e.segments_cut t).trans (m.segments_cut t).symm) input
  funext target
  exact congrArg (fun l : Launch (Gathered α) Unit => l.on target) hlaunch

theorem sums_alike (hs : e.SumAlike α m) {t : Table} {input : List α}
    (hin : input.length = t.inElements)
    (hpads : ∀ seg ∈ t.segments, PadSums.HasPads t input seg) (mode : GatherMode) :
    e.sums t input mode = m.sums t input mode := by
  have hsums : ∀ e : Engine, e.launchGather t input (Gathered.zeros α t.blockSize mode) =
      (.ok (), e.sums t input mode) := by
    intro e
    refine Padding.launchGather_on hin (Gathered.check_zeros ..) fun seg hseg => hpads seg ?_
    rwa [← e.segments_cut t]
  have hlaunch := congrFun (launchGather_alike hs t input) (Gathered.zeros α t.blockSize mode)
  rw [hsums e, hsums m] at hlaunch
  exact (Prod.mk.inj hlaunch).2

end Engine

end Ragged
