import Ragged.Proofs.Padding.Acceptance
import Ragged.Proofs.Padding.Grains

/-!
# What the lengths given stand for

Lengths can be left out, given with the padding of a batch or given without it. Left out they
stand for the one length of the whole batch, whatever comes of the call. Where there is padding,
lengths without it are never those with it. They stand for the lengths with it, which are
lengths again, and a call comes to the same with either. Other lengths are refused.
-/

namespace Ragged

open Lengths

variable {α : Type}

/-! ## Lengths left out -/

namespace Lengths

variable {outer : Nat}

theorem nonneg_whole (ho : outer ≤ maxLength) : Nonneg [Int32.ofNat outer] :=
  (orWhole_none ho).1

theorem sum_whole (ho : outer ≤ maxLength) : (counts [Int32.ofNat outer]).sum = outer := by
  rw [show counts [Int32.ofNat outer] = [outer] from (orWhole_none ho).2, List.sum_singleton]

theorem counted_whole (ho : outer ≤ maxLength) : Counted [Int32.ofNat outer] :=
  Nat.lt_of_le_of_lt (Nat.le_of_eq (sum_whole ho)) (outer_lt ho)

end Lengths

/-- One segment meets one fault at most, so it does not show which would be reported. -/
theorem Planner.planLengths_whole (p : Planner) (h h' : Host) (outer : Nat) :
    p.planLengths h [outer] outer = p.planLengths h' [outer] outer := by
  unfold planLengths
  simp only [place, collect_single]

theorem Table.newLengths_single {t : Table} {seg : Segment} (hseg : t.segments = [seg])
    (h h' : Host) : t.newLengths h = t.newLengths h' := by
  unfold newLengths
  rw [hseg, List.map_singleton, Planner.collect_single, Planner.collect_single]

namespace Engine

variable {e m : Engine}

/-- One length that spans the batch is planned as no lengths are. -/
theorem plan_whole {outer : Nat} (ho : outer ≤ maxLength) (h : m.HasRoom 1) (mode : ScanMode)
    (p : Planner) :
    (e.plan none mode p outer).1 = (m.plan (some [Int32.ofNat outer]) mode p outer).1 := by
  rw [plan_of_room h (nonneg_whole ho), planned_of_counted (nonneg_whole ho) (counted_whole ho),
    sum_whole ho, if_neg (Nat.not_lt.2 ho)]
  exact (p.plan_whole e.host outer).trans
    ((p.planLengths_whole e.host m.host outer).trans (by rw [(orWhole_none ho).2.symm]; rfl))

theorem planAdd_whole {shape : Shape} (h : m.HasRoom 1) (p : Padding α) :
    (e.planAdd shape none p).1 = (m.planAdd shape (some [Int32.ofNat shape.outer]) p).1 := by
  unfold planAdd
  cases p.checkFills shape.blockSize with
  | error f => rfl
  | ok u => exact plan_whole shape.outer_le h ..

theorem planStrip_whole {shape : Shape} (h : m.HasRoom 1) (mode : ScanMode) (w : Widths) :
    (e.planStrip mode shape none w).1 =
      (m.planStrip mode shape (some [Int32.ofNat shape.outer]) w).1 := by
  have hn := nonneg_whole shape.outer_le
  unfold planStrip
  simp only
  cases hw : w.checkedTotal with
  | error f =>
    -- Either way the widths are refused before the lengths are scanned.
    have hpadded : paddedLengths m.host [Int32.ofNat shape.outer] shape.outer w = .error f := by
      unfold paddedLengths padded
      rw [check_eq_ok.2 hn, hw]
      rfl
    rw [hpadded]
    unfold plan Planner.plan
    simp only
    rw [hw]
    rfl
  | ok pad =>
    have hpadded : paddedLengths m.host [Int32.ofNat shape.outer] shape.outer w =
        .ok [Int32.ofNat shape.outer] :=
      paddedLengths_eq_ok.2 ⟨hn, padded_of_given (Widths.checkedTotal_eq_ok.1 hw).1 shape.outer_le
        hn (counted_whole shape.outer_le) (.inr (.inl (sum_whole shape.outer_le)))⟩
    rw [hpadded]
    exact plan_whole shape.outer_le h ..

theorem single_of_planAdd {shape : Shape} {p : Padding α} {t : Table}
    (ht : (e.planAdd shape none p).1 = .ok t) : t.segments = [⟨0, 0, shape.outer⟩] := by
  obtain ⟨-, rfl⟩ := planAdd_eq_ok.1 ht
  rw [(orWhole_none shape.outer_le).2]
  rfl

theorem single_of_planStrip {shape : Shape} {mode : ScanMode} {w : Widths} {t : Table}
    (ht : (e.planStrip mode shape none w).1 = .ok t) : t.segments = [⟨0, 0, shape.outer⟩] := by
  obtain ⟨lens, ⟨hbasis, -, -⟩, rfl⟩ := planStrip_eq_ok.1 ht
  cases hbasis
  rfl

theorem cut_single {t : Table} {seg : Segment} (hseg : t.segments = [seg]) (e : Engine) :
    e.cut t = .task [seg] :=
  Cut.eq_task_of_single (e.host.divides_cut ..) ((e.segments_cut t).trans hseg)

variable [Element α] {b : Batch α}

/-- Without lengths a call comes to what it does with the one length of the whole batch, refused
or not, as long as the same memory is granted. -/
theorem whole_agrees (hmem : e.host.grants = m.host.grants) (hm : m.Unlimited) (hg : m.Grants 1)
    (p : Padding α) (w : Widths) (mode : GatherMode) :
    let one := some [Int32.ofNat b.shape.outer]
    (e.add b none p).1 = (m.add b one p).1 ∧
      (e.remove b none w).1 = (m.remove b one w).1 ∧
      (e.gather b none w mode).1 = (m.gather b one w mode).1 := by
  intro one
  have hroom := hm.hasRoom hg
  refine ⟨launched_congr (planAdd_whole hroom p) fun t ht => ?_,
    launched_congr (planStrip_whole hroom _ w) fun t ht => ?_,
    launched_congr (planStrip_whole hroom _ w) fun t ht => ?_⟩
  · have hone := Table.newLengths_single (single_of_planAdd ht)
    unfold launchAdd
    rw [(planAdd_kept ..).2, (planAdd_kept ..).2, rewriteNew_congr hmem,
      Padding.launchAdd_grain (hone _ _) hmem p (elementGrain_pos _) (elementGrain_pos _)]
  · have hone := Table.newLengths_single (single_of_planStrip ht)
    unfold launchRemove planRemove
    rw [(planStrip_kept ..).2, (planStrip_kept ..).2, rewriteNew_congr hmem,
      Padding.launchRemove_grain (hone _ _) hmem (elementGrain_pos _) (elementGrain_pos _)]
  · have hcut := cut_single (single_of_planStrip ht)
    unfold launchGather
    rw [← cut, ← cut, hcut, hcut]
    unfold planGather
    rw [(planStrip_kept ..).2, (planStrip_kept ..).2, gatherNew_congr hmem]

theorem whole_agrees_three_blocks :
    ∃ r, (standard.remove threeBlocks none ⟨1, 1⟩).1 = .ok r ∧ r.batch.data = [3, 4] ∧
      (standard.remove threeBlocks (some [3]) ⟨1, 1⟩).1 = .ok r ∧
      (standard.gather threeBlocks (some [3]) ⟨1, 1⟩ .merged).1 = .ok (.merged [6, 8]) := by
  obtain ⟨-, hremove, hgather⟩ := whole_agrees (b := threeBlocks) (Eq.refl standard.host.grants)
    standard_unlimited (granting_sequential.grants (by decide)) ⟨⟨0, 0⟩, none, none⟩ ⟨1, 1⟩
    .merged
  exact ⟨⟨⟨⟨1, [2], by decide, by decide⟩, [3, 4], by decide⟩, [1]⟩, rfl, rfl,
    hremove.symm.trans rfl, hgather.symm.trans rfl⟩

end Engine

/-! ## Lengths without the padding -/

namespace Lengths

variable {ls : List Int32} {lens : List Nat} {outer pad : Nat}

/-- There is padding in a batch with segments, so lengths cannot sum to it with and without. -/
theorem not_padded_and_payload (hne : ls ≠ []) (hpad : 0 < pad) :
    ¬ (fullTotal ls = outer ∧ fullTotal ls = (outer : Int) - (ls.length * pad : Nat)) := by
  have hpos : 0 < ls.length * pad := Nat.mul_pos (List.length_pos_of_ne_nil hne) hpad
  omega

theorem PaddedBasis.fullTotal (h : PaddedBasis outer pad (some ls) lens) :
    fullTotal ls = outer ∨ fullTotal ls = (outer : Int) - (ls.length * pad : Nat) := by
  have htotal := fullTotal_eq h.nonneg
  cases h with
  | padded _ hsum => exact .inl (by omega)
  | payload _ hsum => exact .inr (by omega)

theorem PaddedBasis.toInt_widened (h : PaddedBasis outer pad (some ls) ((counts ls).map (· + pad)))
    (ho : outer ≤ maxLength) :
    (widened pad ls).map Int32.toInt = ls.map fun l => l.toInt + (pad : Int) := by
  rw [widened_eq h.nonneg, map_toInt_ofCounts (h.len_le ho), List.map_map]
  exact map_counts h.nonneg (g := fun n => n + pad) fun n => Int.natCast_add n pad

theorem PaddedBasis.widened (h : PaddedBasis outer pad (some ls) ((counts ls).map (· + pad)))
    (ho : outer ≤ maxLength) :
    PaddedBasis outer pad (some (widened pad ls)) ((counts ls).map (· + pad)) := by
  rw [widened_eq h.nonneg]
  exact paddedBasis_ofCounts ho h.sum_eq

end Lengths

theorem Planner.fits_payload {shape : Shape} {w : Widths} {ls : List Int32} (hn : Nonneg ls)
    (hne : ls ≠ [])
    (h : (counts ls).sum + ls.length * (w.start + w.stop) = shape.outer) :
    (w.planner shape.blockSize).Fits ((counts ls).map (· + (w.start + w.stop))) shape.outer := by
  have ho := shape.outer_le
  have hpad := Nat.le_mul_of_pos_left (w.start + w.stop) (List.length_pos_of_ne_nil hne)
  refine (fits_strip ho).2 ⟨by omega, (PaddedBasis.payload hn h).sum_eq, ?_, shape.elements_lt⟩
  intro len hl
  obtain ⟨n, -, rfl⟩ := List.mem_map.1 hl
  exact Nat.le_add_left _ n

namespace Engine

variable [Element α] {e m : Engine} {b : Batch α} {w : Widths} {mode : GatherMode}

section Lengths

variable {lengths lengths' : Option (List Int32)} {lens : List Nat}

/-- Of the lengths only the segments they stand for matter. -/
theorem Removed.of_basis {r : Segmented α} (h : e.Removed b lengths w lens r)
    (hbasis : PaddedBasis b.shape.outer (w.start + w.stop) lengths' lens)
    (hroom : m.HasRoomFor lengths')
    (hmem : GivesBatch m.host α ((w.planner b.shape.blockSize).tableFor lens).outElements
      lens.length) : m.Removed b lengths' w lens r := by
  obtain ⟨_, hr⟩ := exists_removed hbasis hroom h.fits hmem
  exact ⟨hbasis, hroom, h.fits, { h.built with memory := hr.built.memory }⟩

theorem Summed.of_basis {g : Gathered α} (h : e.Summed b lengths w mode lens g)
    (hs : e.SumAlike α m) (hbasis : PaddedBasis b.shape.outer (w.start + w.stop) lengths' lens)
    (hroom : m.HasRoomFor lengths') (hmem : Gathered.Given m.host α b.shape.blockSize mode) :
    m.Summed b lengths' w mode lens g := by
  refine ⟨hbasis, hroom, h.fits, hmem, h.result.trans ?_⟩
  exact sums_alike hs (inElements_padTable h.fits)
    (fun seg hseg => PadSums.hasPads_of_fits h.fits b.length_eq hseg) mode

/-- Lengths that stand for no segments of the batch are refused. -/
theorem refused_of_no_basis (hroom : e.HasRoomFor lengths)
    (h : ∀ lens, ¬ PaddedBasis b.shape.outer (w.start + w.stop) lengths lens) :
    (∃ f, (e.remove b lengths w).1 = .error f ∧ f.kind = .contract) ∧
      ∃ f, (e.gather b lengths w mode).1 = .error f ∧ f.kind = .contract := by
  have hplan : ∀ mode t, (e.planStrip mode b.shape lengths w).1 ≠ .ok t := by
    intro mode t ht
    obtain ⟨lens, ⟨hbasis, -, -⟩, -⟩ := planStrip_eq_ok.1 ht
    exact h lens hbasis
  refine ⟨(remove_contract hroom fun t ht => absurd ht (hplan _ t)).exists_error fun r hr => ?_,
    (gather_contract hroom fun t ht => absurd ht (hplan _ t)).exists_error fun g hg => ?_⟩
  · obtain ⟨lens, hremoved⟩ := remove_eq_ok.1 hr
    exact h lens hremoved.basis
  · obtain ⟨lens, hsummed⟩ := gather_eq_ok.1 hg
    exact h lens hsummed.basis

end Lengths

variable {ls : List Int32}

/-- Lengths of a batch are given with its padding or without, never both; a call that takes the
padding away comes to the same with either, and refuses other lengths. Sums that depend on the
order of adding come to the same when the segments are cut alike. -/
theorem payload_reading (he : e.Unlimited) (hm : m.Unlimited)
    (hn : Nonneg ls) (hne : ls ≠ []) (hpad : 0 < w.start + w.stop)
    (hge : e.Grants ls.length) (hgm : m.Grants ls.length) (mode : GatherMode)
    (halloc : ∀ t, (e.planRemove b.shape (some ls) w).1 = .ok t →
      (GivesBatch e.host α t.outElements t.numSegments ∧
        GivesBatch m.host α t.outElements t.numSegments) ∧
      Gathered.Given e.host α t.blockSize mode ∧ Gathered.Given m.host α t.blockSize mode) :
    let outer : Int := b.shape.outer
    let pad := w.start + w.stop
    let payload : Int := outer - (ls.length * pad : Nat)
    ¬ (fullTotal ls = outer ∧ fullTotal ls = payload) ∧
      (fullTotal ls = payload →
        (widened pad ls).map Int32.toInt = ls.map (fun l => l.toInt + (pad : Int)) ∧
          (∃ r, (e.remove b (some ls) w).1 = .ok r ∧
            (m.remove b (some (widened pad ls)) w).1 = .ok r) ∧
          ∃ g g', (e.gather b (some ls) w mode).1 = .ok g ∧
            (m.gather b (some (widened pad ls)) w mode).1 = .ok g' ∧
            (e.SumAlike α m → g = g')) ∧
      (fullTotal ls ≠ outer → fullTotal ls ≠ payload →
        (∃ f, (e.remove b (some ls) w).1 = .error f ∧ f.kind = .contract) ∧
          ∃ f, (e.gather b (some ls) w mode).1 = .error f ∧ f.kind = .contract) := by
  intro outer pad payload
  have hroom : e.HasRoomFor (some ls) := hasRoomFor_some.2 (he.hasRoom hge)
  refine ⟨not_padded_and_payload hne hpad, fun h => ?_, fun houter hpayload => ?_⟩
  · have htotal := fullTotal_eq hn
    have hsum : (counts ls).sum + ls.length * pad = b.shape.outer := by omega
    have hbasis := PaddedBasis.payload hn hsum
    have hfit := Planner.fits_payload hn hne hsum
    obtain ⟨⟨hout, hout'⟩, hblock, hblock'⟩ :=
      halloc _ (planStrip_eq_ok.2 ⟨_, ⟨hbasis, hroom, hfit⟩, rfl⟩)
    rw [numSegments_tableFor] at hout hout'
    have hbasis' := hbasis.widened b.shape.outer_le
    have hroom' : m.HasRoomFor (some (widened pad ls)) :=
      hasRoomFor_some.2 (hm.hasRoom (by rwa [widened, List.length_map]))
    refine ⟨hbasis.toInt_widened b.shape.outer_le, ?_, ?_⟩
    · obtain ⟨r, hr⟩ := exists_removed hbasis hroom hfit hout
      have hr' := hr.of_basis hbasis' hroom' hout'
      exact ⟨r, remove_eq_ok.2 ⟨_, hr⟩, remove_eq_ok.2 ⟨_, hr'⟩⟩
    · have hg : e.Summed b (some ls) w mode _ _ := ⟨hbasis, hroom, hfit, hblock, rfl⟩
      have hg' : m.Summed b (some (widened pad ls)) w mode _ _ :=
        ⟨hbasis', hroom', hfit, hblock', rfl⟩
      refine ⟨_, _, gather_eq_ok.2 ⟨_, hg⟩, gather_eq_ok.2 ⟨_, hg'⟩, fun hs => ?_⟩
      exact (hg.of_basis hs hbasis' hroom' hblock').result
  · exact refused_of_no_basis hroom fun lens hl => hl.fullTotal.elim houter hpayload

/-- An empty segment and one of a block, each given without its block of padding. -/
theorem payload_reading_two_segments :
    ∃ r, (standard.remove threeBlocks (some [0, 1]) ⟨1, 0⟩).1 = .ok r ∧
      (standard.remove threeBlocks (some [1, 2]) ⟨1, 0⟩).1 = .ok r ∧
      r.batch.data = [5, 6] ∧ r.lengths = [0, 1] := by
  have hg : standard.Grants ([0, 1] : List Int32).length :=
    granting_sequential.grants (by decide)
  have halloc : ∀ t, (standard.planRemove threeBlocks.shape (some [0, 1]) ⟨1, 0⟩).1 = .ok t →
      (GivesBatch standard.host UInt8 t.outElements t.numSegments ∧
        GivesBatch standard.host UInt8 t.outElements t.numSegments) ∧
      Gathered.Given standard.host UInt8 t.blockSize .merged ∧
        Gathered.Given standard.host UInt8 t.blockSize .merged := by
    have hplan : (standard.planRemove threeBlocks.shape (some [0, 1]) ⟨1, 0⟩).1 =
        .ok ⟨[⟨0, 0, 1⟩, ⟨1, 0, 2⟩], ⟨1, 0⟩, .strip, 2, 3, 1⟩ := by rfl
    intro t ht
    cases hplan.symm.trans ht
    have hout : GivesBatch standard.host UInt8 2 2 :=
      granting_sequential.givesBatch (by decide) (by decide)
    have hblock : Gathered.Given standard.host UInt8 2 .merged := ⟨by decide, .inr rfl⟩
    exact ⟨⟨hout, hout⟩, hblock, hblock⟩
  obtain ⟨-, hpayload, -⟩ := payload_reading (b := threeBlocks) standard_unlimited
    standard_unlimited (check_eq_ok.1 (show check [0, 1] = .ok () from rfl)) (List.cons_ne_nil _ _)
    (by decide) hg hg .merged halloc
  obtain ⟨-, ⟨r, hr, hr'⟩, -⟩ := hpayload (by decide)
  cases hr
  exact ⟨_, rfl, hr', rfl, rfl⟩

end Engine

end Ragged
