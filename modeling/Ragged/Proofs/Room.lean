import Ragged.Proofs.Engine

/-!
# What a plan shows of its engine

An engine gives a scan its room and nothing else. Where there is room, running sums are the
same on every engine, and so is a plan from the same lengths: the same table or, on hosts
that report alike, the same refusal. On one engine both kinds of sums plan alike also where
there is no room, and are charged alike. Lengths that cannot be counted in 64 bits are
refused either way, but not always with the same words.
-/

namespace Ragged

/-! ## Hosts that are alike -/

/-- Of several faults the same is reported, and the same memory is granted. The hosts may cut
segments differently. -/
structure Host.Alike (h h' : Host) : Prop where
  report : h.report = h'.report
  grants : h.grants = h'.grants

section Alike

variable {h h' : Host}

theorem Host.collect_congr {β : Type} (hr : h.report = h'.report) (rs : List (Except Fault β)) :
    h.collect rs = h'.collect rs := by
  unfold collect
  rw [hr]

theorem Host.memory_congr (hg : h.grants = h'.grants) (need : Need) (bytes : Nat) :
    h.memory need bytes = h'.memory need bytes := by
  unfold Host.memory
  rw [hg]

theorem Host.Alike.gives (ha : h.Alike h') {need : Need} {bytes : Nat}
    (hg : h.Gives need bytes) : h'.Gives need bytes := by
  unfold Gives at hg ⊢
  rwa [← ha.grants]

theorem Host.Alike.reserve (ha : h.Alike h') (s : Scratch) (n m : Nat) :
    s.reserve h n m = s.reserve h' n m := by
  have hgrow : ∀ (s : Scratch) (buffer : Kept) (k : Nat),
      s.grow h buffer k = s.grow h' buffer k := by
    intro s buffer k
    unfold Scratch.grow
    rw [Host.memory_congr ha.grants]
  unfold Scratch.reserve
  simp only [hgrow]

theorem Planner.plan_congr (hr : h.report = h'.report) (p : Planner) (bounds : Bounds)
    (outer : Nat) : p.plan h bounds outer = p.plan h' bounds outer := by
  have hsegments : p.segments h bounds outer = p.segments h' bounds outer := by
    unfold segments
    simp only [Host.collect_congr hr]
  unfold plan
  rw [hsegments]

theorem Engine.paddedLengths_congr (hr : h.report = h'.report) (ls : List Int32) (outer : Nat)
    (w : Widths) : paddedLengths h ls outer w = paddedLengths h' ls outer w := by
  unfold paddedLengths Lengths.padded
  simp only [Host.collect_congr hr]

theorem Table.newLengths_congr (hr : h.report = h'.report) (t : Table) :
    t.newLengths h = t.newLengths h' :=
  Host.collect_congr hr _

theorem Scan.run_congr (ha : h.Alike h') (mode : ScanMode) (grain : Nat) (ls : List Int32)
    (s : Scratch) : run h mode grain ls s = run h' mode grain ls s := by
  unfold run
  rw [ha.reserve]

theorem Engine.rewriteNew_congr {α : Type} [Element α] (hg : h.grants = h'.grants) (shape : Shape)
    (t : Table) (launch : Buffers α → Except Fault Unit × Buffers α) :
    rewriteNew h shape t launch = rewriteNew h' shape t launch := by
  unfold rewriteNew zeroed
  simp only [Host.memory_congr hg]

theorem Engine.gatherNew_congr {α : Type} [Element α] (hg : h.grants = h'.grants) (t : Table)
    (mode : GatherMode) (launch : Gathered α → Except Fault Unit × Gathered α) :
    gatherNew h t mode launch = gatherNew h' t mode launch := by
  unfold gatherNew Gathered.zeroed zeroed
  simp only [Host.memory_congr hg]

end Alike

namespace Engine

open Lengths Scan

variable {α : Type} {e m : Engine} {ls : List Int32}

/-! ## One engine on two hosts -/

section On

variable {h h' : Host}

theorem scan_on (ha : h.Alike h') (e : Engine) (ls : List Int32) (mode : ScanMode) :
    (e.on h').scan ls mode =
      (((e.on h).scan ls mode).1, ((e.on h).scan ls mode).2.on h') := by
  have hrun := run_congr ha mode e.settings.scanGrain ls e.scratch
  unfold scan on
  simp only [hrun]

theorem plan_on (ha : h.Alike h') (e : Engine) (lengths : Option (List Int32)) (mode : ScanMode)
    (p : Planner) (outer : Nat) :
    (e.on h').plan lengths mode p outer =
      (((e.on h).plan lengths mode p outer).1, ((e.on h).plan lengths mode p outer).2.on h') := by
  cases lengths with
  | none => exact Prod.ext (p.plan_congr ha.report (.whole 1) outer).symm rfl
  | some ls =>
    have hhost : ((e.on h).scan ls mode).2.host = h := rfl
    rw [plan, plan, scan_on ha]
    generalize (e.on h).scan ls mode = scanned at hhost
    obtain ⟨sums, e'⟩ := scanned
    simp only at hhost
    subst hhost
    cases sums with
    | error f => rfl
    | ok sums => exact Prod.ext (p.plan_congr ha.report _ outer).symm rfl

theorem planAdd_on (ha : h.Alike h') (e : Engine) (shape : Shape) (lengths : Option (List Int32))
    (p : Padding α) :
    (e.on h').planAdd shape lengths p =
      (((e.on h).planAdd shape lengths p).1, ((e.on h).planAdd shape lengths p).2.on h') := by
  unfold planAdd
  cases p.checkFills shape.blockSize with
  | error f => rfl
  | ok u => exact plan_on ha e ..

theorem planStrip_on (ha : h.Alike h') (e : Engine) (mode : ScanMode) (shape : Shape)
    (lengths : Option (List Int32)) (w : Widths) :
    (e.on h').planStrip mode shape lengths w =
      (((e.on h).planStrip mode shape lengths w).1,
        ((e.on h).planStrip mode shape lengths w).2.on h') := by
  cases lengths with
  | none => exact plan_on ha e none mode ⟨.strip, w, shape.blockSize⟩ shape.outer
  | some ls =>
    have hpadded : paddedLengths (e.on h').host ls shape.outer w =
        paddedLengths (e.on h).host ls shape.outer w :=
      (paddedLengths_congr ha.report ..).symm
    unfold planStrip
    simp only [hpadded]
    cases paddedLengths (e.on h).host ls shape.outer w with
    | error f => rfl
    | ok ls => exact plan_on ha e ..

end On

/-! ## Two engines with room -/

theorem Grants.congr {n : Nat} (hg : e.Grants n) (hs : e.settings = m.settings)
    (ha : e.host.Alike m.host) : m.Grants n := by
  unfold Grants at hg ⊢
  rw [← hs]
  exact ⟨ha.gives hg.sums, ha.gives hg.partials⟩

theorem scan_agrees (h : e.HasRoom ls.length) (h' : m.HasRoom ls.length)
    (mode : ScanMode) : (e.scan ls mode).1 = (m.scan ls mode).1 := by
  rw [scan_of_room h, scan_of_room h']

theorem HasRoom.again (h : e.HasRoom ls.length) (ha : e.scratch.Accounts) (hn : Nonneg ls)
    (mode : ScanMode) (host : Host) : ((e.scan ls mode).2.on host).HasRoom ls.length := by
  have hsnd : (e.scan ls mode).2.scratch.emptied = _ :=
    run_snd e.scanGrain_pos e.host ls e.scratch
  rw [check_eq_ok.2 hn, Scratch.eq_of_reserve ha h] at hsnd
  have hsums : (e.scan ls mode).2.scratch.sums = max ls.length e.scratch.sums :=
    congrArg Scratch.sums hsnd
  have hpartials : (e.scan ls mode).2.scratch.partials =
      max (ceilDiv ls.length e.settings.scanGrain) e.scratch.partials :=
    congrArg Scratch.partials hsnd
  refine congrArg Prod.fst (Scratch.reserve_of_within host ?_ ?_)
  · exact hsums ▸ Nat.le_max_left ..
  · exact hpartials ▸ Nat.le_max_left ..

variable {lengths : Option (List Int32)}

/-- What a strip plans where there is room: the lengths are read in the padded basis. -/
def stripPlan (h : Host) (mode : ScanMode) (shape : Shape) (lengths : Option (List Int32))
    (w : Widths) : Except Fault Table :=
  match lengths with
  | none => (w.planner shape.blockSize).planLengths h [shape.outer] shape.outer
  | some ls => do
    let ls ← paddedLengths h ls shape.outer w
    planned (w.planner shape.blockSize) h mode ls shape.outer

theorem planStrip_fst (h : e.HasRoomFor lengths) (mode : ScanMode) (shape : Shape) (w : Widths) :
    (e.planStrip mode shape lengths w).1 = stripPlan e.host mode shape lengths w := by
  cases lengths with
  | none => exact Planner.plan_whole _ _ _
  | some ls =>
    unfold planStrip stripPlan
    simp only
    cases hp : paddedLengths e.host ls shape.outer w with
    | error f => rfl
    | ok ls' =>
      obtain ⟨hn, hpadded⟩ := paddedLengths_eq_ok.1 hp
      rw [hasRoomFor_some, ← length_padded hpadded] at h
      exact plan_of_room h (nonneg_padded hn hpadded).1 ..

theorem planned_contract (p : Planner) (h : Host) (mode : ScanMode) (ls : List Int32)
    (outer : Nat) : Contract (planned p h mode ls outer) := by
  unfold planned
  split
  · rename_i f hf
    exact .error (outcome_contract mode ls f hf)
  · exact p.plan_contract h _ outer

theorem stripPlan_contract (h : Host) (mode : ScanMode) (shape : Shape)
    (lengths : Option (List Int32)) (w : Widths) : Contract (stripPlan h mode shape lengths w) := by
  cases lengths with
  | none =>
    unfold stripPlan
    simp only
    rw [← Planner.plan_whole]
    exact Planner.plan_contract _ h _ _
  | some ls =>
    exact (paddedLengths_upfront h ls shape.outer w).contract.bind fun _ =>
      planned_contract _ h mode _ _

theorem remove_of_refused {α : Type} [Element α] {b : Batch α} {w : Widths} {f : Fault}
    (hroom : e.HasRoomFor lengths)
    (hf : stripPlan e.host .inclusive b.shape lengths w = .error f) :
    (e.remove b lengths w).1 = .error f :=
  launched_of_error ((planStrip_fst hroom ..).trans hf)

theorem gather_of_refused {α : Type} [Element α] {b : Batch α} {w : Widths} {f : Fault}
    (hroom : e.HasRoomFor lengths)
    (hf : stripPlan e.host .exclusive b.shape lengths w = .error f) (mode : GatherMode) :
    (e.gather b lengths w mode).1 = .error f :=
  launched_of_error ((planStrip_fst hroom ..).trans hf)

/-! ## Both kinds of running sums -/

/-- The lengths given, if any, come to a total that fits in 64 bits. -/
def AllCounted (lengths : Option (List Int32)) : Prop := ∀ ls ∈ lengths, Nonneg ls → Counted ls

/-- Lengths that can be counted are planned alike whichever way they are summed up. -/
theorem planned_modes {p : Planner} {h h' : Host} (hr : h.report = h'.report) (hn : Nonneg ls)
    (hc : Counted ls) (mode mode' : ScanMode) (outer : Nat) :
    planned p h mode ls outer = planned p h' mode' ls outer := by
  rw [planned_of_counted hn hc, planned_of_counted hn hc]
  unfold Planner.planLengths
  simp only [Host.collect_congr hr]

theorem stripPlan_modes {h h' : Host} (hr : h.report = h'.report) (hc : AllCounted lengths)
    (mode mode' : ScanMode) (shape : Shape) (w : Widths) :
    stripPlan h mode shape lengths w = stripPlan h' mode' shape lengths w := by
  unfold stripPlan
  cases lengths with
  | none =>
    simp only
    rw [← Planner.plan_whole, ← Planner.plan_whole, Planner.plan_congr hr]
  | some ls =>
    simp only
    rw [paddedLengths_congr hr]
    cases hp : paddedLengths h' ls shape.outer w with
    | error f => rfl
    | ok ls' =>
      obtain ⟨hn, hpadded⟩ := paddedLengths_eq_ok.1 hp
      exact planned_modes hr (nonneg_padded hn hpadded).1
        (counted_padded shape.outer_le hn (hc ls rfl hn) hpadded) mode mode' shape.outer

theorem scan_capacities {h h' : Host} (ha : h.Alike h') (e : Engine) (ls : List Int32)
    (mode mode' : ScanMode) :
    ((e.on h).scan ls mode).2.scratch.emptied = ((e.on h').scan ls mode').2.scratch.emptied := by
  have hmode : ((e.on h).scan ls mode).2.scratch.emptied = _ :=
    run_snd e.scanGrain_pos h ls e.scratch
  have hmode' : ((e.on h').scan ls mode').2.scratch.emptied = _ :=
    run_snd e.scanGrain_pos h' ls e.scratch
  rw [hmode, hmode', ha.reserve]

theorem plan_capacities {h h' : Host} (ha : h.Alike h') (e : Engine)
    (lengths : Option (List Int32)) (mode mode' : ScanMode) (p : Planner) (outer : Nat) :
    ((e.on h).plan lengths mode p outer).2.scratch.emptied =
      ((e.on h').plan lengths mode' p outer).2.scratch.emptied := by
  cases lengths with
  | none => rfl
  | some ls =>
    rw [plan_snd, plan_snd]
    exact scan_capacities ha e ls mode mode'

/-- Only what is planned from the sums can tell one kind of them from the other. -/
theorem plan_modes {h h' : Host} (ha : h.Alike h') (e : Engine) (ls : List Int32)
    (mode mode' : ScanMode) (p : Planner) (outer : Nat) :
    ((e.on h).plan (some ls) mode p outer).1 = ((e.on h').plan (some ls) mode' p outer).1 ∨
      Nonneg ls ∧ ((e.on h).plan (some ls) mode p outer).1 = planned p h mode ls outer ∧
        ((e.on h').plan (some ls) mode' p outer).1 = planned p h' mode' ls outer := by
  have hfst := plan_fst (e.on h) ls mode p outer
  have hfst' := plan_fst (e.on h') ls mode' p outer
  simp only [on, ha.reserve] at hfst hfst'
  cases hcheck : check ls with
  | error f =>
    rw [hcheck] at hfst hfst'
    exact .inl (hfst.trans hfst'.symm)
  | ok u =>
    rw [hcheck] at hfst hfst'
    cases hroom : (e.scratch.reserve h' ls.length (ceilDiv ls.length e.settings.scanGrain)).1 with
    | error f =>
      rw [hroom] at hfst hfst'
      exact .inl (hfst.trans hfst'.symm)
    | ok u =>
      rw [hroom] at hfst hfst'
      exact .inr ⟨check_eq_ok.1 hcheck, hfst, hfst'⟩

/-- Both kinds of running sums lead to one table or to refusals of one kind, and are charged
alike, whatever the lengths and the state of the engine. As long as the lengths can be counted
in 64 bits, the refusals are one as well. -/
theorem plan_inclusive_exclusive {h h' : Host} (ha : h.Alike h') (e : Engine)
    (lengths : Option (List Int32)) (p : Planner) (outer : Nat) :
    let ends := (e.on h).plan lengths .inclusive p outer
    let starts := (e.on h').plan lengths .exclusive p outer
    (∀ t, ends.1 = .ok t ↔ starts.1 = .ok t) ∧
      (∀ f, ends.1 = .error f → ∃ f', starts.1 = .error f' ∧ f'.kind = f.kind) ∧
      (AllCounted lengths → ends.1 = starts.1) ∧
      ends.2.scratchBytes = starts.2.scratchBytes := by
  intro ends starts
  have hused := congrArg Scratch.used
    (plan_capacities ha e lengths .inclusive .exclusive p outer)
  have hbytes : ends.2.scratchBytes = starts.2.scratchBytes := hused
  have hsame : ends.1 = starts.1 → (∀ t, ends.1 = .ok t ↔ starts.1 = .ok t) ∧
      (∀ f, ends.1 = .error f → ∃ f', starts.1 = .error f' ∧ f'.kind = f.kind) ∧
      (AllCounted lengths → ends.1 = starts.1) ∧
      ends.2.scratchBytes = starts.2.scratchBytes := by
    intro heq
    rw [heq]
    exact ⟨fun _ => Iff.rfl, fun f hf => ⟨f, hf, rfl⟩, fun _ => rfl, hbytes⟩
  cases lengths with
  | none => exact hsame (p.plan_congr ha.report (.whole 1) outer)
  | some ls =>
    rcases plan_modes ha e ls .inclusive .exclusive p outer with heq | ⟨hn, hends, hstarts⟩
    · exact hsame heq
    · have hok : ∀ t, ends.1 = .ok t ↔ starts.1 = .ok t := by
        intro t
        rw [hends, hstarts, planned_eq_ok hn, planned_eq_ok hn, Planner.planLengths_eq_ok,
          Planner.planLengths_eq_ok]
      refine ⟨hok, fun f hf => ?_, fun hc => ?_, hbytes⟩
      · obtain ⟨f', hf', hkind⟩ := (planned_contract p h' .exclusive ls outer).exists_error
          fun t ht => by
            rw [(hok t).2 (hstarts.trans ht)] at hf
            cases hf
        exact ⟨f', hstarts.trans hf', hkind.trans (planned_contract p h _ ls outer f
          (hends.symm.trans hf)).symm⟩
      · rw [hends, hstarts]
        exact planned_modes ha.report hn (hc ls rfl hn) ..

theorem plan_inclusive_exclusive_two_segments :
    (standard.plan (some [3, 2]) .inclusive ⟨.strip, ⟨1, 0⟩, 2⟩ 5).1 =
        .ok ⟨[⟨0, 0, 3⟩, ⟨3, 2, 2⟩], ⟨1, 0⟩, .strip, 2, 5, 3⟩ ∧
      (standard.plan (some [3, 2]) .inclusive ⟨.strip, ⟨1, 0⟩, 2⟩ 5).1 =
        (standard.plan (some [3, 2]) .exclusive ⟨.strip, ⟨1, 0⟩, 2⟩ 5).1 := by
  obtain ⟨-, -, hsame, -⟩ := plan_inclusive_exclusive (h := .sequential) ⟨rfl, rfl⟩ standard
    (some [3, 2]) ⟨.strip, ⟨1, 0⟩, 2⟩ 5
  refine ⟨rfl, hsame ?_⟩
  rintro _ ⟨⟩ -
  exact show 5 < 0x8000000000000000 by decide

/-! ## Past counting -/

/-- What the two kinds of running sums of lengths past counting are refused for. -/
def uncountableFault : ScanMode → Fault
  | .inclusive => .negativeBlocks 1 (-2147483649)
  | .exclusive => .segmentPastInput 0 0 2147483647 2147483645

theorem plan_of_segments {d : Direction} {h : Host} {bounds : Bounds} {f : Fault}
    (hcount : bounds.count = 4294967299)
    (hf : Planner.segments ⟨d, {}, 0⟩ h bounds 2147483645 = .error f) :
    Planner.plan ⟨d, {}, 0⟩ h bounds 2147483645 = .error f := by
  unfold Planner.plan
  rw [hcount, hf]
  cases d <;> rfl

/-- The last sum has wrapped to the number of blocks, so it is the segments that are refused. -/
theorem segments_uncountable (d : Direction) (mode : ScanMode) :
    Planner.segments ⟨d, {}, 0⟩ .sequential
      (boundsOf mode uncountable (serial mode uncountable)) 2147483645 =
        .error (uncountableFault mode) := by
  have hlast : uncountable = List.replicate 4294967298 2147483647 ++ [2147483647] :=
    List.replicate_succ'
  obtain ⟨⟨ends, hends⟩, starts, hstarts⟩ := serial_uncountable
  cases mode with
  | inclusive =>
    have htotal : Planner.inclusiveTotal (serial .inclusive uncountable) = 2147483645 := by
      rw [hlast, Planner.inclusiveTotal_concat, ← hlast, fullTotal_uncountable]
      decide
    simp only [boundsOf, Planner.segments, htotal]
    rw [hends]
    cases d <;> rfl
  | exclusive =>
    have htotal : Planner.exclusiveTotal (serial .exclusive uncountable) uncountable =
        2147483645 := by
      rw [hlast, Planner.exclusiveTotal_concat, fullTotal_replicate]
      decide
    obtain ⟨ls, hls⟩ := uncountable_eq_cons
    simp only [boundsOf, Planner.segments, htotal]
    rw [if_pos (length_serial ..), hstarts, hls]
    cases d <;> rfl

theorem planned_uncountable (d : Direction) (mode : ScanMode) :
    planned ⟨d, {}, 0⟩ .sequential mode uncountable 2147483645 =
      .error (uncountableFault mode) := by
  have hcount : (boundsOf mode uncountable (serial mode uncountable)).count = 4294967299 := by
    cases mode <;> simp only [boundsOf, Bounds.count, length_serial, length_uncountable]
  rw [planned_of_outcome (outcome_uncountable mode)]
  exact plan_of_segments hcount (segments_uncountable d mode)

theorem hasRoom_uncountable : standard.HasRoom uncountable.length := by
  refine standard_unlimited.hasRoom ?_
  rw [length_uncountable]
  exact granting_sequential.grants (by decide)

theorem stripPlan_without_widths {ls : List Int32} (hn : Nonneg ls) (h : Host) (mode : ScanMode)
    (shape : Shape) :
    stripPlan h mode shape (some ls) {} =
      planned ⟨.strip, {}, shape.blockSize⟩ h mode ls shape.outer := by
  have hpadded : Lengths.padded h ls shape.outer {} = .ok ls :=
    bind_eq_ok.2 ⟨0, rfl, if_pos (.inl rfl)⟩
  unfold stripPlan
  simp only [paddedLengths_eq_ok.2 ⟨hn, hpadded⟩]
  rfl

theorem stripPlan_uncountable (mode : ScanMode) {shape : Shape} (ho : shape.outer = 2147483645)
    (hb : shape.blockSize = 0) :
    stripPlan .sequential mode shape (some uncountable) {} = .error (uncountableFault mode) := by
  rw [stripPlan_without_widths nonneg_uncountable, ho, hb]
  exact planned_uncountable .strip mode

/-- Lengths past counting are planned both ways with different refusals. -/
theorem plan_modes_differ :
    (standard.plan (some uncountable) .inclusive ⟨.insert, {}, 0⟩ 2147483645).1 =
        .error (.negativeBlocks 1 (-2147483649)) ∧
      (standard.plan (some uncountable) .exclusive ⟨.insert, {}, 0⟩ 2147483645).1 =
        .error (.segmentPastInput 0 0 2147483647 2147483645) := by
  have hplan : ∀ mode, (standard.plan (some uncountable) mode ⟨.insert, {}, 0⟩ 2147483645).1 =
      .error (uncountableFault mode) := fun mode =>
    (plan_of_room hasRoom_uncountable nonneg_uncountable ..).trans (planned_uncountable ..)
  exact ⟨hplan .inclusive, hplan .exclusive⟩

end Engine

end Ragged
