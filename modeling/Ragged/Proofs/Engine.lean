import Ragged.Proofs.Padding.Rewrite
import Ragged.Proofs.Scratch
import Ragged.Proofs.Shape

/-!
# What an engine plans and builds

A plan is settled by the lengths and the scratch: the kind of running sums does not show.
Once there is a plan, a new batch can only be refused for want of memory; sizes, regions,
lengths and the shape of the result are right.
-/

namespace Ragged

/-- The planner for taking padding of these widths from blocks of `size` elements. -/
abbrev Widths.planner (w : Widths) (size : Nat) : Planner := ⟨.strip, w, size⟩

/-- The padding that a strip takes away is in the batch. -/
theorem Planner.Fits.outBlocks_add {w : Widths} {size outer : Nat} {lens : List Nat}
    (h : (w.planner size).Fits lens outer) :
    ((w.planner size).tableFor lens).outBlocks + lens.length * (w.start + w.stop) = outer := by
  have hsum := (sum_outLen h.holds).2 rfl
  rwa [h.total, Widths.total_eq h.widths] at hsum

theorem Batch.length_eq {α : Type} (b : Batch α) :
    b.data.length = b.shape.outer * b.shape.blockSize :=
  b.size_eq.trans b.shape.numElements_eq

theorem Batch.length_eq_sum {α : Type} (b : Batch α) {lens : List Nat}
    (h : lens.sum = b.shape.outer) : b.data.length = lens.sum * b.shape.blockSize := by
  rw [h, b.length_eq]

theorem Batch.ext_data {α : Type} {b c : Batch α} (hs : b.shape = c.shape)
    (hd : b.data = c.data) : b = c := by
  cases b; cases c
  cases hs; cases hd
  rfl

namespace Engine

open Lengths Scan

variable {e : Engine}

/-- The engine with the default settings, before its first call. -/
def standard : Engine := ⟨{}, rfl, { limit := Settings.scratchBytes {} }, .sequential⟩

def threeBlocks : Batch UInt8 :=
  ⟨⟨3, [2], by decide, by decide⟩, [1, 2, 3, 4, 5, 6], by decide⟩

theorem elementGrain_pos (e : Engine) : 0 < e.settings.elementGrain :=
  (Settings.check_eq_ok.1 e.valid).2.2.1

theorem scanGrain_pos (e : Engine) : 0 < e.settings.scanGrain :=
  (Settings.check_eq_ok.1 e.valid).2.2.2

/-- The scratch limit and the host let `n` lengths be scanned. -/
def HasRoom (e : Engine) (n : Nat) : Prop :=
  (e.scratch.reserve e.host n (ceilDiv n e.settings.scanGrain)).1 = .ok ()

def HasRoomFor (e : Engine) (lengths : Option (List Int32)) : Prop :=
  ∀ ls ∈ lengths, e.HasRoom ls.length

theorem hasRoomFor_some {ls : List Int32} : e.HasRoomFor (some ls) ↔ e.HasRoom ls.length := by
  simp [HasRoomFor]

/-! ## Engines without a scratch limit -/

section Unlimited

open Scratch

/-- No scratch limit is set, and what has been charged is what the scratch holds. -/
structure Unlimited (e : Engine) : Prop where
  unset : e.settings.scratchLimit = none
  limit : e.scratch.limit = e.settings.scratchBytes
  accounts : e.scratch.Accounts

def Grants (e : Engine) (n : Nat) : Prop := Backed e.host n (ceilDiv n e.settings.scanGrain)

theorem unlimited_of_new {settings : Settings} {host : Host} (h : new settings host = .ok e)
    (hs : settings.scratchLimit = none) : e.Unlimited := by
  unfold new at h
  split at h
  · cases h
    exact ⟨hs, rfl, rfl, Nat.zero_le _, Nat.zero_le _, Nat.zero_le _⟩
  · cases h

theorem standard_unlimited : standard.Unlimited :=
  unlimited_of_new (show new {} .sequential = .ok standard from rfl) rfl

/-- Without a limit only memory can stand in the way of a scan. -/
theorem Unlimited.hasRoom (h : e.Unlimited) {n : Nat} (hg : e.Grants n) : e.HasRoom n := by
  have hle : e.scratch.grownBytes n (ceilDiv n e.settings.scanGrain) ≤ e.scratch.limit := by
    rw [h.limit, Settings.scratchBytes, h.unset]
    exact h.accounts.grownBytes_le hg
  unfold HasRoom
  rw [reserve_of_le h.accounts hg hle]

theorem Unlimited.hasRoomFor (h : e.Unlimited) {lengths : Option (List Int32)}
    (hg : ∀ ls ∈ lengths, e.Grants ls.length) : e.HasRoomFor lengths :=
  fun ls hl => h.hasRoom (hg ls hl)

end Unlimited

/-! ## Plans -/

/-- What a plan comes back with once the scratch has room. -/
def planned (p : Planner) (h : Host) (mode : ScanMode) (ls : List Int32) (outer : Nat) :
    Except Fault Table :=
  match outcome mode ls with
  | .error f => .error f
  | .ok sums => p.plan h (boundsOf mode ls sums) outer

theorem planned_of_outcome {p : Planner} {h : Host} {mode : ScanMode} {ls sums : List Int32}
    {outer : Nat} (hs : outcome mode ls = .ok sums) :
    planned p h mode ls outer = p.plan h (boundsOf mode ls sums) outer := by
  rw [planned, hs]

/-- Lengths that can be counted are planned one after the other, whichever way they have been
summed up. -/
theorem planned_of_counted {p : Planner} {h : Host} {mode : ScanMode} {ls : List Int32}
    {outer : Nat} (hn : Nonneg ls) (hc : Counted ls) :
    planned p h mode ls outer =
      if maxLength < (counts ls).sum then .error (.lengthsOverflow (counts ls).sum)
      else p.planLengths h (counts ls) outer := by
  unfold planned outcome
  rw [toInt_total hn hc]
  by_cases hmax : maxLength < (counts ls).sum
  · rw [if_pos hmax, if_pos (Int.ofNat_lt.2 hmax)]
  · rw [if_neg hmax, if_neg (fun hlt => hmax (Int.ofNat_lt.1 hlt))]
    exact p.plan_boundsOf h mode hn (Nat.le_of_not_lt hmax) outer

theorem planned_eq_ok {p : Planner} {h : Host} {mode : ScanMode} {ls : List Int32} {outer : Nat}
    {t : Table} (hn : Nonneg ls) :
    planned p h mode ls outer = .ok t ↔
      (counts ls).sum ≤ maxLength ∧ p.planLengths h (counts ls) outer = .ok t := by
  by_cases hc : Counted ls
  · rw [planned_of_counted hn hc]
    split
    · rename_i hmax
      simp only [reduceCtorEq, false_iff, not_and]
      intro hle
      omega
    · rename_i hmax
      rw [and_iff_right (Nat.le_of_not_lt hmax)]
  · refine iff_of_false (fun hp => ?_) fun hr => hc (Nat.lt_of_le_of_lt hr.1 (by decide))
    unfold planned outcome at hp
    split at hp
    · cases hp
    · rename_i sums hsums
      split at hsums <;> cases hsums
      exact p.plan_boundsOf_uncounted h mode hn hc outer t hp

theorem scan_fst (e : Engine) (ls : List Int32) (mode : ScanMode) :
    (e.scan ls mode).1 =
      match check ls with
      | .error f => .error f
      | .ok () =>
        match (e.scratch.reserve e.host ls.length (ceilDiv ls.length e.settings.scanGrain)).1 with
        | .error f => .error f
        | .ok () => outcome mode ls :=
  run_fst e.scanGrain_pos e.host ls e.scratch

/-- Where there is room, only the lengths decide what a scan comes to. -/
theorem scan_of_room {ls : List Int32} (h : e.HasRoom ls.length) (mode : ScanMode) :
    (e.scan ls mode).1 = check ls >>= fun _ => outcome mode ls := by
  unfold HasRoom at h
  rw [scan_fst, h]
  cases check ls <;> rfl

theorem scan_accounts (h : e.scratch.Accounts) (ls : List Int32) (mode : ScanMode) :
    (e.scan ls mode).2.scratch.Accounts ∧
      (e.scan ls mode).2.scratch.limit = e.scratch.limit := by
  have hscan : (e.scan ls mode).2.scratch.emptied = _ :=
    run_snd e.scanGrain_pos e.host ls e.scratch
  cases hc : check ls with
  | error f =>
    rw [hc] at hscan
    exact h.of_emptied hscan
  | ok u =>
    obtain ⟨hacc, hlimit⟩ :=
      h.reserve e.host ls.length (ceilDiv ls.length e.settings.scanGrain)
    rw [hc] at hscan
    rw [← hlimit]
    exact hacc.of_emptied hscan

theorem plan_fst (e : Engine) (ls : List Int32) (mode : ScanMode) (p : Planner) (outer : Nat) :
    (e.plan (some ls) mode p outer).1 =
      match check ls with
      | .error f => .error f
      | .ok () =>
        match (e.scratch.reserve e.host ls.length (ceilDiv ls.length e.settings.scanGrain)).1 with
        | .error f => .error f
        | .ok () => planned p e.host mode ls outer := by
  have hscan := e.scan_fst ls mode
  have hhost : (e.scan ls mode).2.host = e.host := rfl
  rw [plan]
  generalize e.scan ls mode = scanned at hscan hhost
  obtain ⟨sums, e'⟩ := scanned
  simp only at hscan hhost
  subst hscan
  cases check ls with
  | error f => rfl
  | ok u =>
    cases (e.scratch.reserve e.host ls.length (ceilDiv ls.length e.settings.scanGrain)).1 with
    | error f => rfl
    | ok u =>
      simp only [planned]
      cases outcome mode ls with
      | error f => rfl
      | ok sums => simp only [hhost]

theorem plan_of_room {ls : List Int32} (h : e.HasRoom ls.length) (hn : Nonneg ls)
    (mode : ScanMode) (p : Planner) (outer : Nat) :
    (e.plan (some ls) mode p outer).1 = planned p e.host mode ls outer := by
  unfold HasRoom at h
  rw [plan_fst, check_eq_ok.2 hn, h]

theorem plan_snd (e : Engine) (ls : List Int32) (mode : ScanMode) (p : Planner) (outer : Nat) :
    (e.plan (some ls) mode p outer).2 = (e.scan ls mode).2 := by
  rw [plan]
  obtain ⟨sums, e'⟩ := e.scan ls mode
  cases sums <;> rfl

theorem plan_kept (e : Engine) (lengths : Option (List Int32)) (mode : ScanMode) (p : Planner)
    (outer : Nat) :
    (e.plan lengths mode p outer).2.settings = e.settings ∧
      (e.plan lengths mode p outer).2.host = e.host := by
  cases lengths with
  | none => exact ⟨rfl, rfl⟩
  | some ls =>
    rw [plan_snd]
    exact ⟨rfl, rfl⟩

theorem planAdd_kept {α : Type} (e : Engine) (shape : Shape) (lengths : Option (List Int32))
    (p : Padding α) :
    (e.planAdd shape lengths p).2.settings = e.settings ∧
      (e.planAdd shape lengths p).2.host = e.host := by
  unfold planAdd
  cases p.checkFills shape.blockSize with
  | error f => exact ⟨rfl, rfl⟩
  | ok u => exact plan_kept ..

theorem planStrip_kept (e : Engine) (mode : ScanMode) (shape : Shape)
    (lengths : Option (List Int32)) (w : Widths) :
    (e.planStrip mode shape lengths w).2.settings = e.settings ∧
      (e.planStrip mode shape lengths w).2.host = e.host := by
  cases lengths with
  | none => exact ⟨rfl, rfl⟩
  | some ls =>
    rw [planStrip]
    cases paddedLengths e.host ls shape.outer w with
    | error f => exact ⟨rfl, rfl⟩
    | ok ls => exact plan_kept ..

theorem plan_some_eq_ok {ls : List Int32} {mode : ScanMode} {p : Planner} {outer : Nat}
    {t : Table} :
    (e.plan (some ls) mode p outer).1 = .ok t ↔
      e.HasRoom ls.length ∧ Nonneg ls ∧ (counts ls).sum ≤ maxLength ∧
        p.planLengths e.host (counts ls) outer = .ok t := by
  rw [plan_fst, HasRoom]
  cases hc : check ls with
  | error f =>
    have hneg : ¬ Nonneg ls := fun hn => by rw [check_eq_ok.2 hn] at hc; cases hc
    simp [hneg]
  | ok u =>
    have hn := check_eq_ok.1 hc
    cases (e.scratch.reserve e.host ls.length (ceilDiv ls.length e.settings.scanGrain)).1 with
    | error f => simp
    | ok u =>
      simp only [true_and]
      rw [planned_eq_ok hn, and_iff_right hn]

theorem plan_eq_ok {lengths : Option (List Int32)} {mode : ScanMode} {p : Planner} {outer : Nat}
    {t : Table} (ho : outer ≤ maxLength) :
    (e.plan lengths mode p outer).1 = .ok t ↔
      e.HasRoomFor lengths ∧ Nonneg (orWhole outer lengths) ∧
        p.planLengths e.host (counts (orWhole outer lengths)) outer = .ok t := by
  cases lengths with
  | none =>
    obtain ⟨hn, hc⟩ := orWhole_none ho
    unfold plan
    rw [hc, p.plan_whole]
    exact ⟨fun h => ⟨fun _ hl => (nomatch hl), hn, h⟩, fun h => h.2.2⟩
  | some ls =>
    rw [plan_some_eq_ok, hasRoomFor_some, orWhole, Option.getD_some]
    refine and_congr_right fun _ => and_congr_right fun _ => ?_
    refine and_iff_right_of_imp fun hp => ?_
    rw [(Planner.planLengths_eq_ok.1 hp).1.total]
    exact ho

theorem paddedLengths_eq_ok {h : Host} {ls ls' : List Int32} {outer : Nat} {w : Widths} :
    paddedLengths h ls outer w = .ok ls' ↔
      Nonneg ls ∧ Lengths.padded h ls outer w = .ok ls' := by
  unfold paddedLengths
  rw [bind_eq_ok]
  refine ⟨?_, ?_⟩
  · intro h
    rcases h with ⟨⟨⟩, hcheck, hpadded⟩
    exact ⟨check_eq_ok.1 hcheck, hpadded⟩
  · intro h
    rcases h with ⟨hn, hpadded⟩
    exact ⟨(), check_eq_ok.2 hn, hpadded⟩

theorem paddedLengths_host {h : Host} {ls ls' : List Int32} {outer : Nat} {w : Widths}
    (h' : Host) (hp : paddedLengths h ls outer w = .ok ls') :
    paddedLengths h' ls outer w = .ok ls' := by
  obtain ⟨hn, hpadded⟩ := paddedLengths_eq_ok.1 hp
  exact paddedLengths_eq_ok.2 ⟨hn, padded_host h' hpadded⟩

/-- A basis loses no blocks, so lengths past counting are not planned in either. -/
theorem counted_of_planStrip {mode : ScanMode} {shape : Shape} {ls : List Int32} {w : Widths}
    {t : Table} (h : (e.planStrip mode shape (some ls) w).1 = .ok t) :
    Nonneg ls ∧ w.start + w.stop ≤ maxLength ∧ Counted ls := by
  unfold planStrip at h
  cases hp : paddedLengths e.host ls shape.outer w with
  | error f => simp only [hp, reduceCtorEq] at h
  | ok ls' =>
    simp only [hp] at h
    obtain ⟨hn, hpadded⟩ := paddedLengths_eq_ok.1 hp
    obtain ⟨-, -, hmax, -⟩ := plan_some_eq_ok.1 h
    have hle := (nonneg_padded hn hpadded).2
    exact ⟨hn, widths_of_padded hpadded, Nat.lt_of_le_of_lt hle (outer_lt hmax)⟩

theorem planStrip_eq_ok {mode : ScanMode} {shape : Shape} {lengths : Option (List Int32)}
    {w : Widths} {t : Table} :
    (e.planStrip mode shape lengths w).1 = .ok t ↔
      ∃ lens, (PaddedBasis shape.outer (w.start + w.stop) lengths lens ∧ e.HasRoomFor lengths ∧
        (w.planner shape.blockSize).Fits lens shape.outer) ∧
        t = (w.planner shape.blockSize).tableFor lens := by
  cases lengths with
  | none =>
    obtain ⟨hn, hc⟩ := orWhole_none shape.outer_le
    unfold planStrip
    rw [plan_eq_ok shape.outer_le, Planner.planLengths_eq_ok, hc]
    refine ⟨?_, ?_⟩
    · intro hr
      rcases hr with ⟨hroom, -, hfit, rfl⟩
      exact ⟨_, ⟨.whole, hroom, hfit⟩, rfl⟩
    · intro hr
      rcases hr with ⟨_, ⟨⟨⟩, hroom, hfit⟩, rfl⟩
      exact ⟨hroom, hn, hfit, rfl⟩
  | some ls =>
    by_cases hok : Nonneg ls ∧ w.start + w.stop ≤ maxLength ∧ Counted ls
    · obtain ⟨hn, hw, hc⟩ := hok
      obtain ⟨ls', hpadded, hbasis⟩ := exists_padded (h := e.host) hw shape.outer_le hn hc
      rw [planStrip, paddedLengths_eq_ok.2 ⟨hn, hpadded⟩]
      simp only
      rw [plan_eq_ok shape.outer_le, Planner.planLengths_eq_ok, hasRoomFor_some,
        length_padded hpadded, ← hasRoomFor_some, orWhole, Option.getD_some]
      refine ⟨?_, ?_⟩
      · intro hr
        rcases hr with ⟨hroom, -, hfit, rfl⟩
        exact ⟨_, ⟨(hbasis _).2 ⟨rfl, hfit.total⟩, hroom, hfit⟩, rfl⟩
      · intro hr
        rcases hr with ⟨_, ⟨hlens, hroom, hfit⟩, rfl⟩
        obtain ⟨rfl, -⟩ := (hbasis _).1 hlens
        exact ⟨hroom, (nonneg_padded hn hpadded).1, hfit, rfl⟩
    · refine ⟨fun hr => absurd (counted_of_planStrip hr) hok, ?_⟩
      rintro ⟨_, ⟨hlens, -, hfit⟩, -⟩
      exact absurd ⟨hlens.nonneg, hfit.widths, hlens.counted shape.outer_le⟩ hok

/-- A call launches on the table it has planned, on the engine that planning leaves. -/
theorem launched_eq_ok {β : Type} {x : Except Fault Table × Engine}
    {launch : Engine → Table → Except Fault β} {P Q : Table → Prop} {r : β}
    (hplan : ∀ t, x.1 = .ok t ↔ P t) (hlaunch : ∀ t, P t → (launch x.2 t = .ok r ↔ Q t)) :
    (match (motive := Except Fault Table × Engine → Except Fault β × Engine) x with
      | (.error f, e) => (.error f, e)
      | (.ok t, e) => (launch e t, e)).1 = .ok r ↔ ∃ t, P t ∧ Q t := by
  obtain ⟨planned, e⟩ := x
  cases planned with
  | error f =>
    simp only [reduceCtorEq, false_iff] at hplan ⊢
    rintro ⟨t, ht, -⟩
    exact hplan t ht
  | ok t =>
    simp only [Except.ok.injEq] at hplan ⊢
    refine ⟨?_, ?_⟩
    · intro h
      have ht := (hplan t).1 rfl
      exact ⟨t, ht, (hlaunch t ht).1 h⟩
    · intro hr
      rcases hr with ⟨t', ht, hq⟩
      obtain rfl := (hplan t').2 ht
      exact (hlaunch t ht).2 hq

theorem launched_of_error {β : Type} {x : Except Fault Table × Engine}
    {launch : Engine → Table → Except Fault β} {f : Fault} (h : x.1 = .error f) :
    (match (motive := Except Fault Table × Engine → Except Fault β × Engine) x with
      | (.error f, e) => (.error f, e)
      | (.ok t, e) => (launch e t, e)).1 = .error f := by
  obtain ⟨planned, e⟩ := x
  cases h
  rfl

theorem launched_of_ok {β : Type} {x : Except Fault Table × Engine}
    {launch : Engine → Table → Except Fault β} {t : Table} (h : x.1 = .ok t) :
    (match (motive := Except Fault Table × Engine → Except Fault β × Engine) x with
      | (.error f, e) => (.error f, e)
      | (.ok t, e) => (launch e t, e)).1 = launch x.2 t := by
  obtain ⟨planned, e⟩ := x
  cases h
  rfl

theorem launched_congr {β : Type} {x y : Except Fault Table × Engine} {refuse : Fault → β}
    {launch : Engine → Table → β} (h : x.1 = y.1)
    (hl : ∀ t, x.1 = .ok t → launch x.2 t = launch y.2 t) :
    (match (motive := Except Fault Table × Engine → β × Engine) x with
      | (.error f, e) => (refuse f, e)
      | (.ok t, e) => (launch e t, e)).1 =
    (match (motive := Except Fault Table × Engine → β × Engine) y with
      | (.error f, e) => (refuse f, e)
      | (.ok t, e) => (launch e t, e)).1 := by
  obtain ⟨planned, e⟩ := x
  obtain ⟨planned', m⟩ := y
  cases h
  cases planned with
  | error f => rfl
  | ok t => exact hl t rfl

/-! ## New batches -/

variable {α : Type} [Element α]

/-- Memory for a new batch, for the lengths of its segments and for the list of their regions
can be had. -/
structure GivesBatch (h : Host) (α : Type) [Element α] (elements segments : Nat) : Prop where
  output : h.Gives .output (elements * Element.size α)
  lengths : h.Gives .lengths (segments * Element.size Int32)
  regions : h.Gives .regions (segments * Carving.regionBytes)

def Granting (h : Host) : Prop := ∀ need bytes, h.grants need bytes = true

theorem Granting.gives {h : Host} (hg : Granting h) {need : Need} {bytes : Nat}
    (hb : bytes ≤ maxBufferBytes) : h.Gives need bytes :=
  ⟨hb, .inr (hg need bytes)⟩

theorem Granting.grants (hg : Granting e.host) {n : Nat}
    (hn : Scratch.partialBytes * n ≤ maxBufferBytes) : e.Grants n := by
  have hchunks : ceilDiv n e.settings.scanGrain ≤ n := ceilDiv_le e.scanGrain_pos
  unfold Scratch.partialBytes at hn
  refine ⟨hg.gives ?_, hg.gives ?_⟩
  · unfold Scratch.sumBytes
    omega
  · unfold Scratch.partialBytes
    omega

theorem Granting.givesBatch {h : Host} (hg : Granting h) {elements segments : Nat}
    (ho : elements * Element.size α ≤ maxBufferBytes)
    (hs : segments * Carving.regionBytes ≤ maxBufferBytes) :
    GivesBatch h α elements segments := by
  have hlengths : segments * Element.size Int32 ≤ segments * Carving.regionBytes :=
    Nat.mul_le_mul_left _ (by decide)
  exact ⟨hg.gives ho, hg.gives (Nat.le_trans hlengths hs), hg.gives hs⟩

theorem granting_sequential : Granting .sequential := fun _ _ => rfl

/-- What one host has given memory for, one that grants all gives memory for, and for less. -/
theorem GivesBatch.of_granting {h h' : Host} {elements elements' segments : Nat}
    (hb : GivesBatch h α elements segments) (hg : Granting h') (hle : elements' ≤ elements) :
    GivesBatch h' α elements' segments :=
  hg.givesBatch (Nat.le_trans (Nat.mul_le_mul_right _ hle) hb.output.1) hb.regions.1

/-- A list of regions takes more memory than the scan of their lengths. -/
theorem GivesBatch.grants {h : Host} {elements segments : Nat}
    (hb : GivesBatch h α elements segments) (hg : Granting e.host) : e.Grants segments := by
  have hregions := hb.regions.1
  unfold Carving.regionBytes at hregions
  refine hg.grants ?_
  unfold Scratch.partialBytes
  omega

/-- `r` is a new batch of `outer` blocks like those of `shape`, and the lengths of its
segments. There was memory for it. -/
structure Built (h : Host) (shape : Shape) (outer : Nat) (data : List α) (lens : List Nat)
    (r : Segmented α) : Prop where
  memory : GivesBatch h α (outer * shape.blockSize) lens.length
  outer : r.batch.shape.outer = outer
  block : r.batch.shape.block = shape.block
  data : r.batch.data = data
  lengths : r.lengths = ofCounts lens

theorem Built.dims_eq {h : Host} {shape : Shape} {outer : Nat} {data : List α} {lens : List Nat}
    {r : Segmented α} (hb : Built h shape outer data lens r) :
    r.batch.shape.dims = outer :: shape.block := by
  unfold Shape.dims
  rw [hb.outer, hb.block]

theorem Built.congr {h : Host} {shape shape' : Shape} {outer outer' : Nat} {data data' : List α}
    {lens lens' : List Nat} {r : Segmented α} (hb : Built h shape outer data lens r)
    (hs : shape'.block = shape.block) (ho : outer' = outer) (hd : data' = data)
    (hl : lens' = lens) : Built h shape' outer' data' lens' r := by
  subst ho hd hl
  exact ⟨Shape.blockSize_congr hs ▸ hb.memory, hb.outer, hb.block.trans hs.symm, hb.data,
    hb.lengths⟩

theorem Built.granted {h h' : Host} {shape : Shape} {outer : Nat} {data : List α}
    {lens : List Nat} {r : Segmented α} (hb : Built h shape outer data lens r)
    (hg : Granting h') : Built h' shape outer data lens r :=
  { hb with memory := hb.memory.of_granting hg (Nat.le_refl _) }

section New

variable {h : Host} {shape : Shape} {p : Planner} {lens : List Nat}
  {write : Segment → List α → Except Fault (List α)} {content : Segment → List α}

theorem numSegments_tableFor (p : Planner) (lens : List Nat) :
    (p.tableFor lens).numSegments = lens.length :=
  p.length_placed 0 0 lens

theorem exists_built (hfit : p.Fits lens shape.outer) (hs : p.blockSize = shape.blockSize)
    (hw : (p.tableFor lens).Writes write content (p.tableFor lens).segments)
    (hmem : GivesBatch h α (p.tableFor lens).outElements lens.length) :
    ∃ r, Built h shape (p.tableFor lens).outBlocks
      ((p.tableFor lens).segments.flatMap content) (lens.map p.outLen) r := by
  obtain ⟨hout, hel⟩ := hfit.outBlocks_le shape.outer_le
  obtain ⟨shape', hshape⟩ := Shape.exists_withOuter hout (hs ▸ hel)
  obtain ⟨-, -, houter, hblock⟩ := Shape.withOuter_eq_ok.1 hshape
  have hdata := (p.tableFor_tiles lens).length_flatMap hw
  rw [Nat.zero_mul, Nat.zero_add] at hdata
  have hsize : ((p.tableFor lens).segments.flatMap content).length = shape'.numElements := by
    rw [hdata, Shape.numElements_eq, houter, Shape.blockSize_congr hblock, ← hs]
    rfl
  have hmem' : GivesBatch h α ((p.tableFor lens).outBlocks * shape.blockSize)
      (lens.map p.outLen).length := by
    rw [List.length_map, ← hs]
    exact hmem
  exact ⟨⟨⟨shape', _, hsize⟩, _⟩, hmem', houter, hblock, rfl, rfl⟩

omit [Element α] in
theorem rewrite_planned (hfit : p.Fits lens shape.outer) (hs : p.blockSize = shape.blockSize)
    (hw : (p.tableFor lens).Writes write content (p.tableFor lens).segments) {input : List α}
    (hin : input.length = shape.outer * shape.blockSize) {b : Buffers α}
    (hout : b.out.length = (p.tableFor lens).outElements)
    (hlens : Buffers.checkLengths (p.tableFor lens) b.lengths = .ok ())
    (hmem : Buffers.GivesRegions h (p.tableFor lens)) :
    (Buffers.rewrite (p.tableFor lens) h write input).on b =
      (.ok (), ⟨(p.tableFor lens).segments.flatMap content,
        b.lengths.map fun _ => ofCounts (lens.map p.outLen)⟩) := by
  have hnew : Buffers.newLengths (p.tableFor lens) h b.lengths =
      .ok (b.lengths.map fun _ => ofCounts (lens.map p.outLen)) := by
    unfold Buffers.newLengths
    cases b.lengths with
    | none => rfl
    | some ls =>
      rw [hfit.newLengths_eq h shape.outer_le]
      rfl
  have hin' : input.length = (p.tableFor lens).inElements := by
    rw [hin, ← hfit.total, ← hs]
    rfl
  exact Buffers.rewrite_tiles (p.tableFor_tiles lens) hw hin' hout hlens hnew hmem

theorem rewriteNew_of_built (hfit : p.Fits lens shape.outer) (hs : p.blockSize = shape.blockSize)
    (hw : (p.tableFor lens).Writes write content (p.tableFor lens).segments) {input : List α}
    (hin : input.length = shape.outer * shape.blockSize) {r : Segmented α}
    (hb : Built h shape (p.tableFor lens).outBlocks
      ((p.tableFor lens).segments.flatMap content) (lens.map p.outLen) r) :
    rewriteNew h shape (p.tableFor lens)
      (Buffers.rewrite (p.tableFor lens) h write input).on = .ok r := by
  obtain ⟨⟨hmem, hmemLengths, hmemRegions⟩, houter, hblock, hdata, hlengths⟩ := hb
  obtain ⟨hout, hel⟩ := hfit.outBlocks_le shape.outer_le
  have hshape : shape.withOuter (p.tableFor lens).outBlocks = .ok r.batch.shape :=
    Shape.withOuter_eq_ok.2 ⟨hout, hs ▸ hel, houter, hblock⟩
  rw [List.length_map] at hmemLengths hmemRegions
  have hz : zeroed α h .output (p.tableFor lens).outElements =
      .ok (List.replicate (p.tableFor lens).outElements Element.zero) :=
    zeroed_eq_ok.2 ⟨by rwa [← hs] at hmem, rfl⟩
  have hzLengths : zeroed Int32 h .lengths (p.tableFor lens).numSegments =
      .ok (List.replicate (p.tableFor lens).numSegments Element.zero) :=
    zeroed_eq_ok.2 ⟨by rwa [numSegments_tableFor], rfl⟩
  have hlaunch := rewrite_planned (h := h) hfit hs hw hin
    (b := ⟨List.replicate (p.tableFor lens).outElements Element.zero,
      some (List.replicate (p.tableFor lens).numSegments Element.zero)⟩)
    List.length_replicate (by simp [Buffers.checkLengths])
    (by rwa [Buffers.GivesRegions, numSegments_tableFor])
  unfold rewriteNew
  rw [hz, hzLengths]
  simp only [bind, Except.bind, hlaunch, hshape, Batch.ofShape]
  rw [← hdata, dif_pos r.batch.size_eq, ← hlengths]
  rfl

theorem exists_rewriteNew (hfit : p.Fits lens shape.outer) (hs : p.blockSize = shape.blockSize)
    (hw : (p.tableFor lens).Writes write content (p.tableFor lens).segments) {input : List α}
    (hin : input.length = shape.outer * shape.blockSize)
    (hmem : GivesBatch h α (p.tableFor lens).outElements lens.length) :
    ∃ r, rewriteNew h shape (p.tableFor lens)
        (Buffers.rewrite (p.tableFor lens) h write input).on = .ok r ∧
      Built h shape (p.tableFor lens).outBlocks
        ((p.tableFor lens).segments.flatMap content) (lens.map p.outLen) r := by
  obtain ⟨r, hbuilt⟩ := exists_built hfit hs hw hmem
  exact ⟨r, rewriteNew_of_built hfit hs hw hin hbuilt, hbuilt⟩

/-- A new batch can only be refused for want of memory. -/
theorem rewriteNew_eq_ok (hfit : p.Fits lens shape.outer) (hs : p.blockSize = shape.blockSize)
    (hw : (p.tableFor lens).Writes write content (p.tableFor lens).segments) {input : List α}
    (hin : input.length = shape.outer * shape.blockSize) {r : Segmented α} :
    rewriteNew h shape (p.tableFor lens)
        (Buffers.rewrite (p.tableFor lens) h write input).on = .ok r ↔
      Built h shape (p.tableFor lens).outBlocks
        ((p.tableFor lens).segments.flatMap content) (lens.map p.outLen) r := by
  refine ⟨?_, rewriteNew_of_built hfit hs hw hin⟩
  intro hr
  obtain ⟨out, hz, ls, hzLengths, hlaunch⟩ := by simpa only [rewriteNew, bind_eq_ok] using hr
  have hregions : Buffers.GivesRegions h (p.tableFor lens) := by
    by_contra hno
    have hlaunched : Buffers.Launched ⟨out, some ls⟩ h (p.tableFor lens) input _ _ :=
      Buffers.rewrite_launched fun _ => hw.overwrites
    obtain ⟨f, hf⟩ := hlaunched.refused.2 (.memory hno)
    generalize (Buffers.rewrite (p.tableFor lens) h write input).on ⟨out, some ls⟩ = ran
      at hlaunch hf
    obtain ⟨_, b⟩ := ran
    cases hf
    cases hlaunch
  rw [Buffers.GivesRegions, numSegments_tableFor] at hregions
  have hmem : GivesBatch h α (p.tableFor lens).outElements lens.length :=
    ⟨(zeroed_eq_ok.1 hz).1, numSegments_tableFor p lens ▸ (zeroed_eq_ok.1 hzLengths).1, hregions⟩
  obtain ⟨r', hr', hbuilt⟩ := exists_rewriteNew (h := h) hfit hs hw hin hmem
  rw [hr'] at hr
  cases hr
  exact hbuilt

end New

end Engine

end Ragged
