import Ragged.Proofs.Padding.Grains
import Ragged.Proofs.Padding.Launch

/-!
# Calls on the caller's buffers

A call on the caller's buffers and the call with new ones plan alike and launch by the same
table, so they differ only in the buffers: the caller's can be of the wrong size and hold
anything. Buffers of the planned size end up with exactly what the other call returns, and
buffers of a refused call are as before. The two calls run on hosts of their own, which report
the same of several faults and grant the same memory.
-/

namespace Ragged

open Lengths

variable {α β γ : Type}

structure Buffers.Sized (b : Buffers α) (t : Table) : Prop where
  out : b.out.length = t.outElements
  lengths : ∀ ls, b.lengths = some ls → ls.length = t.numSegments

/-- Sizes are looked at first. -/
theorem Buffers.rewrite_of_not_sized {b : Buffers α} {t : Table} {input : List α}
    (h : ¬ b.Sized t) (host : Host) (write : Segment → List α → Except Fault (List α)) :
    ∃ f, (rewrite t host write input).on b = (.error f, b) ∧ f.kind = .contract := by
  obtain ⟨f, hf, hkind⟩ := (b.check_contract t input).exists_error fun ⟨⟩ hok => by
    obtain ⟨-, hout, hlengths⟩ := check_eq_ok.1 hok
    exact h ⟨hout, hlengths⟩
  refine ⟨f, rewrite_on_of_error ?_, hkind⟩
  rw [prepare, hf]
  rfl

/-- A batch and its lengths in the buffers `b`; the lengths only where they are asked for. -/
def Segmented.into (b : Buffers α) (r : Segmented α) : Buffers α :=
  ⟨r.batch.data, b.lengths.map fun _ => r.lengths⟩

namespace Gathered

def Sized (g : Gathered α) (t : Table) : Prop := ∀ buffer ∈ g.buffers, buffer.length = t.blockSize

def mode : Gathered α → GatherMode
  | separate .. => .separate
  | merged _ => .merged

end Gathered

theorem PadSums.narrow_zeros [Element α] (sums : PadSums α) (size : Nat) (target : Gathered α) :
    sums.narrow (Gathered.zeros α size target.mode) = sums.narrow target := by
  cases target <;> rfl

namespace Engine

/-- A launch `into` the caller's buffers `b` does what the launch `new` does with its own, when
these are granted: what is left in the buffers holds what that returns. -/
structure LaunchAgrees (sized granted : Prop) (new : Except Fault β) (holds : β → γ → Prop)
    (b : γ) (into : Except Fault Unit × γ) : Prop where
  same : sized → granted → ∃ r, new = .ok r ∧ into.1 = .ok () ∧ holds r into.2
  sized : ¬ sized → ∃ f, into.1 = .error f ∧ f.kind = .contract
  kept : ∀ f, into.1 = .error f → into.2 = b

/-- A call `into` the caller's buffers `b` does what the call `new` does: both are refused
alike, or both succeed and the buffers hold what the other returns. Only a buffer of another
size than the planned one makes a difference. -/
structure Agrees (planned : Except Fault Table) (sized granted : Table → Prop)
    (new : Except Fault β × Engine) (holds : β → γ → Prop) (b : γ)
    (into : (Except Fault Unit × γ) × Engine) : Prop where
  same : (∀ t, planned = .ok t → sized t ∧ granted t) →
    (∃ r, new.1 = .ok r ∧ into.1.1 = .ok () ∧ holds r into.1.2) ∨
      ∃ f, new.1 = .error f ∧ into.1 = (.error f, b)
  sized : ∀ t, planned = .ok t → ¬ sized t → ∃ f, into.1.1 = .error f ∧ f.kind = .contract
  kept : ∀ f, into.1.1 = .error f → into.1.2 = b
  scratch : into.2.scratch = new.2.scratch

/-- Calls that plan alike agree when their launches do. -/
theorem agrees_of_launch {x : Except Fault Table × Engine} {host : Host}
    {sized granted : Table → Prop} {launch : Engine → Table → Except Fault Unit × γ}
    {new : Engine → Table → Except Fault β} {holds : β → γ → Prop} {b : γ}
    (h : ∀ t, x.1 = .ok t →
      LaunchAgrees (sized t) (granted t) (new (x.2.on host) t) holds b (launch x.2 t)) :
    Agrees x.1 sized granted
      (match (motive := Except Fault Table × Engine → Except Fault β × Engine)
          (x.1, x.2.on host) with
        | (.error f, e) => (.error f, e)
        | (.ok t, e) => (new e t, e)) holds b
      (match (motive := Except Fault Table × Engine → (Except Fault Unit × γ) × Engine) x with
        | (.error f, e) => ((.error f, b), e)
        | (.ok t, e) => (launch e t, e)) := by
  obtain ⟨planned, e⟩ := x
  cases planned with
  | error f => exact ⟨fun _ => .inr ⟨f, rfl, rfl⟩, fun _ ht => (nomatch ht), fun _ _ => rfl, rfl⟩
  | ok t =>
    obtain ⟨hsame, hsized, hkept⟩ := h t rfl
    refine ⟨fun hall => ?_, fun t' ht => ?_, hkept, rfl⟩
    · obtain ⟨hs, hg⟩ := hall t rfl
      exact .inl (hsame hs hg)
    · cases ht
      exact hsized

/-! ## Launches -/

section Launches

variable [Element α]

theorem rewrite_agrees {h : Host} {shape : Shape} {p : Planner} {lens : List Nat}
    (hfit : p.Fits lens shape.outer) (hs : p.blockSize = shape.blockSize)
    {write : Segment → List α → Except Fault (List α)} {content : Segment → List α}
    (hw : (p.tableFor lens).Writes write content (p.tableFor lens).segments) {input : List α}
    (hin : input.length = shape.outer * shape.blockSize) (b : Buffers α) :
    LaunchAgrees (b.Sized (p.tableFor lens))
      (GivesBatch h α (p.tableFor lens).outElements (p.tableFor lens).numSegments)
      (rewriteNew h shape (p.tableFor lens) (Buffers.rewrite (p.tableFor lens) h write input).on)
      (fun r left => left = r.into b) b
      ((Buffers.rewrite (p.tableFor lens) h write input).on b) := by
  refine ⟨fun hsized hmem => ?_, fun hsized => ?_, ?_⟩
  · have hregions := hmem.regions
    rw [numSegments_tableFor] at hmem
    obtain ⟨r, hnew, hbuilt⟩ := exists_rewriteNew hfit hs hw hin hmem
    have hlens := Buffers.checkLengths_eq_ok.2 hsized.lengths
    refine ⟨r, hnew, ?_⟩
    rw [rewrite_planned hfit hs hw hin hsized.out hlens hregions, Segmented.into, hbuilt.data,
      hbuilt.lengths]
    exact ⟨rfl, rfl⟩
  · obtain ⟨f, hf, hkind⟩ := Buffers.rewrite_of_not_sized hsized h write
    exact ⟨f, congrArg Prod.fst hf, hkind⟩
  · exact (Buffers.rewrite_launched fun _ => hw.overwrites).kept

theorem gather_agrees (e m : Engine) {t : Table} {input : List α}
    (hin : input.length = t.inElements)
    (hpads : ∀ seg ∈ t.segments, PadSums.HasPads t input seg) (target : Gathered α) :
    LaunchAgrees (target.Sized t) (Gathered.Given m.host α t.blockSize target.mode)
      (gatherNew m.host t target.mode (m.launchGather t input))
      (fun g left => e.SumAlike α m → left = g) target (e.launchGather t input target) := by
  have hlaunched : ∀ e : Engine, target.Launched t input (PadSums.sumCut t input (e.cut t))
      (e.launchGather t input target) := fun e =>
    Gathered.launchGather_launched (fun _ => by rwa [segments_cut]) target
  have hrefused := (hlaunched e).refused
  refine ⟨fun hsized hmem => ?_, fun hsized => ?_, (hlaunched e).kept⟩
  · have hok : ∀ e : Engine, (e.launchGather t input target).1 = .ok () := by
      intro e
      cases hr : (e.launchGather t input target).1 with
      | ok u => rfl
      | error f =>
        rcases (hlaunched e).refused.1 ⟨f, hr⟩ with h | ⟨buffer, hmem, h⟩
        · exact absurd hin h
        · exact absurd (hsized buffer hmem) h
    refine ⟨_, (gatherNew_eq_ok hin hpads).2 ⟨hmem, rfl⟩, hok e, fun hs => ?_⟩
    rw [launchGather_alike hs, (hlaunched m).written (hok m), sums, PadSums.narrow_zeros]
  · unfold Gathered.Sized at hsized
    rw [not_forall₂] at hsized
    obtain ⟨buffer, hmem, h⟩ := hsized
    obtain ⟨f, hf⟩ := hrefused.2 (.inr ⟨buffer, hmem, h⟩)
    exact ⟨f, hf, (hlaunched e).contract f hf⟩

/-! ## Calls -/

variable {h h' : Host}

theorem addInto_agrees (ha : h.Alike h') (e : Engine) (input : Batch α)
    (lengths : Option (List Int32)) (p : Padding α) (b : Buffers α) :
    Agrees ((e.on h).planAdd input.shape lengths p).1 b.Sized
      (fun t => GivesBatch h' α t.outElements t.numSegments) ((e.on h').add input lengths p)
      (fun r left => left = r.into b) b ((e.on h).addInto input lengths p b) := by
  obtain ⟨-, hhost⟩ := (e.on h).planAdd_kept input.shape lengths p
  unfold add addInto
  rw [planAdd_on ha]
  refine agrees_of_launch fun t ht => ?_
  obtain ⟨⟨hf, -, -, hfit⟩, rfl⟩ := planAdd_eq_ok.1 ht
  have ha' : ((e.on h).planAdd input.shape lengths p).2.host.Alike h' := hhost ▸ ha
  rw [launchAdd_alike (m := ((e.on h).planAdd input.shape lengths p).2.on h') ha']
  exact rewrite_agrees hfit rfl
    (Padding.addRegion_writes (elementGrain_pos _) hf hfit input.length_eq) input.length_eq b

theorem removeInto_agrees (ha : h.Alike h') (e : Engine) (input : Batch α)
    (lengths : Option (List Int32)) (w : Widths) (b : Buffers α) :
    Agrees ((e.on h).planRemove input.shape lengths w).1 b.Sized
      (fun t => GivesBatch h' α t.outElements t.numSegments) ((e.on h').remove input lengths w)
      (fun r left => left = r.into b) b ((e.on h).removeInto input lengths w b) := by
  obtain ⟨-, hhost⟩ := (e.on h).planStrip_kept .inclusive input.shape lengths w
  unfold remove removeInto planRemove
  rw [planStrip_on ha]
  refine agrees_of_launch fun t ht => ?_
  obtain ⟨lens, ⟨-, -, hfit⟩, rfl⟩ := planStrip_eq_ok.1 ht
  have ha' : ((e.on h).planStrip .inclusive input.shape lengths w).2.host.Alike h' := hhost ▸ ha
  rw [launchRemove_alike
    (m := ((e.on h).planStrip .inclusive input.shape lengths w).2.on h') ha']
  exact rewrite_agrees hfit rfl
    (Padding.removeRegion_writes (elementGrain_pos _) hfit input.length_eq) input.length_eq b

theorem gatherInto_agrees (ha : h.Alike h') (e : Engine) (input : Batch α)
    (lengths : Option (List Int32)) (w : Widths) (target : Gathered α) :
    Agrees ((e.on h).planGather input.shape lengths w).1 target.Sized
      (fun t => Gathered.Given h' α t.blockSize target.mode)
      ((e.on h').gather input lengths w target.mode)
      (fun g left => (e.on h).SumAlike α (e.on h') → left = g) target
      ((e.on h).gatherInto input lengths w target) := by
  obtain ⟨hsettings, hhost⟩ := (e.on h).planStrip_kept .exclusive input.shape lengths w
  unfold gather gatherInto planGather
  rw [planStrip_on ha]
  refine agrees_of_launch fun t ht => ?_
  obtain ⟨lens, ⟨-, -, hfit⟩, rfl⟩ := planStrip_eq_ok.1 ht
  obtain ⟨hsame, hsized, hkept⟩ := gather_agrees
    ((e.on h).planStrip .exclusive input.shape lengths w).2
    (((e.on h).planStrip .exclusive input.shape lengths w).2.on h') (inElements_padTable hfit)
    (fun seg hs => PadSums.hasPads_of_fits hfit input.length_eq hs) target
  refine ⟨fun hs hg => ?_, hsized, hkept⟩
  obtain ⟨g, hnew, hinto, hholds⟩ := hsame hs hg
  exact ⟨g, hnew, hinto, fun halike => hholds (halike.congr hsettings hhost hsettings rfl)⟩

/-- The calls on the caller's buffers agree with the calls that make new ones, on hosts that are
alike. Their sums of padding are the same when they are added up alike. -/
theorem into_agrees (ha : h.Alike h') (e : Engine) (input : Batch α)
    (lengths : Option (List Int32)) (p : Padding α) (w : Widths) (b : Buffers α)
    (target : Gathered α) :
    Agrees ((e.on h).planAdd input.shape lengths p).1 b.Sized
      (fun t => GivesBatch h' α t.outElements t.numSegments) ((e.on h').add input lengths p)
      (fun r left => left = r.into b) b ((e.on h).addInto input lengths p b) ∧
    Agrees ((e.on h).planRemove input.shape lengths w).1 b.Sized
      (fun t => GivesBatch h' α t.outElements t.numSegments) ((e.on h').remove input lengths w)
      (fun r left => left = r.into b) b ((e.on h).removeInto input lengths w b) ∧
    Agrees ((e.on h).planGather input.shape lengths w).1 target.Sized
      (fun t => Gathered.Given h' α t.blockSize target.mode)
      ((e.on h').gather input lengths w target.mode)
      (fun g left => (e.on h).SumAlike α (e.on h') → left = g) target
      ((e.on h).gatherInto input lengths w target) :=
  ⟨addInto_agrees ha e input lengths p b, removeInto_agrees ha e input lengths w b,
    gatherInto_agrees ha e input lengths w target⟩

/-- Sevens are written over when there are as many as planned, and stay when there are not. -/
theorem into_agrees_three_blocks :
    let into := fun n => (standard.addInto threeBlocks (some [1, 2]) ⟨⟨1, 1⟩, some [9, 9], none⟩
      ⟨List.replicate n 7, none⟩).1
    into 14 = (.ok (), ⟨[9, 9, 1, 2, 0, 0, 9, 9, 3, 4, 5, 6, 0, 0], none⟩) ∧
      (∃ f, (into 13).1 = .error f ∧ f.kind = .contract) ∧
      (into 13).2.out = List.replicate 13 7 := by
  intro into
  have hplan : (standard.planAdd threeBlocks.shape (some [1, 2])
      (⟨⟨1, 1⟩, some [9, 9], none⟩ : Padding UInt8)).1 =
        .ok ⟨[⟨0, 0, 1⟩, ⟨1, 3, 2⟩], ⟨1, 1⟩, .insert, 2, 3, 7⟩ := by rfl
  have hnew : (standard.add threeBlocks (some [1, 2]) ⟨⟨1, 1⟩, some [9, 9], none⟩).1 = .ok
      ⟨⟨⟨7, [2], by decide, by decide⟩, [9, 9, 1, 2, 0, 0, 9, 9, 3, 4, 5, 6, 0, 0], by decide⟩,
        [3, 4]⟩ := by rfl
  have hagrees := fun n => (into_agrees (h := .sequential) ⟨rfl, rfl⟩ standard threeBlocks
    (some [1, 2]) ⟨⟨1, 1⟩, some [9, 9], none⟩ {} ⟨List.replicate n 7, none⟩ (.merged [])).1
  have hsmall := (hagrees 13).sized _ hplan fun hs => nomatch hs.out
  refine ⟨?_, hsmall, ?_⟩
  · have hready : GivesBatch .sequential UInt8 14 2 :=
      granting_sequential.givesBatch (by decide) (by decide)
    obtain ⟨r, hr, hok, hleft⟩ | ⟨f, hf, -⟩ := (hagrees 14).same fun t ht => by
      cases hplan.symm.trans ht
      exact ⟨⟨rfl, fun _ hls => nomatch hls⟩, hready⟩
    · cases hnew.symm.trans hr
      exact Prod.ext hok hleft
    · cases hnew.symm.trans hf
  · obtain ⟨f, hf, -⟩ := hsmall
    exact congrArg Buffers.out ((hagrees 13).kept f hf)

end Launches

end Engine

end Ragged
