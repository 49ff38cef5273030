import Ragged.Proofs.Padding.Grains
import Ragged.Proofs.Session.Accounts

/-!
# Answers do not show the grains

On hosts that are alike only a scan can show the grains of an engine and what its scratch holds,
and it shows them only when it is refused for its scratch. Engines that scan alike what a call
asks for answer the call alike, with padding summed up alike where the call sums it up. Without
a scratch limit they do, whatever their grains and whatever came before.
-/

namespace Ragged

open Lengths

variable {α : Type}

/-- The call sums up padding. -/
def Call.gathers : Call α → Bool
  | .gather .. | .gatherInto .. | .launchGather .. => true
  | _ => false

namespace Engine

/-- What is requested, if anything, both engines scan with the same outcome. -/
def ScanAlike (request : ScanRequest) (e m : Engine) : Prop :=
  ∀ ls mode, request = some (ls, mode) → (e.scan ls mode).1 = (m.scan ls mode).1

variable {e m : Engine} {lengths : Option (List Int32)} {mode : ScanMode} {shape : Shape}

theorem ScanAlike.plan (h : ScanAlike (lengths.map (·, mode)) e m)
    (hr : e.host.report = m.host.report) (p : Planner) (outer : Nat) :
    (e.plan lengths mode p outer).1 = (m.plan lengths mode p outer).1 := by
  cases lengths with
  | none => exact p.plan_congr hr (.whole 1) outer
  | some ls =>
    have hscan := h ls mode rfl
    have hhost : (e.scan ls mode).2.host = e.host := rfl
    have hhost' : (m.scan ls mode).2.host = m.host := rfl
    rw [Engine.plan, Engine.plan]
    generalize e.scan ls mode = scanned at hscan hhost
    generalize m.scan ls mode = scanned' at hscan hhost'
    obtain ⟨sums, e'⟩ := scanned
    obtain ⟨sums', m'⟩ := scanned'
    simp only at hscan hhost hhost'
    subst hscan
    cases sums with
    | error f => rfl
    | ok sums =>
      simp only [hhost, hhost']
      exact p.plan_congr hr _ outer

theorem ScanAlike.planAdd {p : Padding α} (h : ScanAlike (Call.scannedAdd shape lengths p) e m)
    (hr : e.host.report = m.host.report) :
    (e.planAdd shape lengths p).1 = (m.planAdd shape lengths p).1 := by
  unfold Call.scannedAdd at h
  unfold Engine.planAdd
  cases hf : p.checkFills shape.blockSize with
  | error f => rfl
  | ok u =>
    rw [hf] at h
    exact ScanAlike.plan h hr ..

theorem ScanAlike.planStrip {w : Widths}
    (h : ScanAlike (Call.scannedStrip mode shape lengths w) e m)
    (hr : e.host.report = m.host.report) :
    (e.planStrip mode shape lengths w).1 = (m.planStrip mode shape lengths w).1 := by
  cases lengths with
  | none =>
    have hnone : ScanAlike ((none : Option (List Int32)).map (·, mode)) e m :=
      fun _ _ hn => nomatch hn
    exact hnone.plan hr ..
  | some ls =>
    unfold Call.scannedStrip at h
    unfold Engine.planStrip
    simp only [paddedLengths_congr hr] at h ⊢
    cases hp : paddedLengths m.host ls shape.outer w with
    | error f => rfl
    | ok ls' =>
      simp only [paddedLengths_host .sequential hp] at h
      have hsome : ScanAlike ((some ls').map (·, mode)) e m := h
      exact hsome.plan hr ..

theorem planAdd_hosts (ha : e.host.Alike m.host) (shape : Shape) (lengths : Option (List Int32))
    (p : Padding α) :
    (e.planAdd shape lengths p).2.host.Alike (m.planAdd shape lengths p).2.host := by
  rw [(planAdd_kept e shape lengths p).2, (planAdd_kept m shape lengths p).2]
  exact ha

theorem planStrip_hosts (ha : e.host.Alike m.host) (mode : ScanMode) (shape : Shape)
    (lengths : Option (List Int32)) (w : Widths) :
    (e.planStrip mode shape lengths w).2.host.Alike (m.planStrip mode shape lengths w).2.host := by
  rw [(planStrip_kept e mode shape lengths w).2, (planStrip_kept m mode shape lengths w).2]
  exact ha

variable [Element α]

theorem SumAlike.planStrip (h : e.SumAlike α m) (mode : ScanMode) (shape : Shape)
    (lengths : Option (List Int32)) (w : Widths) :
    (e.planStrip mode shape lengths w).2.SumAlike α (m.planStrip mode shape lengths w).2 := by
  obtain ⟨hs, hh⟩ := planStrip_kept e mode shape lengths w
  obtain ⟨hs', hh'⟩ := planStrip_kept m mode shape lengths w
  exact h.congr hs hh hs' hh'

/-- Whatever else tells two engines apart, a call that they scan alike they answer alike. -/
theorem ScanAlike.answer {call : Call α} (h : ScanAlike call.scanned e m)
    (ha : e.host.Alike m.host) (hsums : call.gathers = true → e.SumAlike α m) :
    (e.answer call).1 = (m.answer call).1 := by
  cases call with
  | scan lengths mode => exact congrArg Answer.sums (h lengths mode rfl)
  | plan lengths mode p outer => exact congrArg Answer.table (ScanAlike.plan h ha.report p outer)
  | planAdd shape lengths p => exact congrArg Answer.table (ScanAlike.planAdd h ha.report)
  | planRemove shape lengths w => exact congrArg Answer.table (ScanAlike.planStrip h ha.report)
  | planGather shape lengths w => exact congrArg Answer.table (ScanAlike.planStrip h ha.report)
  | add input lengths p =>
    have hhosts := planAdd_hosts ha input.shape lengths p
    refine congrArg Answer.segmented
      (launched_congr (ScanAlike.planAdd h ha.report) fun t _ => ?_)
    rw [rewriteNew_congr hhosts.grants, launchAdd_alike hhosts]
  | remove input lengths w =>
    have hhosts : (e.planRemove input.shape lengths w).2.host.Alike
        (m.planRemove input.shape lengths w).2.host := planStrip_hosts ha ..
    refine congrArg Answer.segmented
      (launched_congr (ScanAlike.planStrip h ha.report) fun t _ => ?_)
    rw [rewriteNew_congr hhosts.grants, launchRemove_alike hhosts]
  | gather input lengths w mode =>
    have hhosts : (e.planGather input.shape lengths w).2.host.Alike
        (m.planGather input.shape lengths w).2.host := planStrip_hosts ha ..
    have hcuts : (e.planGather input.shape lengths w).2.SumAlike α
        (m.planGather input.shape lengths w).2 := (hsums rfl).planStrip ..
    refine congrArg Answer.gathered
      (launched_congr (ScanAlike.planStrip h ha.report) fun t _ => ?_)
    rw [gatherNew_congr hhosts.grants, launchGather_alike hcuts]
  | addInto input lengths p b =>
    have hhosts := planAdd_hosts ha input.shape lengths p
    refine congrArg Answer.ofRewrite
      (launched_congr (ScanAlike.planAdd h ha.report) fun t _ => ?_)
    rw [launchAdd_alike hhosts]
  | removeInto input lengths w b =>
    have hhosts : (e.planRemove input.shape lengths w).2.host.Alike
        (m.planRemove input.shape lengths w).2.host := planStrip_hosts ha ..
    refine congrArg Answer.ofRewrite
      (launched_congr (ScanAlike.planStrip h ha.report) fun t _ => ?_)
    rw [launchRemove_alike hhosts]
  | gatherInto input lengths w target =>
    have hcuts : (e.planGather input.shape lengths w).2.SumAlike α
        (m.planGather input.shape lengths w).2 := (hsums rfl).planStrip ..
    refine congrArg Answer.ofGather
      (launched_congr (ScanAlike.planStrip h ha.report) fun t _ => ?_)
    rw [launchGather_alike hcuts]
  | launchAdd t p input b =>
    exact congrArg (fun launch => Answer.ofRewrite (launch b)) (launchAdd_alike ha t p input)
  | launchRemove t input b =>
    exact congrArg (fun launch => Answer.ofRewrite (launch b)) (launchRemove_alike ha t input)
  | launchGather t input target =>
    exact congrArg (fun launch => Answer.ofGather (launch target))
      (launchGather_alike (hsums rfl) t input)

/-! ## Without a scratch limit -/

variable {settings : Settings}

/-- Without a scratch limit, engines that differ in their grains answer every call alike, whatever
the sessions before it, on hosts that are alike and have the memory to scan what the call asks
for. Sums of padding come out alike when they can be added up in any order. -/
theorem answer_of_grains {a b c : Nat} {host host' now now' : Host}
    (h : new settings host = .ok e)
    (h' : new { settings with segmentGrain := a, elementGrain := b, scanGrain := c } host' = .ok m)
    (hunset : settings.scratchLimit = none) (calls calls' : List AnyCall) (ha : now.Alike now')
    {call : Call α} (hg : ∀ ls, call.Reaches ls → (e.on now).Grants ls.length)
    (hg' : ∀ ls, call.Reaches ls → (m.on now').Grants ls.length)
    (hsums : call.gathers = true → LawfulSums α) :
    (((e.after calls).on now).answer call).1 = (((m.after calls').on now').answer call).1 := by
  obtain ⟨hkeeps, -⟩ := keeps_of_new h
  obtain ⟨hkeeps', -⟩ := keeps_of_new h'
  have hafter := (hkeeps.after calls).on now
  have hafter' := (hkeeps'.after calls').on now'
  refine ScanAlike.answer (fun ls mode hs => ?_) ha fun hgathers => .inr (hsums hgathers)
  by_cases hn : Nonneg ls
  · have hgrants := (grants_of_reaches hg hs hn).congr (m := (e.after calls).on now)
      ((hkeeps.on now).same.trans hafter.same.symm) ⟨rfl, rfl⟩
    have hgrants' := (grants_of_reaches hg' hs hn).congr (m := (m.after calls').on now')
      ((hkeeps'.on now').same.trans hafter'.same.symm) ⟨rfl, rfl⟩
    exact scan_agrees ((hafter.unlimited hunset).hasRoom hgrants)
      ((hafter'.unlimited hunset).hasRoom hgrants') mode
  · exact scan_negative_agrees hn _ _ mode

def fineGrained : Engine :=
  ⟨{ segmentGrain := 2, elementGrain := 3, scanGrain := 1 }, rfl,
    { limit := Settings.scratchBytes {} }, .sequential⟩

def scanTwo : AnyCall := ⟨.sequential, (.scan [1, 2] .inclusive : Call UInt8)⟩

/-- Two grains sum up the same padding, with 16 and with 24 bytes of scratch. -/
theorem answer_of_grains_two_segments :
    new { segmentGrain := 2, elementGrain := 3, scanGrain := 1 } .sequential = .ok fineGrained ∧
      ((fineGrained.after [scanTwo]).answer
          (.gather threeBlocks (some [1, 2]) ⟨1, 0⟩ .separate)).1 =
        .gathered (.ok (.separate [4, 6] [0, 0])) ∧
      (standard.after [scanTwo]).scratchBytes = 16 ∧
      (fineGrained.after [scanTwo]).scratchBytes = 24 := by
  have h : new {} .sequential = .ok standard := by rfl
  have h' : new { segmentGrain := 2, elementGrain := 3, scanGrain := 1 } .sequential =
      .ok fineGrained := by rfl
  have hreach : ∀ ls,
      (.gather threeBlocks (some [1, 2]) ⟨1, 0⟩ .separate : Call UInt8).Reaches ls →
        ls = [1, 2] := by
    rintro ls ⟨⟨mode, hscanned⟩, -⟩
    cases hscanned
    rfl
  have hanswer : (((standard.after [scanTwo]).on .sequential).answer
      (.gather threeBlocks (some [1, 2]) ⟨1, 0⟩ .separate : Call UInt8)).1 = _ :=
    answer_of_grains h h' rfl [scanTwo] [scanTwo] ⟨rfl, rfl⟩
      (fun ls hl => hreach ls hl ▸ granting_sequential.grants (by decide))
      (fun ls hl => hreach ls hl ▸ granting_sequential.grants (by decide))
      fun _ => inferInstance
  exact ⟨h', hanswer.symm.trans rfl, rfl, rfl⟩

end Engine

end Ragged
