import Ragged.Proofs.Engine
import Ragged.Proofs.Refusals
import Ragged.Session

/-!
# What a call has to do with the scratch

A call scans once at most, for lengths that can be told from the call alone. When the scan is
refused the call is refused for the same fault, and what a call does after its scan depends
on the settings, the host and the running sums, no longer on the scratch. `ScansOnce` says so
of a run, and one lemma says it of every call.
-/

namespace Ragged

abbrev ScanRequest : Type := Option (List Int32 × ScanMode)

variable {α β γ : Type}

namespace Call

/-- The lengths that adding padding scans: those given, when the fills are of a block. -/
def scannedAdd (shape : Shape) (lengths : Option (List Int32)) (p : Padding α) : ScanRequest :=
  match p.checkFills shape.blockSize with
  | .error _ => none
  | .ok () => lengths.map (·, .inclusive)

/-- The lengths that taking padding away scans: those given, in the padded basis, which no host
changes. -/
def scannedStrip (mode : ScanMode) (shape : Shape) (lengths : Option (List Int32)) (w : Widths) :
    ScanRequest :=
  match lengths with
  | none => none
  | some lengths =>
    match Engine.paddedLengths .sequential lengths shape.outer w with
    | .error _ => none
    | .ok lengths => some (lengths, mode)

/-- The lengths that a call scans, if it comes to a scan. -/
def scanned : Call α → ScanRequest
  | .scan lengths mode => some (lengths, mode)
  | .plan lengths mode .. => lengths.map (·, mode)
  | .planAdd shape lengths p => scannedAdd shape lengths p
  | .planRemove shape lengths w => scannedStrip .inclusive shape lengths w
  | .planGather shape lengths w => scannedStrip .exclusive shape lengths w
  | .add input lengths p | .addInto input lengths p _ => scannedAdd input.shape lengths p
  | .remove input lengths w | .removeInto input lengths w _ =>
    scannedStrip .inclusive input.shape lengths w
  | .gather input lengths w _ | .gatherInto input lengths w _ =>
    scannedStrip .exclusive input.shape lengths w
  | .launchAdd .. | .launchRemove .. | .launchGather .. => none

/-- The answer of a call that is refused before anything is written. -/
def refuse (f : Fault) : Call α → Answer α
  | .scan .. => .sums (.error f)
  | .plan .. | .planAdd .. | .planRemove .. | .planGather .. => .table (.error f)
  | .add .. | .remove .. => .segmented (.error f)
  | .gather .. => .gathered (.error f)
  | .addInto _ _ _ b | .removeInto _ _ _ b | .launchAdd _ _ _ b | .launchRemove _ _ b =>
    .ofRewrite (.error f, b)
  | .gatherInto _ _ _ g | .launchGather _ _ g => .ofGather (.error f, g)

end Call

namespace Answer

def scratchRefused (a : Answer α) : Bool := a.fault?.any Fault.isScratch

theorem fault?_ofRewrite (f : Fault) (b : Buffers α) :
    (ofRewrite (.error f, b)).fault? = some f := by
  cases f <;> rfl

theorem fault?_ofGather (f : Fault) (g : Gathered α) :
    (ofGather (.error f, g)).fault? = some f := by
  cases f <;> rfl

theorem fault?_refuse (f : Fault) (call : Call α) : (call.refuse f).fault? = some f := by
  cases call with
  | addInto | removeInto | launchAdd | launchRemove => exact fault?_ofRewrite f _
  | gatherInto | launchGather => exact fault?_ofGather f _
  | _ => rfl

theorem scratchRefused_refuse (f : Fault) (call : Call α) :
    (call.refuse f).scratchRefused = f.isScratch := by
  unfold scratchRefused
  rw [fault?_refuse]
  rfl

theorem calm_table {x : Except Fault Table} (h : NotScratch x) :
    (table (α := α) x).scratchRefused = false := by
  cases x with
  | error f => exact h f rfl
  | ok t => rfl

theorem calm_segmented {x : Except Fault (Segmented α)} (h : NotScratch x) :
    (segmented x).scratchRefused = false := by
  cases x with
  | error f => exact h f rfl
  | ok r => rfl

theorem calm_gathered {x : Except Fault (Gathered α)} (h : NotScratch x) :
    (gathered x).scratchRefused = false := by
  cases x with
  | error f => exact h f rfl
  | ok g => rfl

theorem calm_ofRewrite {x : Except Fault Unit × Buffers α} (h : NotScratch x.1) :
    (ofRewrite x).scratchRefused = false := by
  obtain ⟨r, b⟩ := x
  cases r with
  | error f =>
    unfold scratchRefused
    rw [fault?_ofRewrite]
    exact h f rfl
  | ok u => rfl

theorem calm_ofGather {x : Except Fault Unit × Gathered α} (h : NotScratch x.1) :
    (ofGather x).scratchRefused = false := by
  obtain ⟨r, g⟩ := x
  cases r with
  | error f =>
    unfold scratchRefused
    rw [fault?_ofGather]
    exact h f rfl
  | ok u => rfl

end Answer

namespace Engine

/-! ## Runs that scan once -/

/-- How a run ends once its scan, if it has one, has come to the sums. -/
abbrev Finish (β : Type) : Type := Settings → Host → List Int32 → β

/-- Scans what is requested, is refused as the scan is, and finishes from the sums. -/
def scanThen (request : ScanRequest) (refuse : Fault → β) (finish : Finish β) (e : Engine) :
    β × Engine :=
  match request with
  | none => (finish e.settings e.host [], e)
  | some (lengths, mode) =>
    (match (e.scan lengths mode).1 with
      | .error f => refuse f
      | .ok sums => finish e.settings e.host sums, (e.scan lengths mode).2)

/-- The run scans what is requested and is refused as the scan is. How it finishes depends on
the settings, the host and the sums, and all it can then come to is `calm`. -/
def ScansOnce (request : ScanRequest) (refuse : Fault → β) (calm : β → Prop)
    (run : Engine → β × Engine) : Prop :=
  ∃ finish : Finish β, (∀ s h sums, calm (finish s h sums)) ∧
    ∀ e, run e = e.scanThen request refuse finish

namespace ScansOnce

variable {request : ScanRequest} {refuse : Fault → β} {calm : β → Prop}
  {run : Engine → β × Engine} {e e' : Engine}

theorem of_settings (finish : Settings → Host → β) (h : ∀ s host, calm (finish s host))
    (refuse : Fault → β) :
    ScansOnce none refuse calm fun e => (finish e.settings e.host, e) :=
  ⟨fun s host _ => finish s host, fun s host _ => h s host, fun _ => rfl⟩

theorem map {calm' : γ → Prop} (h : ScansOnce request refuse calm run) (g : β → γ)
    (hg : ∀ b, calm b → calm' (g b)) :
    ScansOnce request (fun f => g (refuse f)) calm' fun e => (g (run e).1, (run e).2) := by
  obtain ⟨finish, hcalm, hrun⟩ := h
  refine ⟨fun s host sums => g (finish s host sums),
    fun s host sums => hg _ (hcalm s host sums), fun e => ?_⟩
  beta_reduce
  rw [hrun]
  cases request with
  | none => rfl
  | some r =>
    unfold scanThen
    simp only
    cases (e.scan r.1 r.2).1 <;> rfl

/-- A launch on the table that has been planned is part of the run. -/
theorem launch {plan : Engine → Except Fault Table × Engine}
    (h : ScansOnce request .error NotScratch plan) (launch : Settings → Host → Table → β)
    (hl : ∀ s host t, calm (launch s host t))
    (hrefuse : ∀ f, f.isScratch = false → calm (refuse f)) :
    ScansOnce request refuse calm fun e =>
      match plan e with
      | (.error f, e) => (refuse f, e)
      | (.ok t, e) => (launch e.settings e.host t, e) := by
  obtain ⟨finish, hcalm, hrun⟩ := h
  refine ⟨fun s host sums => (match finish s host sums with
    | .error f => refuse f
    | .ok t => launch s host t), fun s host sums => ?_, fun e => ?_⟩
  · beta_reduce
    split
    · rename_i f hf
      exact hrefuse f (hcalm s host sums f hf)
    · exact hl s host _
  · beta_reduce
    rw [hrun]
    cases request with
    | none =>
      unfold scanThen
      simp only
      cases finish e.settings e.host [] <;> rfl
    | some r =>
      have hkept : (e.scan r.1 r.2).2.settings = e.settings ∧
          (e.scan r.1 r.2).2.host = e.host := ⟨rfl, rfl⟩
      unfold scanThen
      simp only
      cases (e.scan r.1 r.2).1 with
      | error f => rfl
      | ok sums =>
        simp only
        cases finish e.settings e.host sums with
        | error f => rfl
        | ok t => simp only [hkept]

theorem snd_of_none (h : ScansOnce request refuse calm run) (hr : request = none) (e : Engine) :
    (run e).2 = e := by
  obtain ⟨finish, -, hrun⟩ := h
  rw [hrun, hr]
  rfl

theorem snd_of_some (h : ScansOnce request refuse calm run) {lengths : List Int32}
    {mode : ScanMode} (hr : request = some (lengths, mode)) (e : Engine) :
    (run e).2 = (e.scan lengths mode).2 := by
  obtain ⟨finish, -, hrun⟩ := h
  rw [hrun, hr]
  rfl

theorem fst_of_error (h : ScansOnce request refuse calm run) {lengths : List Int32}
    {mode : ScanMode} (hr : request = some (lengths, mode)) {f : Fault}
    (hf : (e.scan lengths mode).1 = .error f) : (run e).1 = refuse f := by
  obtain ⟨finish, -, hrun⟩ := h
  rw [hrun, hr, scanThen]
  simp only [hf]

theorem calm_of_ok (h : ScansOnce request refuse calm run)
    (hok : ∀ lengths mode, request = some (lengths, mode) →
      ∃ sums, (e.scan lengths mode).1 = .ok sums) : calm (run e).1 := by
  obtain ⟨finish, hcalm, hrun⟩ := h
  rw [hrun]
  cases request with
  | none => exact hcalm _ _ _
  | some r =>
    obtain ⟨sums, hsums⟩ := hok _ _ rfl
    unfold scanThen
    simp only [hsums]
    exact hcalm _ _ _

/-- With the same settings, host and scan, a run comes to the same. -/
theorem fst_congr (h : ScansOnce request refuse calm run) (hs : e.settings = e'.settings)
    (hh : e.host = e'.host)
    (hscan : ∀ lengths mode, request = some (lengths, mode) →
      (e.scan lengths mode).1 = (e'.scan lengths mode).1) : (run e).1 = (run e').1 := by
  obtain ⟨finish, -, hrun⟩ := h
  rw [hrun, hrun]
  unfold scanThen
  cases request with
  | none => simp only [hs, hh]
  | some r => simp only [hs, hh, hscan _ _ rfl]

end ScansOnce

/-! ## Plans -/

theorem plan_scansOnce (lengths : Option (List Int32)) (mode : ScanMode) (p : Planner)
    (outer : Nat) :
    ScansOnce (lengths.map (·, mode)) .error NotScratch fun e => e.plan lengths mode p outer := by
  cases lengths with
  | none =>
    exact .of_settings (fun _ host => p.plan host (.whole 1) outer)
      (fun _ host => (p.plan_contract host _ _).notScratch) _
  | some ls =>
    refine ⟨fun _ host sums => p.plan host (boundsOf mode ls sums) outer,
      fun _ host _ => (p.plan_contract host _ _).notScratch, fun e => ?_⟩
    have hhost : (e.scan ls mode).2.host = e.host := rfl
    unfold plan scanThen
    simp only [Option.map_some]
    generalize e.scan ls mode = scanned at hhost
    obtain ⟨sums, e'⟩ := scanned
    simp only at hhost
    cases sums <;> simp only [hhost]

theorem planAdd_scansOnce (shape : Shape) (lengths : Option (List Int32)) (p : Padding α) :
    ScansOnce (Call.scannedAdd shape lengths p) .error NotScratch
      fun e => e.planAdd shape lengths p := by
  unfold Call.scannedAdd planAdd
  cases hf : p.checkFills shape.blockSize with
  | error f =>
    have hcalm := (p.checkFills_contract shape.blockSize).notScratch f hf
    exact .of_settings (fun _ _ => Except.error f) (fun _ _ => RefusedFor.error hcalm) _
  | ok u => exact plan_scansOnce lengths .inclusive _ _

theorem planStrip_scansOnce (mode : ScanMode) (shape : Shape) (lengths : Option (List Int32))
    (w : Widths) :
    ScansOnce (Call.scannedStrip mode shape lengths w) .error NotScratch
      fun e => e.planStrip mode shape lengths w := by
  unfold Call.scannedStrip planStrip
  cases lengths with
  | none => exact plan_scansOnce none mode _ _
  | some ls =>
    simp only
    cases hp : paddedLengths .sequential ls shape.outer w with
    | error f =>
      -- every host refuses the lengths, each for a fault of its choice
      have hrefused : ∀ host : Host, ∃ f, paddedLengths host ls shape.outer w = .error f := by
        intro host
        refine (paddedLengths_upfront host ls _ w).exists_error (fun ls' hls => ?_) |>.imp
          fun f hf => hf.1
        rw [paddedLengths_host .sequential hls] at hp
        cases hp
      refine ⟨fun _ host _ => paddedLengths host ls shape.outer w >>= fun _ =>
        .error .outOfRange, fun _ host _ => ?_, fun e => ?_⟩
      · exact (paddedLengths_upfront host ls _ w).contract.notScratch.bind fun _ => .error rfl
      · obtain ⟨f', hf'⟩ := hrefused e.host
        unfold scanThen
        simp only [hf']
        rfl
    | ok ls' =>
      have hpadded : ∀ host : Host, paddedLengths host ls shape.outer w = .ok ls' :=
        fun host => paddedLengths_host host hp
      simp only [hpadded]
      exact plan_scansOnce (some ls') mode _ _

/-! ## Answers -/

section Answers

variable [Element α]

theorem ScansOnce.launchNew {plan : Engine → Except Fault Table × Engine} {request : ScanRequest}
    (h : ScansOnce request .error NotScratch plan)
    (launch : Settings → Host → Table → Except Fault β)
    (hl : ∀ s host t, NotScratch (launch s host t)) :
    ScansOnce request .error NotScratch fun e =>
      match plan e with
      | (.error f, e) => (.error f, e)
      | (.ok t, e) => (launch e.settings e.host t, e) :=
  h.launch launch hl fun _ hf => .error hf

theorem ScansOnce.launchInto {plan : Engine → Except Fault Table × Engine} {request : ScanRequest}
    (h : ScansOnce request .error NotScratch plan)
    (launch : Settings → Host → Table → Except Fault Unit × β)
    (hl : ∀ s host t, NotScratch (launch s host t).1) (b : β) :
    ScansOnce request (fun f => (.error f, b)) (fun r => NotScratch r.1) fun e =>
      match plan e with
      | (.error f, e) => ((.error f, b), e)
      | (.ok t, e) => (launch e.settings e.host t, e) :=
  h.launch launch hl fun _ hf => .error hf

/-- Every call scans once at most, and is refused as its scan is. -/
theorem answer_scansOnce (call : Call α) :
    ScansOnce call.scanned (fun f => call.refuse f) (fun a => a.scratchRefused = false)
      fun e => e.answer call := by
  cases call with
  | scan lengths mode =>
    refine ⟨fun _ _ sums => .sums (.ok sums), fun _ _ _ => rfl, fun e => ?_⟩
    simp only [answer, Call.scanned, scanThen, Call.refuse]
    cases (e.scan lengths mode).1 <;> rfl
  | plan lengths mode p outer =>
    exact (plan_scansOnce lengths mode p outer).map Answer.table fun _ => Answer.calm_table
  | planAdd shape lengths p =>
    exact (planAdd_scansOnce shape lengths p).map Answer.table fun _ => Answer.calm_table
  | planRemove shape lengths w =>
    exact (planStrip_scansOnce .inclusive shape lengths w).map Answer.table
      fun _ => Answer.calm_table
  | planGather shape lengths w =>
    exact (planStrip_scansOnce .exclusive shape lengths w).map Answer.table
      fun _ => Answer.calm_table
  | add input lengths p =>
    exact ((planAdd_scansOnce input.shape lengths p).launchNew
      (fun s h t => rewriteNew h input.shape t (p.launchAdd t h s.elementGrain input.data).on)
      fun _ _ _ => rewriteNew_notScratch (p.launchAdd_notScratch _ _ _ _) _ _ _).map
        Answer.segmented fun _ => Answer.calm_segmented
  | remove input lengths w =>
    exact ((planStrip_scansOnce .inclusive input.shape lengths w).launchNew
      (fun s h t =>
        rewriteNew h input.shape t (Padding.launchRemove t h s.elementGrain input.data).on)
      fun _ _ _ => rewriteNew_notScratch (Padding.launchRemove_notScratch _ _ _ _) _ _ _).map
        Answer.segmented fun _ => Answer.calm_segmented
  | gather input lengths w mode =>
    exact ((planStrip_scansOnce .exclusive input.shape lengths w).launchNew
      (fun s h t =>
        gatherNew h t mode (Padding.launchGather t (h.cut s.segmentGrain t.segments) input.data).on)
      fun _ _ _ => gatherNew_notScratch (Padding.launchGather_notScratch _ _ _) _ _ _).map
        Answer.gathered fun _ => Answer.calm_gathered
  | addInto input lengths p b =>
    exact ((planAdd_scansOnce input.shape lengths p).launchInto
      (fun s h t => (p.launchAdd t h s.elementGrain input.data).on b)
      (fun _ _ _ => p.launchAdd_notScratch _ _ _ _ b) b).map
        Answer.ofRewrite fun _ => Answer.calm_ofRewrite
  | removeInto input lengths w b =>
    exact ((planStrip_scansOnce .inclusive input.shape lengths w).launchInto
      (fun s h t => (Padding.launchRemove t h s.elementGrain input.data).on b)
      (fun _ _ _ => Padding.launchRemove_notScratch _ _ _ _ b) b).map
        Answer.ofRewrite fun _ => Answer.calm_ofRewrite
  | gatherInto input lengths w g =>
    exact ((planStrip_scansOnce .exclusive input.shape lengths w).launchInto
      (fun s h t =>
        (Padding.launchGather t (h.cut s.segmentGrain t.segments) input.data).on g)
      (fun _ _ _ => Padding.launchGather_notScratch _ _ _ g) g).map
        Answer.ofGather fun _ => Answer.calm_ofGather
  | launchAdd t p input b =>
    exact .of_settings
      (fun s h => Answer.ofRewrite ((p.launchAdd t h s.elementGrain input).on b))
      (fun _ _ => Answer.calm_ofRewrite (p.launchAdd_notScratch t _ _ input b)) _
  | launchRemove t input b =>
    exact .of_settings
      (fun s h => Answer.ofRewrite ((Padding.launchRemove t h s.elementGrain input).on b))
      (fun _ _ => Answer.calm_ofRewrite (Padding.launchRemove_notScratch t _ _ input b)) _
  | launchGather t input g =>
    exact .of_settings
      (fun s h => Answer.ofGather
        ((Padding.launchGather t (h.cut s.segmentGrain t.segments) input).on g))
      (fun _ _ => Answer.calm_ofGather (Padding.launchGather_notScratch t _ input g)) _

end Answers

end Engine

end Ragged
