import Ragged.Proofs.Scan
import Ragged.Engine

/-!
# What a step can be refused for

`RefusedFor K x` says that the outcome `x` is refused for one of the faults `K`, if it is
refused at all. Checking, planning and carving are only refused for a breach of the contract.
A launch can also leave a buffer and a new buffer also lack memory, but the scratch limit is
the business of a scan alone.
-/

namespace Ragged

variable {α β γ : Type} {K L : Fault → Prop}

/-- The outcome is no fault but one of `K`. -/
def RefusedFor (K : Fault → Prop) (x : Except Fault β) : Prop := ∀ f, x = .error f → K f

namespace RefusedFor

theorem ok (b : β) : RefusedFor K (.ok b) := fun _ h => nomatch h

theorem error {f : Fault} (h : K f) : RefusedFor K (.error f : Except Fault β) := by
  intro g hg
  cases hg
  exact h

theorem mono {x : Except Fault β} (h : ∀ f, K f → L f) (hx : RefusedFor K x) : RefusedFor L x :=
  fun f hf => h f (hx f hf)

theorem exists_error {x : Except Fault β} (h : RefusedFor K x) (hx : ∀ b, x ≠ .ok b) :
    ∃ f, x = .error f ∧ K f := by
  cases x with
  | error f => exact ⟨f, rfl, h f rfl⟩
  | ok b => exact absurd rfl (hx b)

theorem bind_of_ok {x : Except Fault β} {g : β → Except Fault γ} (hx : RefusedFor K x)
    (hg : ∀ b, x = .ok b → RefusedFor K (g b)) : RefusedFor K (x >>= g) := by
  intro f hf
  cases x with
  | error f' =>
    cases hf
    exact hx _ rfl
  | ok b => exact hg b rfl f hf

theorem bind {x : Except Fault β} {g : β → Except Fault γ} (hx : RefusedFor K x)
    (hg : ∀ b, RefusedFor K (g b)) : RefusedFor K (x >>= g) :=
  hx.bind_of_ok fun b _ => hg b

theorem map {x : Except Fault β} (g : β → γ) (hx : RefusedFor K x) : RefusedFor K (x.map g) := by
  intro f hf
  cases x with
  | error f' =>
    cases hf
    exact hx _ rfl
  | ok b => cases hf

theorem ite {c : Prop} [Decidable c] {x y : Except Fault β} (hx : RefusedFor K x)
    (hy : RefusedFor K y) : RefusedFor K (if c then x else y) := by
  split
  · exact hx
  · exact hy

theorem collect {host : Host} {rs : List (Except Fault β)} (h : ∀ r ∈ rs, RefusedFor K r) :
    RefusedFor K (host.collect rs) :=
  fun f hf => h _ (Host.mem_of_collect_eq_error hf) f rfl

theorem collect_map {host : Host} {g : β → Except Fault γ} (h : ∀ b, RefusedFor K (g b))
    (xs : List β) : RefusedFor K (host.collect (xs.map g)) := by
  refine collect fun r hr => ?_
  obtain ⟨b, -, rfl⟩ := List.mem_map.1 hr
  exact h b

theorem foldlM {g : γ → β → Except Fault γ} (h : ∀ c b, RefusedFor K (g c b)) (c : γ)
    (xs : List β) : RefusedFor K (xs.foldlM g c) := by
  induction xs generalizing c with
  | nil => exact ok c
  | cons x xs ih =>
    rw [List.foldlM_cons]
    exact (h c x).bind fun c => ih c

theorem on_bind {σ : Type} {l : Launch σ β} {k : β → Launch σ γ} {s : σ}
    (hl : RefusedFor K (l.on s).1) (hk : ∀ b s, RefusedFor K ((k b).on s).1) :
    RefusedFor K ((l >>= k).on s).1 := by
  rw [Launch.on_bind]
  generalize l.on s = ran at hl ⊢
  obtain ⟨r, s'⟩ := ran
  cases r with
  | error f => exact error (hl f rfl)
  | ok b => exact hk b s'

theorem on_liftExcept {σ : Type} {x : Except Fault β} (s : σ) (h : RefusedFor K x) :
    RefusedFor K ((liftExcept x : Launch σ β).on s).1 := by
  rwa [Launch.on_liftExcept]

end RefusedFor

open RefusedFor

/-- Refused, if at all, for a breach of the contract. -/
abbrev Contract (x : Except Fault β) : Prop := RefusedFor (fun f => f.kind = .contract) x

/-- Refused, if at all, for something else than the scratch limit. -/
abbrev NotScratch (x : Except Fault β) : Prop := RefusedFor (fun f => f.isScratch = false) x

theorem RefusedFor.notScratch {x : Except Fault β} (h : Contract x) : NotScratch x := by
  refine h.mono fun f hf => ?_
  cases f with
  | scratchLimit => cases hf
  | _ => rfl

/-- The padding before a segment, or that of all segments, is not in the blocks there are. -/
def Fault.missesPadding : Fault → Bool
  | startBeforePadding .. | paddingPastInput .. => true
  | _ => false

/-- Refused, if at all, for a breach of the contract that shows before segments are placed. -/
abbrev Upfront (x : Except Fault β) : Prop :=
  RefusedFor (fun f => f.kind = .contract ∧ f.missesPadding = false) x

theorem RefusedFor.contract {x : Except Fault β} (h : Upfront x) : Contract x :=
  h.mono fun _ hf => hf.1

theorem Lengths.check_upfront (ls : List Int32) : Upfront (check ls) := by
  unfold check
  split
  · exact error ⟨rfl, rfl⟩
  · exact ok _

theorem Lengths.check_contract (ls : List Int32) : Contract (check ls) :=
  (check_upfront ls).contract

theorem Widths.checkedTotal_upfront (w : Widths) : Upfront w.checkedTotal :=
  ite (ok _) (error ⟨rfl, rfl⟩)

theorem Lengths.widen_upfront (pad : Nat) (l : Int32) : Upfront (widen pad l) :=
  ite (ok _) (error ⟨rfl, rfl⟩)

theorem Lengths.padded_upfront (h : Host) (ls : List Int32) (outer : Nat) (w : Widths) :
    Upfront (padded h ls outer w) :=
  w.checkedTotal_upfront.bind fun _ => ite (ok _) (RefusedFor.collect_map (widen_upfront _) ls)

theorem Engine.paddedLengths_upfront (h : Host) (ls : List Int32) (outer : Nat) (w : Widths) :
    Upfront (paddedLengths h ls outer w) :=
  (Lengths.check_upfront ls).bind fun _ => Lengths.padded_upfront h ls outer w

theorem Scan.outcome_contract (mode : ScanMode) (ls : List Int32) : Contract (outcome mode ls) :=
  ite (error rfl) (ok _)

theorem Shape.ofDims_contract (dims : List Int) : Contract (ofDims dims) := by
  unfold ofDims
  split
  · exact error rfl
  · split
    · exact error rfl
    · split
      · split
        · exact ok _
        · exact error rfl
      · exact error rfl

theorem Shape.withOuter_contract (s : Shape) (n : Nat) : Contract (s.withOuter n) :=
  ite (ofDims_contract _) (error rfl)

theorem Batch.ofShape_contract (shape : Shape) (data : List α) : Contract (ofShape shape data) := by
  unfold ofShape
  split
  · exact ok _
  · exact error rfl

/-! ## Plans -/

namespace Planner

theorem paddingBlocks_upfront (n pad : Nat) : Upfront (paddingBlocks n pad) := by
  unfold paddingBlocks
  split
  · exact ok _
  · exact error ⟨rfl, rfl⟩

theorem checkElements_upfront (n size : Nat) : Upfront (checkElements n size) := by
  unfold checkElements
  split
  · exact ok _
  · exact error ⟨rfl, rfl⟩

theorem checkPadded_upfront (p : Planner) (outer padding : Nat) :
    Upfront (p.checkPadded outer padding) := by
  unfold checkPadded
  split
  · exact ok _
  · exact ite (checkElements_upfront _ _) (error ⟨rfl, rfl⟩)

theorem checkTotal_upfront (total outer : Nat) : Upfront (checkTotal total outer) :=
  ite (ok _) (error ⟨rfl, rfl⟩)

theorem blocks_contract (e : Nat) (value : Int) : Contract (blocks e value) :=
  ite (ok _) (error rfl)

theorem within_contract (outer e inStart len : Nat) : Contract (within outer e inStart len) :=
  ite (ok _) (error rfl)

theorem segment_contract (p : Planner) (e inStart len : Nat) :
    Contract (p.segment e inStart len) := by
  unfold segment
  split
  · exact ok _
  · exact ite (error rfl) (ite (error rfl) (ok _))

theorem inclusiveFrom_contract (p : Planner) (e : Nat) (start : Int) (ends : List Int32) :
    ∀ r ∈ p.inclusiveFrom e start ends, Contract r := by
  induction ends generalizing e start with
  | nil => exact fun _ hr => nomatch hr
  | cons stop ends ih =>
    refine List.forall_mem_cons.2 ⟨?_, ih _ _⟩
    exact (blocks_contract _ _).bind fun _ => p.segment_contract _ _ _

theorem exclusiveFrom_contract (p : Planner) (outer e : Nat) (starts lengths : List Int32) :
    ∀ r ∈ p.exclusiveFrom outer e starts lengths, Contract r := by
  induction lengths generalizing e starts with
  | nil => cases starts <;> exact fun _ hr => nomatch hr
  | cons length lengths ih =>
    cases starts with
    | nil => exact fun _ hr => nomatch hr
    | cons start starts =>
      refine List.forall_mem_cons.2 ⟨?_, ih _ _⟩
      exact (blocks_contract _ _).bind fun _ => (blocks_contract _ _).bind fun _ =>
        (within_contract _ _ _ _).bind fun _ => p.segment_contract _ _ _

theorem segments_contract (p : Planner) (h : Host) (bounds : Bounds) (outer : Nat) :
    Contract (p.segments h bounds outer) := by
  unfold segments
  cases bounds with
  | whole n => exact ite ((p.segment_contract _ _ _).bind fun _ => ok _) (error rfl)
  | inclusive ends =>
    exact (checkTotal_upfront _ _).contract.bind fun _ =>
      RefusedFor.collect (p.inclusiveFrom_contract _ _ _)
  | exclusive starts lengths =>
    exact ite ((checkTotal_upfront _ _).contract.bind fun _ =>
      RefusedFor.collect (p.exclusiveFrom_contract _ _ _ _)) (error rfl)

theorem outBlocks_contract (p : Planner) (outer padding : Nat) :
    Contract (p.outBlocks outer padding) := by
  unfold outBlocks
  split
  · exact ok _
  · exact ite (error rfl) (ok _)

theorem plan_contract (p : Planner) (h : Host) (bounds : Bounds) (outer : Nat) :
    Contract (p.plan h bounds outer) :=
  p.widths.checkedTotal_upfront.contract.bind fun _ =>
    (paddingBlocks_upfront _ _).contract.bind fun _ =>
      (checkElements_upfront _ _).contract.bind fun _ =>
        (p.checkPadded_upfront _ _).contract.bind fun _ =>
          (p.segments_contract h _ _).bind fun _ => (p.outBlocks_contract _ _).bind fun _ => ok _

end Planner

theorem Padding.checkFills_contract (p : Padding α) (size : Nat) :
    Contract (p.checkFills size) := by
  have hfill : ∀ side fill, Contract (checkFill (α := α) side size fill) := by
    intro side fill
    cases fill with
    | none => exact ok _
    | some block => exact ite (ok _) (error rfl)
  exact (hfill _ _).bind fun _ => hfill _ _

/-! ## Buffers -/

theorem Table.newLength_contract (t : Table) (seg : Segment) : Contract (t.newLength seg) :=
  ite (ok _) (error rfl)

theorem Table.newLengths_contract (t : Table) (h : Host) : Contract (t.newLengths h) :=
  RefusedFor.collect_map t.newLength_contract _

theorem Carving.carveFrom_contract (i cursor : Nat) (rest : List α) (regions : List (Nat × Nat)) :
    Contract (carveFrom i cursor rest regions) := by
  induction regions generalizing i cursor rest with
  | nil => exact ok _
  | cons r regions ih =>
    have hlater := ih (i + 1) (r.1 + r.2) (rest.drop (r.1 - cursor + r.2))
    exact ite (error rfl) (ite (error rfl) (hlater.bind fun _ => ok _))

namespace Buffers

theorem checkInput_contract (t : Table) (held : Nat) : Contract (checkInput t held) :=
  ite (ok _) (error rfl)

theorem checkOut_contract (t : Table) (held : Nat) : Contract (checkOut t held) :=
  ite (ok _) (error rfl)

theorem checkLengths_contract (t : Table) (lengths : Option (List Int32)) :
    Contract (checkLengths t lengths) := by
  unfold checkLengths
  split
  · exact ok _
  · exact ite (ok _) (error rfl)

theorem check_contract (t : Table) (input : List α) (b : Buffers α) :
    Contract (b.check t input) :=
  (checkInput_contract t _).bind fun _ => (checkOut_contract t _).bind fun _ =>
    checkLengths_contract t _

theorem newLengths_contract (t : Table) (h : Host) (lengths : Option (List Int32)) :
    Contract (newLengths t h lengths) := by
  unfold newLengths
  split
  · exact ok _
  · exact (t.newLengths_contract h).map _

end Buffers

theorem Gathered.check_contract (size : Nat) (g : Gathered α) : Contract (g.check size) := by
  have hsize : ∀ buffer held, Contract (checkSize buffer held size) :=
    fun _ _ => ite (ok _) (error rfl)
  unfold check
  split
  · exact (hsize _ _).bind fun _ => hsize _ _
  · exact hsize _ _

/-! ## Launches -/

section Launch

theorem slice_notScratch (xs : List α) (start len : Nat) : NotScratch (slice xs start len) :=
  ite (ok _) (error rfl)

theorem splitOff_notScratch (xs : List α) (n : Nat) : NotScratch (splitOff xs n) :=
  ite (ok _) (error rfl)

theorem Carving.carve_notScratch (h : Host) (buffer : List α) (regions : List (Nat × Nat)) :
    NotScratch (carve h buffer regions) :=
  bind (fun _ hf => (Host.memory_fault hf).2) fun _ =>
    (carveFrom_contract 0 0 buffer regions).notScratch

theorem Carving.rewritePieces_notScratch {write : β → List α → Except Fault (List α)}
    (hw : ∀ o region, NotScratch (write o region)) (owners : List β) (ps : List (Piece α)) :
    NotScratch (rewritePieces write owners ps).1 := by
  induction owners generalizing ps with
  | nil => exact ok _
  | cons o owners ih =>
    cases ps with
    | nil => exact ok _
    | cons p ps =>
      rw [rewritePieces]
      split
      · rename_i f hf
        exact error (hw o p.region f hf)
      · exact ih ps

theorem Buffers.rewrite_notScratch {t : Table} {write : Segment → List α → Except Fault (List α)}
    (hw : ∀ seg region, NotScratch (write seg region)) (h : Host) (input : List α)
    (b : Buffers α) : NotScratch ((Buffers.rewrite t h write input).on b).1 := by
  have hwrite : ∀ c s, NotScratch ((writeRegions write t.segments c).on s).1 := fun c s =>
    RefusedFor.on_bind (ok _) fun _ s =>
      RefusedFor.on_liftExcept s (Carving.rewritePieces_notScratch hw _ c.pieces)
  refine RefusedFor.on_bind (ok _) fun b' s => ?_
  refine RefusedFor.on_bind (on_liftExcept s (b'.check_contract t input).notScratch) fun _ s => ?_
  refine RefusedFor.on_bind (on_liftExcept s (newLengths_contract t h _).notScratch) fun _ s => ?_
  refine RefusedFor.on_bind (on_liftExcept s (Carving.carve_notScratch h _ _)) fun c s => ?_
  exact RefusedFor.on_bind (hwrite c s) fun _ _ => ok _

variable [Element α]

theorem Padding.launchAdd_notScratch (p : Padding α) (t : Table) (h : Host) (grain : Nat)
    (input : List α) (b : Buffers α) : NotScratch ((p.launchAdd t h grain input).on b).1 :=
  Buffers.rewrite_notScratch (fun _ _ => (slice_notScratch _ _ _).bind fun _ =>
    (splitOff_notScratch _ _).bind fun _ => (splitOff_notScratch _ _).bind fun _ => ok _) h input b

omit [Element α] in
theorem Padding.launchRemove_notScratch (t : Table) (h : Host) (grain : Nat) (input : List α)
    (b : Buffers α) : NotScratch ((launchRemove t h grain input).on b).1 :=
  Buffers.rewrite_notScratch (fun _ _ => (slice_notScratch _ _ _).bind fun _ => ok _) h input b

theorem PadSums.ofCut_notScratch (t : Table) (input : List α) (cut : Cut) :
    NotScratch (ofCut t input cut) := by
  have hrows : ∀ first count, NotScratch (rows input t.blockSize first count) :=
    fun _ _ => (slice_notScratch _ _ _).bind fun _ => ok _
  have hstop : ∀ seg, NotScratch (stopRows t input seg) := fun _ => ite (hrows _ _) (ok _)
  induction cut with
  | task segs =>
    exact RefusedFor.foldlM (fun _ _ => (hrows _ _).bind fun _ => (hstop _).bind fun _ => ok _) _ _
  | join left right ihl ihr => exact ihl.bind fun _ => ihr.bind fun _ => ok _

theorem Padding.launchGather_notScratch (t : Table) (cut : Cut) (input : List α)
    (target : Gathered α) : NotScratch ((launchGather t cut input).on target).1 := by
  refine RefusedFor.on_bind
    (on_liftExcept _ (Buffers.checkInput_contract t _).notScratch) fun _ s => ?_
  refine RefusedFor.on_bind (ok _) fun b s => ?_
  refine RefusedFor.on_bind (on_liftExcept s (b.check_contract _).notScratch) fun _ s => ?_
  exact RefusedFor.on_bind (on_liftExcept s (PadSums.ofCut_notScratch t input cut)) fun _ _ => ok _

/-! ## New buffers -/

theorem zeroed_notScratch (α : Type) [Element α] (h : Host) (need : Need) (n : Nat) :
    NotScratch (zeroed α h need n) :=
  bind (fun _ hf => (Host.memory_fault hf).2) fun _ => ok _

theorem Gathered.zeroed_notScratch (h : Host) (size : Nat) (mode : GatherMode) :
    NotScratch (Gathered.zeroed (α := α) h size mode) := by
  cases mode with
  | separate =>
    exact (Ragged.zeroed_notScratch α h _ _).bind fun _ =>
      (Ragged.zeroed_notScratch α h _ _).bind fun _ => ok _
  | merged => exact (Ragged.zeroed_notScratch α h _ _).bind fun _ => ok _

theorem Engine.rewriteNew_notScratch {launch : Buffers α → Except Fault Unit × Buffers α}
    (hl : ∀ b, NotScratch (launch b).1) (h : Host) (shape : Shape) (t : Table) :
    NotScratch (rewriteNew h shape t launch) := by
  refine (zeroed_notScratch α h _ _).bind fun out => ?_
  refine (zeroed_notScratch Int32 h _ _).bind fun lengths => ?_
  split
  · rename_i f b hb
    exact error (hl _ f (congrArg Prod.fst hb))
  · exact (shape.withOuter_contract _).notScratch.bind fun _ =>
      (Batch.ofShape_contract _ _).notScratch.bind fun _ => ok _

theorem Engine.gatherNew_notScratch {launch : Gathered α → Except Fault Unit × Gathered α}
    (hl : ∀ g, NotScratch (launch g).1) (h : Host) (t : Table) (mode : GatherMode) :
    NotScratch (gatherNew h t mode launch) := by
  refine (Gathered.zeroed_notScratch h _ _).bind fun target => ?_
  split
  · rename_i f b hb
    exact error (hl _ f (congrArg Prod.fst hb))
  · exact ok _

end Launch

end Ragged
