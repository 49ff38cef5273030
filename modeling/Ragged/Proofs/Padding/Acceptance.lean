import Ragged.Proofs.Padding.Into
import Ragged.Proofs.Room

/-!
# When padding can be added

With room to scan the lengths and memory for what it returns, a call is refused for a breach of
the contract or not at all: what is looked at after planning is in order once there is a plan.
`Accepts` says of fills, widths and lengths when padding can be added to a batch, so it also says
when the call is refused.
-/

namespace Ragged

open Lengths RefusedFor

variable {α : Type}

namespace Engine

variable {e : Engine} {lengths : Option (List Int32)}

/-! ## Plans -/

theorem plan_contract (h : e.HasRoomFor lengths) (mode : ScanMode) (p : Planner) (outer : Nat) :
    Contract (e.plan lengths mode p outer).1 := by
  cases lengths with
  | none => exact p.plan_contract e.host _ _
  | some ls =>
    rw [hasRoomFor_some, HasRoom] at h
    rw [plan_fst, h]
    cases hc : check ls with
    | error f => exact error (check_contract ls f hc)
    | ok u => exact planned_contract p e.host mode ls outer

theorem planAdd_contract (h : e.HasRoomFor lengths) (shape : Shape) (p : Padding α) :
    Contract (e.planAdd shape lengths p).1 := by
  unfold planAdd
  cases hf : p.checkFills shape.blockSize with
  | error f => exact error (p.checkFills_contract _ f hf)
  | ok u => exact plan_contract h _ _ _

theorem planStrip_contract (h : e.HasRoomFor lengths) (mode : ScanMode) (shape : Shape)
    (w : Widths) : Contract (e.planStrip mode shape lengths w).1 := by
  rw [planStrip_fst h]
  exact stripPlan_contract e.host mode shape lengths w

/-! ## Calls -/

/-- A call that comes to a result once there is a plan is refused as its plan is. -/
theorem launched_settled {β : Type} {x : Except Fault Table × Engine}
    {launch : Engine → Table → Except Fault β}
    (hl : ∀ t, x.1 = .ok t → ∃ r, launch x.2 t = .ok r) :
    ((∃ r, (match (motive := Except Fault Table × Engine → Except Fault β × Engine) x with
      | (.error f, e) => (.error f, e)
      | (.ok t, e) => (launch e t, e)).1 = .ok r) ↔ ∃ t, x.1 = .ok t) ∧
    ∀ f, (match (motive := Except Fault Table × Engine → Except Fault β × Engine) x with
      | (.error f, e) => (.error f, e)
      | (.ok t, e) => (launch e t, e)).1 = .error f ↔ x.1 = .error f := by
  obtain ⟨planned, e⟩ := x
  cases planned with
  | error f => simp
  | ok t =>
    obtain ⟨r, hr⟩ := hl t rfl
    change launch e t = .ok r at hr
    simp [hr]

theorem launched_contract {β : Type} {x : Except Fault Table × Engine}
    {launch : Engine → Table → Except Fault β} (hx : Contract x.1)
    (hl : ∀ t, x.1 = .ok t → ∃ r, launch x.2 t = .ok r) :
    Contract (match (motive := Except Fault Table × Engine → Except Fault β × Engine) x with
      | (.error f, e) => (.error f, e)
      | (.ok t, e) => (launch e t, e)).1 :=
  fun f hf => hx f (((launched_settled hl).2 f).1 hf)

variable [Element α] {b : Batch α} {p : Padding α} {w : Widths}

theorem add_contract (h : e.HasRoomFor lengths)
    (halloc : ∀ t, (e.planAdd b.shape lengths p).1 = .ok t →
      GivesBatch e.host α t.outElements t.numSegments) :
    Contract (e.add b lengths p).1 := by
  refine launched_contract (planAdd_contract h _ _) fun t ht => ?_
  obtain ⟨⟨hf, -, hn, hfit⟩, rfl⟩ := planAdd_eq_ok.1 ht
  have hmem := halloc _ ht
  rw [numSegments_tableFor, length_counts] at hmem
  obtain ⟨r, ha⟩ := exists_added hf h hn hfit hmem
  exact ⟨r, (launched_of_ok ht).symm.trans (add_eq_ok.2 ha)⟩

theorem remove_launches (halloc : ∀ t, (e.planRemove b.shape lengths w).1 = .ok t →
      GivesBatch e.host α t.outElements t.numSegments)
    (t : Table) (ht : (e.planRemove b.shape lengths w).1 = .ok t) :
    ∃ r, rewriteNew (e.planRemove b.shape lengths w).2.host b.shape t
      ((e.planRemove b.shape lengths w).2.launchRemove t b.data) = .ok r := by
  obtain ⟨lens, ⟨hbasis, hroom, hfit⟩, rfl⟩ := planStrip_eq_ok.1 ht
  have hmem := halloc _ ht
  rw [numSegments_tableFor] at hmem
  obtain ⟨r, hr⟩ := exists_removed hbasis hroom hfit hmem
  exact ⟨r, (launched_of_ok ht).symm.trans (remove_eq_ok.2 ⟨lens, hr⟩)⟩

theorem gather_launches {mode : GatherMode}
    (halloc : ∀ t, (e.planGather b.shape lengths w).1 = .ok t →
      Gathered.Given e.host α t.blockSize mode) (t : Table)
    (ht : (e.planGather b.shape lengths w).1 = .ok t) :
    ∃ g, gatherNew (e.planGather b.shape lengths w).2.host t mode
      ((e.planGather b.shape lengths w).2.launchGather t b.data) = .ok g := by
  obtain ⟨lens, ⟨hbasis, hroom, hfit⟩, rfl⟩ := planStrip_eq_ok.1 ht
  have hg : e.Summed b lengths w mode lens _ := ⟨hbasis, hroom, hfit, halloc _ ht, rfl⟩
  exact ⟨_, (launched_of_ok ht).symm.trans (gather_eq_ok.2 ⟨lens, hg⟩)⟩

theorem remove_contract (h : e.HasRoomFor lengths)
    (halloc : ∀ t, (e.planRemove b.shape lengths w).1 = .ok t →
      GivesBatch e.host α t.outElements t.numSegments) :
    Contract (e.remove b lengths w).1 :=
  launched_contract (planStrip_contract h _ _ _) (remove_launches halloc)

theorem gather_contract {mode : GatherMode} (h : e.HasRoomFor lengths)
    (halloc : ∀ t, (e.planGather b.shape lengths w).1 = .ok t →
      Gathered.Given e.host α t.blockSize mode) :
    Contract (e.gather b lengths w mode).1 :=
  launched_contract (planStrip_contract h _ _ _) (gather_launches halloc)

end Engine

/-! ## Adding padding -/

namespace Padding

/-- The padding can be added to a batch of this shape with segments of these lengths. -/
structure Accepts (p : Padding α) (shape : Shape) (lengths : Option (List Int32)) : Prop where
  fills : p.FillsFit shape.blockSize
  widths : p.widths.start + p.widths.stop ≤ maxLength
  given : ∀ ls ∈ lengths, Nonneg ls ∧ fullTotal ls = shape.outer
  /-- The blocks of the padded batch are counted by a length. -/
  outer : shape.outer +
    (orWhole shape.outer lengths).length * (p.widths.start + p.widths.stop) ≤ maxLength
  /-- Its elements are counted in 64 bits. -/
  elements : (shape.outer +
    (orWhole shape.outer lengths).length * (p.widths.start + p.widths.stop)) *
      shape.blockSize < wordCount

theorem accepts_iff {p : Padding α} {shape : Shape} {lengths : Option (List Int32)} :
    p.Accepts shape lengths ↔
      p.FillsFit shape.blockSize ∧ Nonneg (orWhole shape.outer lengths) ∧
        (p.planner shape.blockSize).Fits (counts (orWhole shape.outer lengths)) shape.outer := by
  rw [Planner.fits_insert, length_counts]
  refine ⟨?_, ?_⟩
  · rintro ⟨hf, hw, hlengths, hmax, hel⟩
    obtain ⟨hn, hsum⟩ := (orWhole_iff shape.outer_le).2 hlengths
    exact ⟨hf, hn, hw, hsum, hmax, hel⟩
  · rintro ⟨hf, hn, hw, hsum, hmax, hel⟩
    exact ⟨hf, hw, (orWhole_iff shape.outer_le).1 ⟨hn, hsum⟩, hmax, hel⟩

end Padding

namespace Engine

variable [Element α] {e : Engine} {b : Batch α} {lengths : Option (List Int32)} {p : Padding α}

/-- On an engine without a limit and with memory for the result, padding is added exactly when
it is accepted, and is refused for a breach of the contract otherwise. -/
theorem add_accepted_iff (he : e.Unlimited) (hg : ∀ ls ∈ lengths, e.Grants ls.length)
    (halloc : ∀ t, (e.planAdd b.shape lengths p).1 = .ok t →
      GivesBatch e.host α t.outElements t.numSegments) :
    ((∃ r, (e.add b lengths p).1 = .ok r) ↔ p.Accepts b.shape lengths) ∧
      (¬ p.Accepts b.shape lengths →
        ∃ f, (e.add b lengths p).1 = .error f ∧ f.kind = .contract) := by
  have hroom := he.hasRoomFor hg
  have hok : (∃ r, (e.add b lengths p).1 = .ok r) ↔ p.Accepts b.shape lengths := by
    refine ⟨?_, ?_⟩
    · rintro ⟨r, hr⟩
      have ha := add_eq_ok.1 hr
      exact Padding.accepts_iff.2 ⟨ha.fills, ha.nonneg, ha.fits⟩
    · intro h
      obtain ⟨hf, hn, hfit⟩ := Padding.accepts_iff.1 h
      have hmem := halloc _ (planAdd_eq_ok.2 ⟨⟨hf, hroom, hn, hfit⟩, rfl⟩)
      rw [numSegments_tableFor, length_counts] at hmem
      obtain ⟨r, ha⟩ := exists_added hf hroom hn hfit hmem
      exact ⟨r, add_eq_ok.2 ha⟩
  exact ⟨hok, fun h => (add_contract hroom halloc).exists_error fun r hr => h (hok.1 ⟨r, hr⟩)⟩

/-- Three blocks can be padded to as many blocks as a length counts, and no further. -/
theorem add_accepted_iff_three_blocks :
    (∃ r, (standard.add threeBlocks none ⟨⟨0x7ffffffc, 0⟩, none, none⟩).1 = .ok r) ∧
      ∃ f, (standard.add threeBlocks none ⟨⟨0x7ffffffc, 1⟩, none, none⟩).1 = .error f ∧
        f.kind = .contract := by
  have hg : ∀ ls ∈ (none : Option (List Int32)), standard.Grants ls.length :=
    fun _ hl => (nomatch hl)
  have halloc : ∀ (p : Padding UInt8) (t : Table),
      (standard.planAdd threeBlocks.shape none p).1 = .ok t →
        GivesBatch standard.host UInt8 t.outElements t.numSegments := by
    intro p t ht
    obtain ⟨⟨-, -, -, hfit⟩, rfl⟩ := planAdd_eq_ok.1 ht
    have hout := (hfit.outBlocks_le threeBlocks.shape.outer_le).1
    rw [numSegments_tableFor]
    refine ⟨⟨?_, .inr rfl⟩, ⟨by decide, .inr rfl⟩, ⟨by decide, .inr rfl⟩⟩
    exact (Nat.mul_le_mul_right 1 (Nat.mul_le_mul_right 2 hout)).trans (by decide)
  refine ⟨?_, ?_⟩
  · refine (add_accepted_iff standard_unlimited hg (halloc _)).1.2 ?_
    exact ⟨⟨fun _ hb => (nomatch hb), fun _ hb => (nomatch hb)⟩, by decide,
      fun _ hl => (nomatch hl), by decide, by decide⟩
  · refine (add_accepted_iff standard_unlimited hg (halloc _)).2 fun h => ?_
    exact absurd h.outer (by decide)

end Engine

end Ragged
