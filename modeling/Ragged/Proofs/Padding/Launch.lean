import Ragged.Proofs.Layout.Bounds
import Ragged.Proofs.Padding.Add
import Ragged.Proofs.Padding.Remove
import Ragged.Proofs.Padding.Sums
import Ragged.Proofs.Refusals
import Ragged.Proofs.Region

/-!
# Launching by any planned table

Planning and launching are calls of their own, so a launch meets tables of any bounds and
buffers of any size. What a launch by a planned table reads and writes is always there: no
write comes before the last check, so it is refused with all buffers as they were, for one of
the reasons in `Refused`, or it writes every region over and leaves what lies between them.
-/

namespace Ragged

variable {α : Type} {t : Table} {input : List α}

namespace Padding

variable {grain : Nat}

/-- The payload of a segment of the table. -/
def payload (t : Table) (input : List α) (seg : Segment) : List α :=
  strippedSegment t.widths t.blockSize input (seg.inStart, seg.inStart + seg.len)

end Padding

/-! ## Sums -/

namespace Gathered

variable {target : Gathered α}

def buffers : Gathered α → List (List α)
  | separate start stop => [start, stop]
  | merged sums => [sums]

theorem check_eq_ok {size : Nat} :
    target.check size = .ok () ↔ ∀ buffer ∈ target.buffers, buffer.length = size := by
  have hsize : ∀ buffer held, checkSize buffer held size = .ok () ↔ held = size := by
    intro buffer held
    unfold checkSize
    split <;> rename_i h <;> simp [h]
  cases target with
  | separate start stop =>
    rw [check, bind_eq_ok]
    simp [hsize, buffers]
  | merged sums =>
    rw [check, hsize]
    simp [buffers]

variable [Element α]

/-- How gathering sums into the target ends. -/
structure Launched (target : Gathered α) (t : Table) (input : List α) (sums : PadSums α)
    (r : Except Fault Unit × Gathered α) : Prop where
  contract : Contract r.1
  refused : (∃ f, r.1 = .error f) ↔
    input.length ≠ t.inElements ∨ ∃ buffer ∈ target.buffers, buffer.length ≠ t.blockSize
  kept : ∀ f, r.1 = .error f → r.2 = target
  written : r.1 = .ok () → r.2 = sums.narrow target

theorem Launched.inRange {sums : PadSums α} {r : Except Fault Unit × Gathered α}
    (h : target.Launched t input sums r) : r.1 ≠ .error .outOfRange :=
  fun hr => nomatch h.contract _ hr

/-- Gathering is refused for the sizes of the buffers alone, when every segment has its pads. -/
theorem launchGather_launched {cut : Cut}
    (hpads : input.length = t.inElements → ∀ seg ∈ cut.segments, PadSums.HasPads t input seg)
    (target : Gathered α) :
    target.Launched t input (PadSums.sumCut t input cut)
      ((Padding.launchGather t cut input).on target) := by
  have hbuffers : target.check t.blockSize = .ok () ↔
      ∀ buffer ∈ target.buffers, buffer.length = t.blockSize := check_eq_ok
  by_cases hin : input.length = t.inElements
  · have hinput : Buffers.checkInput t input.length = .ok () := if_pos hin
    cases hcheck : target.check t.blockSize with
    | error f =>
      have hrun : (Padding.launchGather t cut input).on target = (.error f, target) := by
        unfold Padding.launchGather
        simp only [Launch.on_bind, Launch.on_liftExcept, Launch.on_get, hinput, hcheck]
      have hcontract := target.check_contract t.blockSize f hcheck
      rw [hcheck] at hbuffers
      rw [hrun]
      refine ⟨.error hcontract, ⟨fun _ => .inr ?_, fun _ => ⟨f, rfl⟩⟩, fun _ _ => rfl,
        fun h => (nomatch h)⟩
      by_contra hall
      simp only [not_exists, not_and, Classical.not_not] at hall
      cases hbuffers.2 hall
    | ok u =>
      rw [Padding.launchGather_on hin hcheck (hpads hin)]
      refine ⟨.ok _, ⟨fun ⟨_, h⟩ => (nomatch h), ?_⟩, fun _ h => (nomatch h), fun _ => rfl⟩
      rintro (h | ⟨buffer, hmem, h⟩)
      · exact absurd hin h
      · exact absurd (hbuffers.1 hcheck buffer hmem) h
  · have hinput : Buffers.checkInput t input.length =
        .error (.inputSize input.length t.inElements) := if_neg hin
    have hrun : (Padding.launchGather t cut input).on target =
        (.error (.inputSize input.length t.inElements), target) := by
      unfold Padding.launchGather
      simp only [Launch.on_bind, Launch.on_liftExcept, hinput]
    rw [hrun]
    exact ⟨.error rfl, ⟨fun _ => .inl hin, fun _ => ⟨_, rfl⟩⟩, fun _ _ => rfl,
      fun h => (nomatch h)⟩

end Gathered

namespace Engine

variable [Element α] {pl : Planner} {host : Host} {bounds : Bounds} {outer : Nat}

end Engine

end Ragged
