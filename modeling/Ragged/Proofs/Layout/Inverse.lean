import Ragged.Proofs.Layout.Consecutive
import Ragged.Proofs.Room

/-!
# The way back

What a table that inserts padding does to a batch, a table that strips it undoes, and the other
way round. `opposite` is the table with input and output exchanged. The lengths that a plan ends
with, planned the other way, give that table: every segment is found where it was put, with the
length it came with. That the way back is accepted follows from the acceptance of the way there.
-/

namespace Ragged

open Lengths

def Direction.opposite : Direction → Direction
  | insert => strip
  | strip => insert

namespace Table

/-- The place of a segment as it is seen from the output. -/
def backPlace (t : Table) (seg : Segment) : Segment :=
  ⟨seg.outStart, seg.inStart, t.segmentOutBlocks seg⟩

def opposite (t : Table) : Table :=
  { segments := t.segments.map t.backPlace, widths := t.widths,
    direction := t.direction.opposite, blockSize := t.blockSize, inBlocks := t.outBlocks,
    outBlocks := t.inBlocks }

end Table

namespace Planner

variable {p : Planner} {lens : List Nat} {outer : Nat}

def opposite (p : Planner) : Planner := { p with direction := p.direction.opposite }

/-- A segment that holds its padding gets its length back. -/
theorem outLen_outLen {len : Nat} (h : p.direction = .strip → p.widths.total ≤ len) :
    p.opposite.outLen (p.outLen len) = len := by
  obtain ⟨direction, w, size⟩ := p
  cases direction with
  | insert => exact Nat.add_sub_cancel ..
  | strip => exact Nat.sub_add_cancel (h rfl)

theorem Holds.map_outLen (h : p.Holds lens) :
    (lens.map p.outLen).map p.opposite.outLen = lens := by
  rw [List.map_map]
  calc lens.map _ = lens.map id :=
        List.map_congr_left fun len hl => outLen_outLen fun hd => h hd len hl
    _ = lens := List.map_id lens

theorem Holds.placed_opposite (h : p.Holds lens) (i o : Nat) :
    p.opposite.placed o i (lens.map p.outLen) =
      (p.placed i o lens).map fun seg => ⟨seg.outStart, seg.inStart, p.outLen seg.len⟩ := by
  induction lens generalizing i o with
  | nil => rfl
  | cons len lens ih =>
    obtain ⟨hl, hrest⟩ := holds_cons.1 h
    rw [List.map_cons, placed, placed, List.map_cons, outLen_outLen hl, ih hrest]

theorem Holds.tableFor_opposite (h : p.Holds lens) :
    p.opposite.tableFor (lens.map p.outLen) = (p.tableFor lens).opposite := by
  have hplaces : (p.tableFor lens).backPlace =
      fun seg => ⟨seg.outStart, seg.inStart, p.outLen seg.len⟩ := by
    funext seg
    unfold Table.backPlace
    rw [segmentOutBlocks_tableFor]
  unfold Table.opposite
  rw [hplaces]
  unfold tableFor
  rw [h.placed_opposite, h.map_outLen]
  rfl

/-- What can be planned one way can be planned back. -/
theorem Fits.opposite (h : p.Fits lens outer) (ho : outer ≤ maxLength) :
    p.opposite.Fits (lens.map p.outLen) (p.tableFor lens).outBlocks := by
  obtain ⟨hout, hel⟩ := h.outBlocks_le ho
  obtain ⟨direction, w, size⟩ := p
  cases direction with
  | insert =>
    refine (fits_strip hout).2 ⟨h.widths, rfl, fun _ hl => ?_, hel⟩
    obtain ⟨len, -, rfl⟩ := List.mem_map.1 hl
    unfold outLen
    rw [Widths.total_eq h.widths]
    exact Nat.le_add_left ..
  | strip =>
    have hblocks := h.outBlocks_add
    refine fits_insert.2 ⟨h.widths, rfl, ?_⟩
    rw [List.length_map, hblocks]
    exact ⟨ho, h.elements⟩

end Planner

namespace Engine

variable {e : Engine} {ls : List Int32} {mode : ScanMode} {p : Planner} {outer : Nat} {t : Table}

/-- The lengths that a plan ends with lead back: planned the other way, on the engine as it then
is or on another without a limit, they give the table with input and output exchanged, whose
lengths are those the plan was made from. -/
theorem plan_opposite (he : e.Unlimited) (h : (e.plan (some ls) mode p outer).1 = .ok t) :
    (∀ seg ∈ t.segments, (t.segmentOutBlocks seg : Int) = p.resized seg.len) ∧
      ∃ new, (∀ host, t.newLengths host = .ok new ∧ t.opposite.newLengths host = .ok ls) ∧
        (∀ host mode', (((e.plan (some ls) mode p outer).2.on host).plan (some new) mode'
          p.opposite t.outBlocks).1 = .ok t.opposite) ∧
        ∀ m : Engine, m.Unlimited → m.Grants ls.length → ∀ mode',
          (m.plan (some new) mode' p.opposite t.outBlocks).1 = .ok t.opposite := by
  obtain ⟨hroom, hn, hmax, hplan⟩ := plan_some_eq_ok.1 h
  obtain ⟨hfit, rfl⟩ := Planner.planLengths_eq_ok.1 hplan
  have ho : outer ≤ maxLength := hfit.total ▸ hmax
  have hback := hfit.opposite ho
  have hle := hfit.outLen_le ho
  obtain ⟨hout, -⟩ := hfit.outBlocks_le ho
  have hcounts := counts_ofCounts hle
  have hlen : (ofCounts ((counts ls).map p.outLen)).length = ls.length := by
    rw [← length_counts, hcounts, List.length_map, length_counts]
  have hplans : ∀ m : Engine, m.HasRoom ls.length → ∀ mode',
      (m.plan (some (ofCounts ((counts ls).map p.outLen))) mode' p.opposite
        (p.tableFor (counts ls)).outBlocks).1 = .ok (p.tableFor (counts ls)).opposite := by
    intro m hm mode'
    rw [plan_some_eq_ok, hlen, hcounts, ← hfit.holds.tableFor_opposite]
    exact ⟨hm, nonneg_ofCounts hle, hback.total ▸ hout, Planner.planLengths_eq_ok.2 ⟨hback, rfl⟩⟩
  refine ⟨fun seg hs => ?_, _, fun host => ⟨hfit.newLengths_eq host ho, ?_⟩, fun host => ?_, ?_⟩
  · rw [p.segmentOutBlocks_tableFor]
    exact hfit.outLen_eq (p.len_mem hs)
  · rw [← hfit.holds.tableFor_opposite, hback.newLengths_eq host hout, hfit.holds.map_outLen,
      ofCounts_counts hn]
  · rw [plan_snd]
    exact hplans _ (hroom.again he.accounts hn mode host)
  · exact fun m hm hg => hplans m (hm.hasRoom hg)

theorem plan_opposite_two_segments :
    ∃ t, (standard.plan (some [2, 1]) .inclusive ⟨.insert, ⟨1, 0⟩, 2⟩ 3).1 = .ok t ∧
      t.segments = [⟨0, 0, 2⟩, ⟨2, 3, 1⟩] ∧ t.newLengths .sequential = .ok [3, 2] ∧
      t.opposite.segments = [⟨0, 0, 3⟩, ⟨3, 2, 2⟩] ∧
      t.opposite.newLengths .sequential = .ok [2, 1] ∧
      (standard.plan (some [3, 2]) .exclusive ⟨.strip, ⟨1, 0⟩, 2⟩ 5).1 = .ok t.opposite := by
  have h : (standard.plan (some [2, 1]) .inclusive ⟨.insert, ⟨1, 0⟩, 2⟩ 3).1 =
      .ok ⟨[⟨0, 0, 2⟩, ⟨2, 3, 1⟩], ⟨1, 0⟩, .insert, 2, 3, 5⟩ := by rfl
  obtain ⟨-, new, hlengths, -, hplan⟩ := plan_opposite standard_unlimited h
  obtain ⟨hnew, hback⟩ := hlengths .sequential
  cases hnew
  have hgrants : standard.Grants 2 := granting_sequential.grants (by decide)
  exact ⟨_, h, rfl, rfl, rfl, hback, hplan standard standard_unlimited hgrants .exclusive⟩

end Engine

end Ragged
