import Ragged.Proofs.Engine

/-!
# Plans from lengths, segment by segment

A planner places every segment on its own, by the running sums and the padding of the
segments before it. That each begins where its neighbour ends, on both sides, and that the
last ends with the batch, is `Tiles` read by index. The lengths of a plan have the padding
more or less, fit their range, and sum to the output.
-/

namespace Ragged

open Lengths

namespace Table

variable {t : Table}

/-- The segments follow one another in the input and in the output, from the first block of
both to the last. -/
structure Consecutive (t : Table) : Prop where
  first : ∀ seg ∈ t.segments.head?, seg.inStart = 0 ∧ seg.outStart = 0
  next : ∀ k (h : k + 1 < t.segments.length),
    t.segments[k + 1].inStart = t.segments[k].inStart + t.segments[k].len ∧
      t.segments[k + 1].outStart = t.segments[k].outStart + t.segmentOutBlocks t.segments[k]
  last : ∀ seg ∈ t.segments.getLast?,
    seg.inStart + seg.len = t.inBlocks ∧
      seg.outStart + t.segmentOutBlocks seg = t.outBlocks
  /-- Without segments there are no blocks. -/
  empty : t.segments = [] → t.inBlocks = 0 ∧ t.outBlocks = 0

theorem Tiles.first {i o : Nat} {segs : List Segment} (h : t.Tiles i o segs) :
    ∀ seg ∈ segs.head?, seg.inStart = i ∧ seg.outStart = o := by
  cases segs with
  | nil => exact fun _ hs => (nomatch hs)
  | cons seg segs =>
    rintro _ ⟨⟩
    exact ⟨h.1, h.2.1⟩

theorem Tiles.next {i o : Nat} {segs : List Segment} (h : t.Tiles i o segs) (k : Nat)
    (hk : k + 1 < segs.length) :
    segs[k + 1].inStart = segs[k].inStart + segs[k].len ∧
      segs[k + 1].outStart = segs[k].outStart + t.segmentOutBlocks segs[k] := by
  induction segs generalizing i o k with
  | nil => cases hk
  | cons seg segs ih =>
    obtain ⟨rfl, rfl, hrest⟩ := h
    rw [List.length_cons] at hk
    cases k with
    | zero =>
      have hhead : segs.head? = some segs[0] :=
        List.head?_eq_getElem? .. ▸ List.getElem?_eq_getElem _
      exact hrest.first _ hhead
    | succ k => exact ih hrest k (by omega)

theorem Tiles.last {i o : Nat} {segs : List Segment} (h : t.Tiles i o segs) :
    ∀ seg ∈ segs.getLast?,
      seg.inStart + seg.len = t.inBlocks ∧ seg.outStart + t.segmentOutBlocks seg = t.outBlocks := by
  induction segs generalizing i o with
  | nil => exact fun _ hs => (nomatch hs)
  | cons seg segs ih =>
    obtain ⟨rfl, rfl, hrest⟩ := h
    cases segs with
    | nil =>
      rintro _ ⟨⟩
      exact hrest
    | cons next segs =>
      rw [List.getLast?_cons_cons]
      exact ih hrest

theorem Tiles.consecutive (h : t.Tiles 0 0 t.segments) : t.Consecutive := by
  refine ⟨h.first, h.next, h.last, fun hnil => ?_⟩
  rw [hnil] at h
  exact ⟨h.1.symm, h.2.symm⟩

end Table

namespace Planner

variable {p : Planner}

def resized (p : Planner) (len : Int) : Int :=
  match p.direction with
  | .insert => len + (p.widths.start + p.widths.stop : Nat)
  | .strip => len - (p.widths.start + p.widths.stop : Nat)

theorem Fits.outLen_eq {lens : List Nat} {outer : Nat} (h : p.Fits lens outer) {len : Nat}
    (hl : len ∈ lens) : (p.outLen len : Int) = p.resized len := by
  have htotal := Widths.total_eq h.widths
  unfold outLen resized
  cases hd : p.direction with
  | insert =>
    simp only
    rw [htotal, Int.natCast_add]
  | strip =>
    have hpad := h.holds hd len hl
    simp only
    rw [← htotal, Int.natCast_sub hpad]

theorem Fits.resized_eq {ls : List Int32} {outer : Nat} (h : p.Fits (counts ls) outer)
    (hn : Nonneg ls) (ho : outer ≤ maxLength) :
    (ofCounts ((counts ls).map p.outLen)).map Int32.toInt =
      ls.map fun l => p.resized l.toInt := by
  rw [map_toInt_ofCounts (h.outLen_le ho), List.map_map, counts, List.map_map]
  apply List.map_congr_left
  intro l hl
  have hlen := h.outLen_eq (List.mem_map_of_mem (f := fun l : Int32 => l.toInt.toNat) hl)
  rw [Int.toNat_of_nonneg (hn l hl)] at hlen
  exact hlen

end Planner

namespace Engine

variable {e : Engine} {ls : List Int32} {mode : ScanMode} {p : Planner} {outer : Nat} {t : Table}

/-- A plan from lengths has a segment for each of them, these follow one another on both sides
without a gap, and the new lengths are there and sum to the output. -/
theorem plan_consecutive (h : (e.plan (some ls) mode p outer).1 = .ok t) :
    t.Consecutive ∧ t.inBlocks = outer ∧ t.direction = p.direction ∧ t.widths = p.widths ∧
      t.segments.map (fun seg => (seg.len : Int)) = ls.map Int32.toInt ∧
      ∃ new, (∀ host, t.newLengths host = .ok new) ∧
        new.map Int32.toInt = ls.map (fun l => p.resized l.toInt) ∧
        fullTotal new = t.outBlocks := by
  obtain ⟨-, hn, hmax, hplan⟩ := plan_some_eq_ok.1 h
  obtain ⟨hfit, rfl⟩ := Planner.planLengths_eq_ok.1 hplan
  have ho : outer ≤ maxLength := hfit.total ▸ hmax
  have hlens : (p.tableFor (counts ls)).segments.map Segment.len = counts ls :=
    p.map_len_placed 0 0 (counts ls)
  have hnew := fun host => hfit.newLengths_eq host ho
  have hle := hfit.outLen_le ho
  refine ⟨(p.tableFor_tiles _).consecutive, hfit.total, rfl, rfl, ?_, _, hnew,
    hfit.resized_eq hn ho, ?_⟩
  · have hcast := congrArg (List.map Int.ofNat) hlens
    rw [List.map_map] at hcast
    refine hcast.trans ?_
    exact map_counts hn (g := id) fun _ => rfl
  · rw [fullTotal_eq (nonneg_ofCounts hle), counts_ofCounts hle]
    rfl

theorem plan_consecutive_two_segments :
    ∃ t, (standard.plan (some [3, 2]) .exclusive ⟨.strip, ⟨1, 0⟩, 2⟩ 5).1 = .ok t ∧
      t.segments = [⟨0, 0, 3⟩, ⟨3, 2, 2⟩] ∧ t.Consecutive ∧
      ∃ new, t.newLengths .sequential = .ok new ∧ new.map Int32.toInt = [2, 1] := by
  have h : (standard.plan (some [3, 2]) .exclusive ⟨.strip, ⟨1, 0⟩, 2⟩ 5).1 =
      .ok ⟨[⟨0, 0, 3⟩, ⟨3, 2, 2⟩], ⟨1, 0⟩, .strip, 2, 5, 3⟩ := by rfl
  obtain ⟨hconsecutive, -, -, -, -, new, hnew, hlengths, -⟩ := plan_consecutive h
  exact ⟨_, h, rfl, hconsecutive, new, hnew _, hlengths⟩

end Engine

end Ragged
