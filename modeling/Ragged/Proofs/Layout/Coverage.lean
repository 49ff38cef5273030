import Ragged.Proofs.Layout.Bounds

/-!
# Which plans cover the input

A plan covers the input when its segments follow one another from the first block to the last.
Ends always lead to such a plan, as each segment begins at the end of the one before it. Starts
are taken as they are: only that the last segment ends with the input is checked, and that every
segment lies in it. Starts that are not the running sums of the lengths lead to segments that do
not follow one another, and such a plan can skip blocks or have them in two segments. Nothing else
can go wrong.
-/

namespace Ragged

open Lengths Scan

namespace Table

/-- The segments follow one another in the input and make it up. -/
structure Covers (t : Table) : Prop where
  total : (t.segments.map Segment.len).sum = t.inBlocks
  first : ∀ seg ∈ t.segments.head?, seg.inStart = 0
  next : t.segments.IsChain fun seg next => next.inStart = seg.inStart + seg.len

/-- How many segments block `b` of the input lies in. -/
def holders (t : Table) (b : Nat) : Nat :=
  t.segments.countP fun seg => seg.inStart ≤ b ∧ b < seg.inStart + seg.len

end Table

/-- Each segment begins where the one before it ends, and the first at block `i`. -/
def Follow (i : Nat) (segs : List Segment) : Prop :=
  segs.map (fun seg => (seg.inStart : Int)) =
    runningSums .exclusive (i : Int) (segs.map fun seg => (seg.len : Int))

namespace Follow

variable {i : Nat} {seg : Segment} {segs : List Segment}

theorem nil (i : Nat) : Follow i [] := rfl

theorem cons_iff : Follow i (seg :: segs) ↔ seg.inStart = i ∧ Follow (i + seg.len) segs := by
  unfold Follow
  rw [List.map_cons, List.map_cons, runningSums_cons, List.cons.injEq, Int.ofNat_inj,
    Int.natCast_add]

theorem head (h : Follow i segs) : ∀ seg ∈ segs.head?, seg.inStart = i := by
  cases segs with
  | nil => exact fun _ hs => (nomatch hs)
  | cons seg segs =>
    rintro _ ⟨⟩
    exact (cons_iff.1 h).1

theorem last (h : Follow i segs) :
    ∀ seg ∈ segs.getLast?, seg.inStart + seg.len = i + (segs.map Segment.len).sum := by
  induction segs generalizing i with
  | nil => exact fun _ hs => (nomatch hs)
  | cons seg segs ih =>
    obtain ⟨rfl, hrest⟩ := cons_iff.1 h
    cases segs with
    | nil =>
      rintro _ ⟨⟩
      simp
    | cons next segs =>
      rw [List.getLast?_cons_cons, List.map_cons, List.sum_cons, ← Nat.add_assoc]
      exact ih hrest

theorem isChain (h : Follow i segs) :
    segs.IsChain fun seg next => next.inStart = seg.inStart + seg.len := by
  induction segs generalizing i with
  | nil => exact .nil
  | cons seg segs ih =>
    obtain ⟨rfl, hrest⟩ := cons_iff.1 h
    cases segs with
    | nil => exact .singleton seg
    | cons next segs => exact .cons_cons (hrest.head next rfl) (ih hrest)

theorem of_isChain (hhead : ∀ seg ∈ segs.head?, seg.inStart = i)
    (hnext : segs.IsChain fun seg next => next.inStart = seg.inStart + seg.len) :
    Follow i segs := by
  induction segs generalizing i with
  | nil => exact nil i
  | cons seg segs ih =>
    obtain rfl := hhead seg rfl
    refine cons_iff.2 ⟨rfl, ?_⟩
    cases segs with
    | nil => exact nil _
    | cons next segs =>
      obtain ⟨hstart, hrest⟩ := List.isChain_cons_cons.1 hnext
      refine ih ?_ hrest
      rintro _ ⟨⟩
      exact hstart

/-- A block between the first and the last lies in one segment, and no other in any. -/
theorem countP_eq (h : Follow i segs) (b : Nat) :
    segs.countP (fun seg => seg.inStart ≤ b ∧ b < seg.inStart + seg.len) =
      if i ≤ b ∧ b < i + (segs.map Segment.len).sum then 1 else 0 := by
  induction segs generalizing i with
  | nil =>
    rw [List.countP_nil, List.map_nil, List.sum_nil, if_neg (by omega)]
  | cons seg segs ih =>
    obtain ⟨rfl, hrest⟩ := cons_iff.1 h
    rw [List.countP_cons, ih hrest, List.map_cons, List.sum_cons]
    simp only [decide_eq_true_eq]
    by_cases hb : seg.inStart ≤ b ∧ b < seg.inStart + seg.len
    · rw [if_neg (by omega), if_pos hb, if_pos (by omega)]
    · rw [if_neg hb, Nat.add_zero]
      congr 1
      rw [eq_iff_iff]
      omega

end Follow

namespace Table

variable {t : Table}

theorem covers_iff :
    t.Covers ↔ Follow 0 t.segments ∧ (t.segments.map Segment.len).sum = t.inBlocks := by
  refine ⟨?_, ?_⟩
  · rintro ⟨htotal, hfirst, hnext⟩
    exact ⟨.of_isChain hfirst hnext, htotal⟩
  · rintro ⟨hfollow, htotal⟩
    exact ⟨htotal, hfollow.head, hfollow.isChain⟩

/-- No block of the input is skipped, and none is in two segments. -/
theorem Covers.holders_eq (h : t.Covers) {b : Nat} (hb : b < t.inBlocks) : t.holders b = 1 := by
  obtain ⟨hfollow, htotal⟩ := covers_iff.1 h
  unfold holders
  rw [hfollow.countP_eq, if_pos (by omega)]

end Table

namespace Bounds

/-- Starts are those of the lengths they come with. -/
def Matched : Bounds → Prop
  | exclusive starts lengths =>
    starts.map Int32.toInt = runningSums .exclusive 0 (lengths.map Int32.toInt)
  | _ => True

end Bounds

namespace Planner

variable {p : Planner}

/-! ## Ends -/

theorem inclusiveFrom_follow {e i : Nat} {ends : List Int32} {segs : List Segment}
    (hi : i < wordCount) (h : p.inclusiveFrom e i ends = segs.map .ok) :
    Follow i segs ∧ ((i + (segs.map Segment.len).sum : Nat) : Int) = lastEnd i ends := by
  induction ends generalizing e i segs with
  | nil =>
    obtain rfl := List.map_eq_nil_iff.1 h.symm
    exact ⟨.nil i, rfl⟩
  | cons stop ends ih =>
    cases segs with
    | nil => cases h
    | cons seg segs =>
      obtain ⟨hseg, hrest⟩ := List.cons.inj h
      obtain ⟨hle, hseg⟩ := inclusiveAt_eq_ok (Int.natCast_nonneg i) (Int.ofNat_lt.2 hi) hseg
      obtain ⟨hstart, hlength⟩ := segment_place hseg
      have hstop : ((i + seg.len : Nat) : Int) = stop.toInt := by omega
      have hlt : stop.toInt < wordCount := Int.lt_trans stop.toInt_lt (by decide)
      rw [← hstop] at hrest hlt
      obtain ⟨hfollow, htotal⟩ := ih (Int.ofNat_lt.1 hlt) hrest
      refine ⟨Follow.cons_iff.2 ⟨hstart, hfollow⟩, ?_⟩
      rw [lastEnd_cons, ← hstop, ← htotal, List.map_cons, List.sum_cons, Nat.add_assoc]

/-! ## Starts -/

theorem exclusiveFrom_map {outer e : Nat} {starts lengths : List Int32} {segs : List Segment}
    (hlen : starts.length = lengths.length)
    (h : p.exclusiveFrom outer e starts lengths = segs.map .ok) :
    segs.map (fun seg => (seg.inStart : Int)) = starts.map Int32.toInt ∧
      segs.map (fun seg => (seg.len : Int)) = lengths.map Int32.toInt := by
  induction lengths generalizing e starts segs with
  | nil =>
    obtain rfl := List.length_eq_zero_iff.1 hlen
    obtain rfl := List.map_eq_nil_iff.1 h.symm
    exact ⟨rfl, rfl⟩
  | cons length lengths ih =>
    cases starts with
    | nil => cases hlen
    | cons start starts =>
      cases segs with
      | nil => cases h
      | cons seg segs =>
        obtain ⟨hseg, hrest⟩ := List.cons.inj h
        obtain ⟨⟨hstart, hlength⟩, -, hseg⟩ := exclusiveAt_eq_ok hseg
        obtain ⟨hs, hl⟩ := segment_place hseg
        obtain ⟨hstarts, hlengths⟩ := ih (Nat.succ.inj hlen) hrest
        refine ⟨?_, ?_⟩
        · rw [List.map_cons, List.map_cons, hstarts, hs, Int.toNat_of_nonneg hstart]
        · rw [List.map_cons, List.map_cons, hlengths, hl, Int.toNat_of_nonneg hlength]

theorem exclusiveTotal_follow {starts lengths : List Int32} {segs : List Segment}
    (hstarts : segs.map (fun seg => (seg.inStart : Int)) = starts.map Int32.toInt)
    (hlengths : segs.map (fun seg => (seg.len : Int)) = lengths.map Int32.toInt)
    (h : Follow 0 segs) : exclusiveTotal starts lengths = (segs.map Segment.len).sum := by
  have hstart := congrArg List.getLast? hstarts
  have hlength := congrArg List.getLast? hlengths
  rw [List.getLast?_map, List.getLast?_map] at hstart hlength
  unfold exclusiveTotal
  cases hlast : segs.getLast? with
  | none =>
    obtain rfl := List.getLast?_eq_none_iff.1 hlast
    rw [hlast, Option.map_none, eq_comm, Option.map_eq_none_iff] at hstart
    rw [hstart]
    rfl
  | some seg =>
    rw [hlast, Option.map_some, eq_comm, Option.map_eq_some_iff] at hstart hlength
    obtain ⟨start, hs, hstart⟩ := hstart
    obtain ⟨length, hl, hlength⟩ := hlength
    have hend := h.last seg hlast
    rw [hs, hl]
    simp only
    omega

/-- The segments a planner lets pass are those of an input they make up, unless starts say
otherwise. -/
theorem segments_follow_iff {host : Host} {bounds : Bounds} {outer : Nat} {segs : List Segment}
    (h : p.segments host bounds outer = .ok segs) :
    Follow 0 segs ∧ (segs.map Segment.len).sum = outer ↔ bounds.Matched := by
  unfold segments at h
  cases bounds with
  | whole n =>
    simp only at h
    split at h
    · obtain ⟨seg, hseg, hsegs⟩ := bind_eq_ok.1 h
      cases hsegs
      obtain ⟨hstart, hlen⟩ := segment_place hseg
      refine iff_of_true ⟨Follow.cons_iff.2 ⟨hstart, .nil _⟩, ?_⟩ trivial
      simpa using hlen
    · cases h
  | inclusive ends =>
    obtain ⟨_, htotal, h⟩ := bind_eq_ok.1 h
    -- the last end is what is compared with the input, and segments reach from end to end
    obtain ⟨hfollow, hend⟩ := inclusiveFrom_follow (i := 0) (by decide) (Host.collect_eq_ok.1 h)
    have hlast : (lastEnd (0 : Nat) ends).toNat = inclusiveTotal ends := lastEnd_zero ends
    have hsum := checkTotal_eq_ok.1 htotal
    exact iff_of_true ⟨hfollow, by omega⟩ trivial
  | exclusive starts lengths =>
    simp only at h
    split at h
    · rename_i hlen
      obtain ⟨_, htotal, h⟩ := bind_eq_ok.1 h
      obtain ⟨hstarts, hlengths⟩ := exclusiveFrom_map hlen (Host.collect_eq_ok.1 h)
      -- what was given is in the segments as it was given
      have hmatched : Follow 0 segs ↔ (Bounds.exclusive starts lengths).Matched := by
        unfold Follow Bounds.Matched
        rw [hstarts, hlengths]
        rfl
      have hsum := checkTotal_eq_ok.1 htotal
      refine ⟨fun hc => hmatched.1 hc.1, fun hm => ⟨hmatched.2 hm, ?_⟩⟩
      rw [← hsum, exclusiveTotal_follow hstarts hlengths (hmatched.2 hm)]
    · cases h

theorem plan_segments {host : Host} {bounds : Bounds} {outer : Nat} {t : Table}
    (h : p.plan host bounds outer = .ok t) :
    p.segments host bounds outer = .ok t.segments ∧ t.inBlocks = outer := by
  simp only [plan, bind_eq_ok] at h
  obtain ⟨_, -, _, -, _, -, _, -, segs, hsegs, _, -, ht⟩ := h
  cases ht
  exact ⟨hsegs, rfl⟩

/-- A plan covers the input exactly when it is not from starts other than those of the lengths.
Every block of the input is then in one segment. -/
theorem plan_covers_iff {host : Host} {bounds : Bounds} {outer : Nat} {t : Table}
    (h : p.plan host bounds outer = .ok t) :
    t.inBlocks = outer ∧ (t.Covers ↔ bounds.Matched) ∧
      (bounds.Matched → ∀ b < outer, t.holders b = 1) := by
  obtain ⟨hsegs, hin⟩ := plan_segments h
  have hcovers : t.Covers ↔ bounds.Matched := by
    rw [Table.covers_iff, hin]
    exact segments_follow_iff hsegs
  exact ⟨hin, hcovers, fun hm _ hb => (hcovers.2 hm).holders_eq (hin ▸ hb)⟩

theorem plan_covers_iff_two_segments :
    ∃ t, (⟨.insert, {}, 1⟩ : Planner).plan .sequential (.exclusive [0, 3] [3, 2]) 5 = .ok t ∧
      t.Covers ∧ ∀ b < 5, t.holders b = 1 := by
  have h : (⟨.insert, {}, 1⟩ : Planner).plan .sequential (.exclusive [0, 3] [3, 2]) 5 =
      .ok ⟨[⟨0, 0, 3⟩, ⟨3, 3, 2⟩], {}, .insert, 1, 5, 5⟩ := by rfl
  obtain ⟨-, hcovers, hholders⟩ := plan_covers_iff h
  have hmatched : (Bounds.exclusive [0, 3] [3, 2]).Matched := by
    unfold Bounds.Matched
    decide
  exact ⟨_, h, hcovers.2 hmatched, hholders hmatched⟩

/-- Two segments of two blocks that both begin at the first of the two blocks there are. -/
theorem plan_two_segments_overlap :
    ∃ t, (⟨.insert, {}, 1⟩ : Planner).plan .sequential (.exclusive [0, 0] [2, 2]) 2 = .ok t ∧
      (t.segments.map Segment.len).sum = 4 ∧ t.inBlocks = 2 ∧ ¬ t.Covers ∧ t.holders 0 = 2 := by
  refine ⟨⟨[⟨0, 0, 2⟩, ⟨0, 0, 2⟩], {}, .insert, 1, 2, 2⟩, by rfl, by rfl, rfl, ?_, by rfl⟩
  intro h
  have htotal : 4 = 2 := h.total
  omega

end Planner

end Ragged
