import Ragged.Proofs.Padding.Columns
import Ragged.Proofs.Padding.Into
import Ragged.Proofs.Room

/-!
# Removing and gathering take a batch apart

Removing padding returns the payload of every segment, gathering sums up its pads. Both plan
the same table, so they are refused together. Every block of the batch is in a start pad, in a
payload or in an end pad: column by column, what the two return adds up to the batch, as far
as an element can hold the sums.
-/

namespace Ragged

open Integral Lengths Scan

/-! ## Columns of a batch -/

section Columns

variable {w : Widths} {size outer c : Nat} {lens : List Nat} {values : List Int}

def payloadSpans (w : Widths) (lens : List Nat) : List (Nat × Nat) :=
  (spans lens).map fun s => (s.1 + w.start, s.2 - w.stop)

theorem stripped_eq_flatMap {β : Type} (w : Widths) (size : Nat) (lens : List Nat)
    (data : List β) :
    Padding.stripped w size lens data =
      (payloadSpans w lens).flatMap fun s => blockRange size data s.1 s.2 := by
  unfold Padding.stripped payloadSpans
  rw [List.flatMap_map]
  rfl

theorem map_stripped {β γ : Type} (f : β → γ) (w : Widths) (size : Nat) (lens : List Nat)
    (data : List β) :
    (Padding.stripped w size lens data).map f = Padding.stripped w size lens (data.map f) := by
  unfold Padding.stripped Padding.strippedSegment blockRange
  simp only [List.map_flatMap, List.map_take, List.map_drop]

theorem sum_payloadSpans (w : Widths) (lens : List Nat) :
    ((payloadSpans w lens).map fun s => s.2 - s.1).sum =
      (lens.map (· - (w.start + w.stop))).sum := by
  have hlen : ∀ s : Nat × Nat,
      s.2 - w.stop - (s.1 + w.start) = s.2 - s.1 - (w.start + w.stop) := by
    intro s
    omega
  unfold payloadSpans
  rw [List.map_map]
  simp only [Function.comp_def, hlen]
  rw [← map_length_spans lens, List.map_map, map_length_spans]
  rfl

theorem Planner.Fits.mem_spans (h : (w.planner size).Fits lens outer) {s : Nat × Nat}
    (hs : s ∈ spans lens) : s.1 + w.start ≤ s.2 - w.stop ∧ w.stop ≤ s.2 ∧ s.2 ≤ outer := by
  rw [← (w.planner size).map_span_tableFor lens] at hs
  obtain ⟨seg, hseg, rfl⟩ := List.mem_map.1 hs
  have hpads : w.start + w.stop ≤ seg.len := h.pads rfl hseg
  have hin : seg.inStart + seg.len ≤ lens.sum := ((w.planner size).tableFor_tiles lens).mem_le hseg
  rw [h.total] at hin
  simp only
  omega

/-- Every block is in a payload, in a start pad or in an end pad. -/
theorem columnSum_partition (h : (w.planner size).Fits lens outer)
    (hv : values.length = outer * size) (hc : c < size) :
    columnSum size values c 0 outer =
      columnSum size (Padding.stripped w size lens values) c 0
          (outer - lens.length * (w.start + w.stop)) +
        (startSum w size lens values c + stopSum w size lens values c) := by
  have hruns : ∀ r ∈ payloadSpans w lens, r.2 * size ≤ values.length := by
    intro r hr
    obtain ⟨s, hs, rfl⟩ := List.mem_map.1 hr
    have hlast := (h.mem_spans hs).2.2
    rw [hv]
    exact Nat.mul_le_mul_right _ (by simp only; omega)
  have hout : outer - lens.length * (w.start + w.stop) =
      ((payloadSpans w lens).map fun s => s.2 - s.1).sum := by
    rw [sum_payloadSpans, ← Engine.outLen_planner h.widths size, ← Engine.outBlocks_planner h]
    rfl
  -- Each segment is cut in three; summing this over the segments gives the three terms.
  have hsegment : ∀ s ∈ spans lens, columnSum size values c s.1 s.2 =
      columnSum size values c (s.1 + w.start) (s.2 - w.stop) +
        (columnSum size values c s.1 (s.1 + w.start) +
          columnSum size values c (s.2 - w.stop) s.2) := by
    intro s hs
    obtain ⟨hpayload, hstop, -⟩ := h.mem_spans hs
    rw [← columnSum_consecutive size values c (Nat.le_add_right s.1 w.start)
        (show s.1 + w.start ≤ s.2 by omega),
      ← columnSum_consecutive size values c hpayload (Nat.sub_le ..)]
    omega
  rw [stripped_eq_flatMap, hout, columnSum_flatMap hc hruns, ← h.total, ← columnSum_spans,
    List.map_congr_left hsegment, List.sum_map_add, List.sum_map_add, payloadSpans, List.map_map]
  rfl

end Columns

variable {α : Type} [Element α]

namespace Gathered

/-- Column `c` of the padding as the buffers hold it, start pads and end pads together. -/
def column [Integral α] (g : Gathered α) (c : Nat) : Int :=
  match g with
  | .separate start stop => (start.map value).getD c 0 + (stop.map value).getD c 0
  | .merged sums => (sums.map value).getD c 0

variable [Integral α] {size : Nat} {x y : Nat → Int} {mode : GatherMode} {g : Gathered α}

theorem Holds.sized (h : g.Holds size x y mode) :
    g.mode = mode ∧ ∀ buffer ∈ g.buffers, buffer.length = size := by
  cases mode <;> cases g <;> simp_all [Holds, Congruent, Gathered.mode, buffers]

theorem getD_of_congruent {sums : List α} (h : Congruent size x sums) {c : Nat} (hc : c < size) :
    (sums.map value).getD c 0 ≡ x c [ZMOD 2 ^ (8 * Element.size α)] := by
  obtain ⟨hlen, hall⟩ := h
  have hc' : c < sums.length := hlen ▸ hc
  rw [List.getD_eq_getElem?_getD, List.getElem?_map, List.getElem?_eq_getElem hc']
  exact hall c hc'

theorem Holds.column (h : g.Holds size x y mode) {c : Nat} (hc : c < size) :
    g.column c ≡ x c + y c [ZMOD 2 ^ (8 * Element.size α)] := by
  cases mode with
  | separate =>
    cases g with
    | separate start stop => exact (getD_of_congruent h.1 hc).add (getD_of_congruent h.2 hc)
    | merged sums => exact h.elim
  | merged =>
    cases g with
    | separate start stop => exact h.elim
    | merged sums => exact getD_of_congruent h hc

end Gathered

namespace Engine

variable {e m : Engine} {b : Batch α} {lengths : Option (List Int32)} {w : Widths}

/-- Removing and gathering are refused together, and alike when the lengths can be counted in 64
bits. When they are not refused, what they return of an integer batch adds up to the batch,
column by column and as far as an element can hold it. -/
theorem remove_gather_partition (he : e.Unlimited) (hm : m.Unlimited)
    (hge : ∀ ls ∈ lengths, e.Grants ls.length) (hgm : ∀ ls ∈ lengths, m.Grants ls.length)
    (mode : GatherMode)
    (halloc : ∀ t, (e.planRemove b.shape lengths w).1 = .ok t →
      GivesBatch e.host α t.outElements t.numSegments ∧ Gathered.Given m.host α t.blockSize mode) :
    (∃ f f', (e.remove b lengths w).1 = .error f ∧ (m.gather b lengths w mode).1 = .error f' ∧
        f.kind = .contract ∧ f'.kind = .contract ∧
        (e.host.report = m.host.report → AllCounted lengths → f = f')) ∨
      ∃ r g, (e.remove b lengths w).1 = .ok r ∧ (m.gather b lengths w mode).1 = .ok g ∧
        ∀ [Integral α], g.mode = mode ∧
          (∀ buffer ∈ g.buffers, buffer.length = b.shape.blockSize) ∧
          ∀ c < b.shape.blockSize,
            columnSum b.shape.blockSize (b.data.map value) c 0 b.shape.outer ≡
              columnSum b.shape.blockSize (r.batch.data.map value) c 0 r.batch.shape.outer +
                g.column c [ZMOD 2 ^ (8 * Element.size α)] := by
  have hroom := he.hasRoomFor hge
  have hroom' := hm.hasRoomFor hgm
  have hplan : (e.planRemove b.shape lengths w).1 = _ := planStrip_fst hroom ..
  have hplan' : (m.planGather b.shape lengths w).1 = _ := planStrip_fst hroom' ..
  cases hstrip : stripPlan e.host .inclusive b.shape lengths w with
  | error f =>
    obtain ⟨f', hf', hkind'⟩ :=
      (stripPlan_contract m.host .exclusive b.shape lengths w).exists_error fun t ht => by
        obtain ⟨lens, ⟨hbasis, -, hfit⟩, rfl⟩ := planStrip_eq_ok.1 (hplan'.trans ht)
        cases hstrip.symm.trans
          (hplan.symm.trans (planStrip_eq_ok.2 ⟨lens, ⟨hbasis, hroom, hfit⟩, rfl⟩))
    refine .inl ⟨f, f', remove_of_refused hroom hstrip, gather_of_refused hroom' hf' mode,
      stripPlan_contract _ _ _ _ _ f hstrip, hkind', fun hr hc => ?_⟩
    rw [stripPlan_modes hr hc .inclusive .exclusive, hf'] at hstrip
    exact (Except.error.inj hstrip).symm
  | ok t =>
    rw [hstrip] at hplan
    obtain ⟨hout, hblock⟩ := halloc t hplan
    obtain ⟨lens, ⟨hbasis, -, hfit⟩, rfl⟩ := planStrip_eq_ok.1 hplan
    rw [numSegments_tableFor] at hout
    obtain ⟨r, hr⟩ := exists_removed hbasis hroom hfit hout
    have hg : m.Summed b lengths w mode lens _ := ⟨hbasis, hroom', hfit, hblock, rfl⟩
    refine .inr ⟨r, _, remove_eq_ok.2 ⟨lens, hr⟩, gather_eq_ok.2 ⟨lens, hg⟩, ?_⟩
    intro _
    obtain ⟨hmode, hsized⟩ := hg.holds.sized
    refine ⟨hmode, hsized, fun c hc => ?_⟩
    have hv : (b.data.map value).length = b.shape.outer * b.shape.blockSize := by
      rw [List.length_map, b.length_eq]
    rw [columnSum_partition hfit hv hc, hr.built.data, map_stripped, hr.built.outer]
    exact (hg.holds.column hc).symm.add_left _

def fourBytes : Batch UInt8 :=
  ⟨⟨4, [1], by decide, by decide⟩, [200, 1, 100, 2], by decide⟩

/-- Their start pads sum to 300, of which a byte holds 44. -/
theorem remove_gather_partition_four_bytes :
    ∃ r, (standard.remove fourBytes (some [2, 2]) ⟨1, 0⟩).1 = .ok r ∧ r.batch.data = [1, 2] ∧
      (standard.gather fourBytes (some [2, 2]) ⟨1, 0⟩ .merged).1 = .ok (.merged [44]) ∧
      columnSum 1 [200, 1, 100, 2] 0 0 4 ≡ columnSum 1 [1, 2] 0 0 2 + 44 [ZMOD 2 ^ 8] := by
  have hg : ∀ ls ∈ some ([2, 2] : List Int32), standard.Grants ls.length := by
    rintro _ ⟨⟩
    exact granting_sequential.grants (by decide)
  have halloc : ∀ t, (standard.planRemove fourBytes.shape (some [2, 2]) ⟨1, 0⟩).1 = .ok t →
      GivesBatch standard.host UInt8 t.outElements t.numSegments ∧
        Gathered.Given standard.host UInt8 t.blockSize .merged := by
    have hplan : (standard.planRemove fourBytes.shape (some [2, 2]) ⟨1, 0⟩).1 =
        .ok ⟨[⟨0, 0, 2⟩, ⟨2, 1, 2⟩], ⟨1, 0⟩, .strip, 1, 4, 2⟩ := by rfl
    intro t ht
    cases hplan.symm.trans ht
    exact ⟨granting_sequential.givesBatch (by decide) (by decide),
      ⟨by decide, .inr rfl⟩⟩
  rcases remove_gather_partition standard_unlimited standard_unlimited hg hg .merged halloc with
    ⟨f, -, hf, -⟩ | ⟨r, g, hr, hgather, h⟩
  · cases hf
  · cases hr
    cases hgather
    exact ⟨_, rfl, rfl, rfl, h.2.2 0 (by decide)⟩

/-- As many empty blocks as the total of lengths past counting wraps to. -/
def emptyBlocks : Batch UInt8 := ⟨⟨2147483645, [0], by decide, by decide⟩, [], by decide⟩

/-- Of lengths past counting, removing and gathering report different faults. -/
theorem remove_gather_differ :
    (standard.remove emptyBlocks (some uncountable) {}).1 =
        .error (.negativeBlocks 1 (-2147483649)) ∧
      (standard.gather emptyBlocks (some uncountable) {} .merged).1 =
        .error (.segmentPastInput 0 0 2147483647 2147483645) := by
  have hroom : standard.HasRoomFor (some uncountable) := hasRoomFor_some.2 hasRoom_uncountable
  exact ⟨remove_of_refused hroom (stripPlan_uncountable .inclusive rfl rfl),
    gather_of_refused hroom (stripPlan_uncountable .exclusive rfl rfl) .merged⟩

end Engine

end Ragged
