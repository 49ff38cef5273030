import Ragged.Proofs.Padding.Columns
import Ragged.Proofs.Padding.Into
import Ragged.Proofs.Padding.RoundTrip

/-!
# Gathering what was added

Pads that hold their fills sum up to the fills, each as often as there are blocks of padding.
Adding padding makes such pads, so what is gathered from a padded batch does not depend on its
payloads. The lengths that come with the batch and those it was padded by plan the same
table.
-/

namespace Ragged

open Integral Lengths

variable {α : Type} [Element α] [Integral α]

/-! ## Columns of fills -/

def fillColumn (fill : Option (List α)) (c : Nat) : Int :=
  match fill with
  | none => 0
  | some block => (block.map value).getD c 0

section Fills

variable [ZeroBytes α] {fill : Option (List α)} {size c : Nat}

theorem columnSum_padRun_one (hc : c < size) :
    columnSum size ((padRun fill size 1).map value) c 0 1 = fillColumn fill c := by
  have hone : ∀ block : List α, (List.replicate 1 block).flatten = block := fun block =>
    List.append_nil block
  unfold columnSum padRun
  rw [Nat.Ico_zero_eq_range, Finset.sum_range_one, Nat.zero_mul, Nat.zero_add, hone]
  cases fill with
  | none =>
    rw [Option.getD_none, List.map_replicate, ZeroBytes.value_zero]
    exact List.getD_replicate _ hc
  | some block => rfl

/-- A pad sums up to its fill, as often as it has blocks. -/
theorem columnSum_padRun (hf : ∀ block, fill = some block → block.length = size) (hc : c < size)
    (width : Nat) :
    columnSum size ((padRun fill size width).map value) c 0 width = width * fillColumn fill c := by
  induction width with
  | zero => rw [Nat.cast_zero, Int.zero_mul, columnSum, Finset.Ico_self, Finset.sum_empty]
  | succ n ih =>
    have hlen : ((padRun fill size n).map value).length = n * size := by
      rw [List.length_map, length_padRun hf]
    rw [padRun_add, List.map_append, columnSum_append hc hlen, ih, columnSum_padRun_one hc,
      Nat.cast_succ, Int.add_mul, Int.one_mul]

theorem columnSum_of_padRun (hf : ∀ block, fill = some block → block.length = size) (hc : c < size)
    {data : List α} {first last width : Nat} (hwidth : last - first = width)
    (hpad : blockRange size data first last = padRun fill size width) :
    columnSum size (data.map value) c first last = width * fillColumn fill c := by
  rw [← columnSum_blockRange hc, ← map_blockRange, hpad, hwidth]
  exact columnSum_padRun hf hc width

end Fills

theorem sum_map_spans {lens : List Nat} {f : Nat × Nat → Int} {x : Int}
    (h : ∀ s ∈ spans lens, f s = x) : ((spans lens).map f).sum = lens.length * x := by
  rw [List.map_congr_left h, List.map_const', List.sum_replicate, length_spans, nsmul_eq_mul]

namespace Padding

variable [ZeroBytes α] {p : Padding α} {size c : Nat} {lens : List Nat} {data : List α}

theorem Filled.startSum_eq (h : p.Filled size lens data) (hf : p.FillsFit size) (hc : c < size) :
    startSum p.widths size lens (data.map value) c =
      lens.length * (p.widths.start * fillColumn p.startFill c) :=
  sum_map_spans fun s hs =>
    columnSum_of_padRun hf.start hc (Nat.add_sub_cancel_left ..) (h.start s hs)

theorem Filled.stopSum_eq (h : p.Filled size lens data) (hf : p.FillsFit size) (hc : c < size)
    (hpads : ∀ len ∈ lens, p.widths.stop ≤ len) :
    stopSum p.widths size lens (data.map value) c =
      lens.length * (p.widths.stop * fillColumn p.stopFill c) := by
  refine sum_map_spans fun s hs => columnSum_of_padRun hf.stop hc ?_ (h.stop s hs)
  obtain ⟨-, -, hlen⟩ := mem_spans hs
  have hstop := hpads _ hlen
  omega

end Padding

/-! ## Buffers -/

variable {size : Nat} {x y x' y' : Nat → Int}

theorem Congruent.congr {sums : List α} (h : Congruent size x sums)
    (hx : ∀ c < size, x c = x' c) : Congruent size x' sums := by
  obtain ⟨hlen, hall⟩ := h
  exact ⟨hlen, fun c hc => hx c (hlen ▸ hc) ▸ hall c hc⟩

theorem Gathered.Holds.congr {mode : GatherMode} {g : Gathered α} (h : g.Holds size x y mode)
    (hx : ∀ c < size, x c = x' c) (hy : ∀ c < size, y c = y' c) : g.Holds size x' y' mode := by
  cases mode with
  | separate =>
    cases g with
    | separate start stop => exact ⟨h.1.congr hx, h.2.congr hy⟩
    | merged sums => exact h.elim
  | merged =>
    cases g with
    | separate start stop => exact h.elim
    | merged sums => exact Congruent.congr h fun c hc => by rw [hx c hc, hy c hc]

namespace Engine

variable {e m : Engine} {b : Batch α} {lengths : Option (List Int32)} {p : Padding α}
  {mode : GatherMode} {r : Segmented α}

/-- What is gathered from a padded batch are its fills. -/
theorem Added.holds [ZeroBytes α] (h : e.Added b lengths p r) {g : Gathered α}
    {lengths' : Option (List Int32)}
    (hg : m.Summed r.batch lengths' p.widths mode (counts r.lengths) g) :
    g.Holds b.shape.blockSize
      (fun c => r.lengths.length * (p.widths.start * fillColumn p.startFill c))
      (fun c => r.lengths.length * (p.widths.stop * fillColumn p.stopFill c)) mode := by
  have hfilled : p.Filled b.shape.blockSize (counts r.lengths) r.batch.data := by
    rw [h.built.data, h.lengths_eq.2]
    exact Padding.padded_filled h.fills (b.length_eq_sum h.fits.total)
  have hpads : ∀ len ∈ counts r.lengths, p.widths.stop ≤ len := by
    rw [h.lengths_eq.2]
    intro _ hl
    obtain ⟨len, -, rfl⟩ := List.mem_map.1 hl
    omega
  have hholds := hg.holds
  rw [Shape.blockSize_congr h.built.block] at hholds
  rw [← length_counts]
  exact hholds.congr (fun c hc => hfilled.startSum_eq h.fills hc)
    fun c hc => hfilled.stopSum_eq h.fills hc hpads

/-- From a padded batch the fills are gathered, as often as there are blocks of padding and as
far as an element can hold them, whether the lengths that came with it are given or those it
was padded by. -/
theorem gather_add [ZeroBytes α] (h : (e.add b lengths p).1 = .ok r) (hm : m.Unlimited)
    (hg : m.Grants r.lengths.length) (mode : GatherMode)
    (halloc : ∀ t, (m.planGather r.batch.shape (some r.lengths) p.widths).1 = .ok t →
      Gathered.Given m.host α t.blockSize mode) :
    let n := (orWhole b.shape.outer lengths).length
    ∃ g, (m.gather r.batch (some r.lengths) p.widths mode).1 = .ok g ∧
      (m.gather r.batch lengths p.widths mode).1 = .ok g ∧
      g.Holds b.shape.blockSize (fun c => n * (p.widths.start * fillColumn p.startFill c))
        (fun c => n * (p.widths.stop * fillColumn p.stopFill c)) mode := by
  intro n
  have ha := add_eq_ok.1 h
  have hlen : r.lengths.length = n := ha.length_lengths
  have hroom : m.HasRoomFor (some r.lengths) := hasRoomFor_some.2 (hm.hasRoom hg)
  have hroom' : m.HasRoomFor lengths := by
    rintro ls rfl
    rw [hlen] at hg
    exact hm.hasRoom hg
  have hfit := ha.fits_strip
  have hmem := halloc _ (planStrip_eq_ok.2 ⟨_, ⟨ha.basis_returned, hroom, hfit⟩, rfl⟩)
  -- Both calls plan the same table, so they gather the same sums.
  have hreturned : m.Summed r.batch (some r.lengths) p.widths mode (counts r.lengths) _ :=
    ⟨ha.basis_returned, hroom, hfit, hmem, rfl⟩
  have hgiven : m.Summed r.batch lengths p.widths mode (counts r.lengths) _ :=
    ⟨ha.basis_given, hroom', hfit, hmem, rfl⟩
  have hholds := ha.holds hreturned
  rw [hlen] at hholds
  exact ⟨_, gather_eq_ok.2 ⟨_, hreturned⟩, gather_eq_ok.2 ⟨_, hgiven⟩, hholds⟩

/-- Two segments with two start pads and one end pad each: of four times 200 a byte
holds 32. -/
theorem gather_add_two_segments :
    ∃ r, (standard.add threeBlocks (some [1, 2]) ⟨⟨2, 1⟩, some [200, 1], some [5, 6]⟩).1 = .ok r ∧
      (standard.gather r.batch (some r.lengths) ⟨2, 1⟩ .separate).1 =
        .ok (.separate [32, 4] [10, 12]) ∧
      (standard.gather r.batch (some [1, 2]) ⟨2, 1⟩ .separate).1 =
        .ok (.separate [32, 4] [10, 12]) ∧
      Gathered.Holds 2 (fun c => 2 * (2 * fillColumn (some [200, 1] : Option (List UInt8)) c))
        (fun c => 2 * (1 * fillColumn (some [5, 6] : Option (List UInt8)) c)) .separate
        (.separate [(32 : UInt8), 4] [10, 12]) := by
  have h : (standard.add threeBlocks (some [1, 2]) ⟨⟨2, 1⟩, some [200, 1], some [5, 6]⟩).1 = .ok
      ⟨⟨⟨9, [2], by decide, by decide⟩,
        [200, 1, 200, 1, 1, 2, 5, 6, 200, 1, 200, 1, 3, 4, 5, 6, 5, 6], by decide⟩,
        [4, 5]⟩ := by rfl
  have halloc : ∀ t, (standard.planGather (⟨9, [2], by decide, by decide⟩ : Shape) (some [4, 5])
      ⟨2, 1⟩).1 = .ok t → Gathered.Given standard.host UInt8 t.blockSize .separate := by
    have hplan : (standard.planGather (⟨9, [2], by decide, by decide⟩ : Shape) (some [4, 5])
        ⟨2, 1⟩).1 = .ok ⟨[⟨0, 0, 4⟩, ⟨4, 1, 5⟩], ⟨2, 1⟩, .strip, 2, 9, 3⟩ := by rfl
    intro t ht
    cases hplan.symm.trans ht
    exact ⟨⟨by decide, .inr rfl⟩, ⟨by decide, .inr rfl⟩⟩
  obtain ⟨g, hreturned, hgiven, hholds⟩ := gather_add h standard_unlimited
    (granting_sequential.grants (by decide)) .separate halloc
  cases hreturned
  exact ⟨_, h, rfl, hgiven, hholds⟩

end Engine

end Ragged
