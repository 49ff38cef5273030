import Ragged.Proofs.Padding.Add
import Ragged.Proofs.Padding.Remove
import Ragged.Proofs.Session.Accounts

/-!
# Batches with lengths stay well formed

Calls that add or remove padding return a batch and the lengths of its segments, which later
calls of a session take in again. Both calls rewrite a batch by a planned table, and that is
all that counts here: the lengths describe the new batch, its dimensions pass as those of any
other, and once there are a table and memory nothing is refused any more.
-/

namespace Ragged

open Lengths

variable {α : Type}

/-- Segments that lengths divide a batch into. -/
def segmentCount (lengths : Option (List Int32)) : Nat := (lengths.map List.length).getD 1

theorem length_orWhole (outer : Nat) (lengths : Option (List Int32)) :
    (orWhole outer lengths).length = segmentCount lengths := by
  cases lengths <;> rfl

theorem Lengths.PaddedBasis.length_eq {outer pad : Nat} {lengths : Option (List Int32)}
    {lens : List Nat} (h : PaddedBasis outer pad lengths lens) :
    lens.length = segmentCount lengths := by
  cases h with
  | whole => rfl
  | padded => exact length_counts _
  | payload => exact (List.length_map _).trans (length_counts _)

/-- The lengths describe the batch, which has the blocks of the input and a shape that a
caller could have given. -/
structure Segmented.WellFormed (r : Segmented α) (input : Batch α)
    (lengths : Option (List Int32)) : Prop where
  nonneg : Nonneg r.lengths
  total : fullTotal r.lengths = r.batch.shape.outer
  count : r.lengths.length = segmentCount lengths
  accepted : Shape.ofDims (r.batch.shape.dims.map Int.ofNat) = .ok r.batch.shape
  block : r.batch.shape.block = input.shape.block
  size : r.batch.data.length = r.batch.shape.outer * input.shape.blockSize

/-- Nothing that is looked at after planning and after memory is granted is refused: the new
lengths, the sizes of the buffers, their regions, and the shape of the result. -/
structure Completes (h : Host) (shape : Shape) (t : Table) (input out : List α) : Prop where
  newLengths : ∃ ls, t.newLengths h = .ok ls
  check : Buffers.check t input ⟨out, some (List.replicate t.numSegments 0)⟩ = .ok ()
  carve : ∃ c, Carving.carve h out t.outRegions = .ok c
  batch : ∃ s, shape.withOuter t.outBlocks = .ok s ∧
    ∀ data : List α, data.length = out.length → ∃ b, Batch.ofShape s data = .ok b

namespace Engine

variable [Element α] {e : Engine} {input : Batch α} {lengths : Option (List Int32)}

/-- The call returns the batch `input` with its padding changed, by the table `planned`. -/
inductive Rewrites (e : Engine) (input : Batch α) (lengths : Option (List Int32)) :
    Call α → Except Fault Table → Prop where
  | add (p : Padding α) :
    Rewrites e input lengths (.add input lengths p) (e.planAdd input.shape lengths p).1
  | remove (w : Widths) :
    Rewrites e input lengths (.remove input lengths w) (e.planRemove input.shape lengths w).1

/-- A table for one segment a length, each of which can write its region. -/
structure Planned (input : Batch α) (lengths : Option (List Int32)) (p : Planner)
    (lens : List Nat) (write : Segment → List α → Except Fault (List α))
    (content : Segment → List α) : Prop where
  fits : p.Fits lens input.shape.outer
  size : p.blockSize = input.shape.blockSize
  count : lens.length = segmentCount lengths
  writes : (p.tableFor lens).Writes write content (p.tableFor lens).segments

variable {call : Call α} {planned : Except Fault Table}

theorem Rewrites.refused (h : e.Rewrites input lengths call planned) {f : Fault}
    (hf : planned = .error f) : (e.answer call).1 = .segmented (.error f) := by
  cases h with
  | add p => exact congrArg Answer.segmented (launched_of_error hf)
  | remove w => exact congrArg Answer.segmented (launched_of_error hf)

theorem Rewrites.launched (h : e.Rewrites input lengths call planned) {t : Table}
    (ht : planned = .ok t) :
    ∃ p lens write content, Planned input lengths p lens write content ∧ t = p.tableFor lens ∧
      (e.answer call).1 =
        .segmented (rewriteNew e.host input.shape t
          (Buffers.rewrite t e.host write input.data).on) := by
  cases h with
  | add p =>
    obtain ⟨⟨hf, -, -, hfit⟩, rfl⟩ := planAdd_eq_ok.1 ht
    have hw := Padding.addRegion_writes
      (e.planAdd input.shape lengths p).2.elementGrain_pos hf hfit input.length_eq
    have hcount := (length_counts _).trans (length_orWhole input.shape.outer lengths)
    have hhost := (planAdd_kept e input.shape lengths p).2
    refine ⟨_, _, _, _, ⟨hfit, rfl, hcount, hw⟩, rfl, ?_⟩
    rw [← hhost]
    exact congrArg Answer.segmented (launched_of_ok ht)
  | remove w =>
    obtain ⟨lens, ⟨hbasis, -, hfit⟩, rfl⟩ := planStrip_eq_ok.1 ht
    have hw := Padding.removeRegion_writes
      (e.planRemove input.shape lengths w).2.elementGrain_pos hfit input.length_eq
    have hhost := (planStrip_kept e .inclusive input.shape lengths w).2
    refine ⟨_, _, _, _, ⟨hfit, rfl, hbasis.length_eq, hw⟩, rfl, ?_⟩
    rw [← hhost]
    exact congrArg Answer.segmented (launched_of_ok ht)

section Planned

variable {p : Planner} {lens : List Nat} {write : Segment → List α → Except Fault (List α)}
  {content : Segment → List α} {host : Host}

theorem Planned.wellFormed (h : Planned input lengths p lens write content) {r : Segmented α}
    (hr : rewriteNew host input.shape (p.tableFor lens)
      (Buffers.rewrite (p.tableFor lens) host write input.data).on = .ok r) :
    r.WellFormed input lengths := by
  have hle := h.fits.outLen_le input.shape.outer_le
  have hbuilt := (rewriteNew_eq_ok h.fits h.size h.writes input.length_eq).1 hr
  have hn := nonneg_ofCounts hle
  refine ⟨hbuilt.lengths ▸ hn, ?_, ?_, r.batch.shape.ofDims_dims, hbuilt.block, ?_⟩
  · rw [hbuilt.lengths, fullTotal_eq hn, counts_ofCounts hle, hbuilt.outer]
    rfl
  · rw [hbuilt.lengths, ofCounts, List.length_map, List.length_map, h.count]
  · rw [r.batch.length_eq, Shape.blockSize_congr hbuilt.block]

omit [Element α] in
theorem Planned.completes (h : Planned input lengths p lens write content) {out : List α}
    (hout : out.length = (p.tableFor lens).outElements)
    (hmem : Buffers.GivesRegions host (p.tableFor lens)) :
    Completes host input.shape (p.tableFor lens) input.data out := by
  obtain ⟨hblocks, hel⟩ := h.fits.outBlocks_le input.shape.outer_le
  obtain ⟨s, hs⟩ := Shape.exists_withOuter hblocks (h.size ▸ hel)
  obtain ⟨-, -, houter, hblock⟩ := Shape.withOuter_eq_ok.1 hs
  have hin : input.data.length = (p.tableFor lens).inElements := by
    rw [input.length_eq, ← h.fits.total, ← h.size]
    rfl
  have hordered := (p.tableFor_tiles lens).ordered
  rw [Nat.zero_mul, ← hout, ← Nat.zero_add out.length] at hordered
  obtain ⟨c, hc⟩ := Carving.carveFrom_isOk.2 hordered
  refine ⟨⟨_, h.fits.newLengths_eq host input.shape.outer_le⟩, ?_,
    ⟨c, Buffers.carve_eq_ok.2 ⟨hmem, hc⟩⟩, s, hs, fun data hdata => ?_⟩
  · refine Buffers.check_eq_ok.2 ⟨hin, hout, ?_⟩
    rintro _ ⟨⟩
    exact List.length_replicate
  · have hsize : data.length = s.numElements := by
      rw [hdata, hout, Shape.numElements_eq, houter, Shape.blockSize_congr hblock, ← h.size]
      rfl
    exact ⟨⟨s, data, hsize⟩, dif_pos hsize⟩

end Planned

/-- In any session a batch with lengths that comes back is well formed, and once a call has its
table and its memory it does come back. -/
theorem segmented_of_session (calls : List AnyCall) {now : Host}
    (h : ((e.after calls).on now).Rewrites input lengths call planned) :
    (∀ r, (((e.after calls).on now).answer call).1 = .segmented (.ok r) →
      r.WellFormed input lengths) ∧
    ∀ t, planned = .ok t → GivesBatch now α t.outElements t.numSegments →
      (∀ out : List α, out.length = t.outElements →
        Completes now input.shape t input.data out) ∧
      ∃ r, (((e.after calls).on now).answer call).1 = .segmented (.ok r) := by
  refine ⟨fun r hr => ?_, fun t ht hmem => ?_⟩
  · cases hp : planned with
    | error f =>
      rw [h.refused hp] at hr
      cases hr
    | ok t =>
      obtain ⟨p, lens, write, content, hplanned, rfl, hanswer⟩ := h.launched hp
      rw [hanswer, Answer.segmented.injEq] at hr
      exact hplanned.wellFormed hr
  · obtain ⟨p, lens, write, content, hplanned, rfl, hanswer⟩ := h.launched ht
    refine ⟨fun out hout => hplanned.completes hout hmem.regions, ?_⟩
    rw [numSegments_tableFor] at hmem
    obtain ⟨r, hr, -⟩ :=
      exists_rewriteNew hplanned.fits hplanned.size hplanned.writes input.length_eq hmem
    exact ⟨r, hanswer.trans (congrArg Answer.segmented hr)⟩

/-- `threeBlocks` as segments of one and two blocks, with a pad before and after each. -/
def sevenBlocks : Batch UInt8 :=
  ⟨⟨7, [2], by decide, by decide⟩, [9, 9, 1, 2, 0, 0, 9, 9, 3, 4, 5, 6, 0, 0], by decide⟩

def padThree : AnyCall :=
  ⟨.sequential, .add threeBlocks (some [1, 2]) ⟨⟨1, 1⟩, some [9, 9], none⟩⟩

/-- A padded batch and its lengths are taken in again and stripped. -/
theorem segmented_of_session_two_calls :
    (standard.add threeBlocks (some [1, 2]) ⟨⟨1, 1⟩, some [9, 9], none⟩).1 =
        .ok ⟨sevenBlocks, [3, 4]⟩ ∧
      ((standard.after [padThree]).answer (.remove sevenBlocks (some [3, 4]) ⟨1, 1⟩)).1 =
        .segmented (.ok ⟨threeBlocks, [1, 2]⟩) ∧
      Segmented.WellFormed ⟨threeBlocks, [1, 2]⟩ sevenBlocks (some [3, 4]) ∧
      ∃ t, ((standard.after [padThree]).planRemove sevenBlocks.shape (some [3, 4]) ⟨1, 1⟩).1 =
          .ok t ∧
        Completes .sequential sevenBlocks.shape t sevenBlocks.data [0, 0, 0, 0, 0, 0] := by
  have hanswer : ((standard.after [padThree]).answer
      (.remove sevenBlocks (some [3, 4]) ⟨1, 1⟩)).1 =
        .segmented (.ok ⟨threeBlocks, [1, 2]⟩) := by rfl
  have hplan : ((standard.after [padThree]).planRemove sevenBlocks.shape (some [3, 4]) ⟨1, 1⟩).1 =
      .ok ⟨[⟨0, 0, 3⟩, ⟨3, 1, 4⟩], ⟨1, 1⟩, .strip, 2, 7, 3⟩ := by rfl
  obtain ⟨hwell, hcompletes⟩ := segmented_of_session [padThree]
    (.remove ⟨1, 1⟩ : ((standard.after [padThree]).on .sequential).Rewrites sevenBlocks
      (some [3, 4]) _ _)
  have hmem : GivesBatch .sequential UInt8 6 2 :=
    granting_sequential.givesBatch (by decide) (by decide)
  exact ⟨by rfl, hanswer, hwell _ hanswer, _, hplan, (hcompletes _ hplan hmem).1 _ rfl⟩

end Engine

end Ragged
