import Mathlib.Algebra.BigOperators.Ring.Finset
import Mathlib.Data.List.TakeWhile
import Ragged.Proofs.Shape

/-!
# Which dimensions are accepted

Dimensions are accepted when they are those of a shape. What a shape holds can be asked of the
list itself: something is in it and nothing negative, the leading dimension is a length, the
block dimensions can be multiplied out from the left in 64 bits, and so can all of them with the
leading one last.

A product from the left leaves 64 bits before the first zero or not at all. The check therefore
bounds every step of a block size, which is multiplied out in its order. The number of elements
has the leading dimension first, and of that it bounds the steps only if no block dimension is
zero: a zero makes the checked product small whatever the leading dimension is.
-/

namespace Ragged

namespace Word

/-! ## Steps of a product -/

theorem productFrom?_isSome_iff {acc : Nat} {ds : List Nat} (h : acc < wordCount) :
    (productFrom? acc ds).isSome ↔ ∀ k, acc * (ds.take k).prod < wordCount := by
  induction ds generalizing acc with
  | nil => simpa [productFrom?] using h
  | cons d ds ih =>
    rw [productFrom?, mul?]
    split
    · rename_i hd
      rw [Option.bind_some, ih hd]
      -- `k` steps after `acc * d` are `k + 1` after `acc`, and no step at all leaves `acc`
      refine ⟨fun hk k => ?_, fun hk k => ?_⟩
      · cases k with
        | zero => simpa using h
        | succ k =>
          rw [List.take_succ_cons, List.prod_cons, ← Nat.mul_assoc]
          exact hk k
      · rw [Nat.mul_assoc, ← List.prod_cons, ← List.take_succ_cons]
        exact hk (k + 1)
    · rename_i hd
      simp only [Option.bind_none, Option.isSome_none, Bool.false_eq_true, false_iff]
      intro hk
      exact hd (by simpa using hk 1)

theorem product?_isSome_iff {ds : List Nat} :
    (product? ds).isSome ↔ ∀ k, (ds.take k).prod < wordCount := by
  have h := @productFrom?_isSome_iff 1 ds (by decide)
  simp only [Nat.one_mul] at h
  exact h

/-- No step of a product is larger than that up to the first zero. -/
theorem prod_take_le (ds : List Nat) (k : Nat) :
    (ds.take k).prod ≤ (ds.takeWhile (· ≠ 0)).prod := by
  induction ds generalizing k with
  | nil => simp
  | cons d ds ih =>
    by_cases hd : d = 0
    · subst hd
      cases k <;> simp
    · -- what is multiplied before the first zero is at least the empty product
      have hpos := ih 0
      rw [List.take_zero, List.prod_nil] at hpos
      rw [List.takeWhile_cons_of_pos (by simpa using hd), List.prod_cons]
      cases k with
      | zero => exact Nat.mul_pos (Nat.pos_of_ne_zero hd) hpos
      | succ k =>
        rw [List.take_succ_cons, List.prod_cons]
        exact Nat.mul_le_mul_left d (ih k)

theorem take_cons_fits_iff {n : Nat} {ds : List Nat} :
    (∀ k, ((n :: ds).take k).prod < wordCount) ↔
      n * (ds.takeWhile (· ≠ 0)).prod < wordCount := by
  refine ⟨fun h => ?_, fun h k => ?_⟩
  · have htake := List.prefix_iff_eq_take.1 (List.takeWhile_prefix (l := ds) (· ≠ 0))
    rw [htake, ← List.prod_cons, ← List.take_succ_cons]
    exact h _
  · cases k with
    | zero =>
      rw [List.take_zero, List.prod_nil]
      decide
    | succ k =>
      rw [List.take_succ_cons, List.prod_cons]
      exact Nat.lt_of_le_of_lt (Nat.mul_le_mul_left n (prod_take_le ds k)) h

end Word

namespace Shape

/-! ## Acceptance -/

theorem prod_map_ofNat (ds : List Nat) : (ds.map Int.ofNat).prod = ds.prod :=
  (Nat.cast_list_prod ds).symm

theorem prod_take_map_ofNat_lt {ds : List Nat} {k : Nat} :
    ((ds.map Int.ofNat).take k).prod < wordCount ↔ (ds.take k).prod < wordCount := by
  rw [← List.map_take, prod_map_ofNat]
  exact Int.ofNat_lt

/-- What is asked of dimensions. Of the block dimensions every beginning is asked, so a zero
among them does not hide what stands before it. -/
structure Admitted (dims : List Int) : Prop where
  nonempty : dims ≠ []
  nonneg : ∀ d ∈ dims, 0 ≤ d
  lead_le : dims.headD 0 ≤ maxLength
  block_lt : ∀ k, (dims.tail.take k).prod < wordCount
  elements_lt : dims.headD 0 * dims.tail.prod < wordCount

theorem admitted_counts {n : Nat} {block : List Nat} :
    Admitted ((n :: block).map Int.ofNat) ↔
      n ≤ maxLength ∧ (Word.product? (block ++ [n])).isSome := by
  have helements : (n : Int) * (block.map Int.ofNat).prod < wordCount ↔
      block.prod * n < wordCount := by
    rw [prod_map_ofNat, Nat.mul_comm]
    exact_mod_cast Iff.rfl
  rw [Word.product?_concat_isSome, Word.product?_isSome_iff]
  refine ⟨?_, ?_⟩
  · rintro ⟨-, -, hlead, hblock, hel⟩
    exact ⟨Int.ofNat_le.1 hlead, fun k => prod_take_map_ofNat_lt.1 (hblock k), helements.1 hel⟩
  · rintro ⟨hlead, hblock, hel⟩
    refine ⟨List.cons_ne_nil _ _, fun d hd => ?_, Int.ofNat_le.2 hlead,
      fun k => prod_take_map_ofNat_lt.2 (hblock k), helements.2 hel⟩
    obtain ⟨m, -, rfl⟩ := List.mem_map.1 hd
    exact Int.natCast_nonneg m

theorem exists_ofDims_iff {dims : List Int} :
    (∃ s, ofDims dims = .ok s) ↔ Admitted dims := by
  refine ⟨?_, fun h => ?_⟩
  · rintro ⟨s, h⟩
    rw [← ofDims_eq_ok.1 h]
    exact admitted_counts.2 ⟨s.outer_le, s.fits⟩
  · cases dims with
    | nil => exact absurd rfl h.nonempty
    | cons lead rest =>
      -- without negative ones they are dimensions that are counts
      have hcounts := map_ofNat_map_toNat h.nonneg
      rw [← hcounts] at h
      obtain ⟨hle, hfits⟩ := admitted_counts.1 h
      exact ⟨⟨_, _, hle, hfits⟩, ofDims_eq_ok.2 hcounts⟩

/-- What is asked of dimensions is asked once. Those that pass make a shape whose sizes are exact,
whatever the order they are multiplied out in, and which can have another number of blocks if that
is a length and the elements can be counted. -/
theorem ofDims_admitted (dims : List Int) :
    ((∃ s, ofDims dims = .ok s) ↔ Admitted dims) ∧
      ∀ s, ofDims dims = .ok s →
        s.dims.map Int.ofNat = dims ∧ (s.blockSize : Int) = dims.tail.prod ∧
          s.numElements = s.outer * s.blockSize ∧
          ∀ m, ((∃ t, s.withOuter m = .ok t) ↔ m ≤ maxLength ∧ m * s.blockSize < wordCount) ∧
            ∀ t, s.withOuter m = .ok t → t.outer = m ∧ t.block = s.block := by
  refine ⟨exists_ofDims_iff, fun s h => ?_⟩
  obtain rfl := ofDims_eq_ok.1 h
  refine ⟨rfl, ?_, s.numElements_eq, fun m => ⟨⟨?_, ?_⟩, fun t ht => ?_⟩⟩
  · rw [blockSize_eq_prod, dims, List.map_cons, List.tail_cons, prod_map_ofNat]
  · rintro ⟨t, ht⟩
    obtain ⟨hle, hel, -⟩ := withOuter_eq_ok.1 ht
    exact ⟨hle, hel⟩
  · rintro ⟨hle, hel⟩
    exact exists_withOuter hle hel
  · exact (withOuter_eq_ok.1 ht).2.2

/-- A zero after dimensions that already make `2 ^ 71` elements. -/
theorem ofDims_admitted_zero_last :
    ∃ s, ofDims [0x7fffffff, 0x10000000000, 0] = .ok s ∧
      Admitted [0x7fffffff, 0x10000000000, 0] ∧ s.blockSize = 0 ∧ s.numElements = 0 ∧
      ∃ t, s.withOuter 5 = .ok t ∧ t.outer = 5 ∧ t.block = s.block := by
  have h : ofDims [0x7fffffff, 0x10000000000, 0] =
      .ok ⟨0x7fffffff, [0x10000000000, 0], by decide, by decide⟩ := by rfl
  obtain ⟨haccepted, hsizes⟩ := ofDims_admitted [0x7fffffff, 0x10000000000, 0]
  obtain ⟨-, -, hnum, hother⟩ := hsizes _ h
  obtain ⟨hiff, hkept⟩ := hother 5
  obtain ⟨t, ht⟩ := hiff.2 ⟨by decide, by decide⟩
  exact ⟨_, h, haccepted.1 ⟨_, h⟩, by rfl, hnum, t, ht, hkept t ht⟩

/-! ## Steps of the sizes -/

/-- Block sizes are multiplied out in 64 bits. So are numbers of elements exactly if the leading
dimension and those before the first zero are, and always if no block dimension is zero. -/
theorem elements_fit_iff {dims : List Int} {s : Shape} (h : ofDims dims = .ok s) :
    (∀ k, (dims.tail.take k).prod < wordCount) ∧
      ((∀ k, (dims.take k).prod < wordCount) ↔
        s.outer * (s.block.takeWhile (· ≠ 0)).prod < wordCount) ∧
      (s.blockSize ≠ 0 → ∀ k, (dims.take k).prod < wordCount) := by
  have hadmitted := exists_ofDims_iff.1 ⟨s, h⟩
  obtain rfl := ofDims_eq_ok.1 h
  have hiff : (∀ k, ((s.dims.map Int.ofNat).take k).prod < wordCount) ↔
      s.outer * (s.block.takeWhile (· ≠ 0)).prod < wordCount := by
    simp only [prod_take_map_ofNat_lt]
    exact Word.take_cons_fits_iff
  refine ⟨hadmitted.block_lt, hiff, fun hsize => hiff.2 ?_⟩
  have hnonzero : ∀ d ∈ s.block, d ≠ 0 := by
    rintro d hd rfl
    rw [blockSize_eq_prod] at hsize
    exact hsize (List.prod_eq_zero hd)
  rw [List.takeWhile_eq_self_iff.2 (by simpa using hnonzero), ← blockSize_eq_prod]
  exact s.elements_lt

theorem elements_fit_iff_zero_last :
    ∃ s, ofDims [2, 0x4000000000000000, 0] = .ok s ∧
      ∀ k, (([2, 0x4000000000000000, 0] : List Int).take k).prod < wordCount := by
  have h : ofDims [2, 0x4000000000000000, 0] =
      .ok ⟨2, [0x4000000000000000, 0], by decide, by decide⟩ := by rfl
  obtain ⟨-, hiff, -⟩ := elements_fit_iff h
  exact ⟨_, h, hiff.2 (by decide)⟩

/-- Two dimensions before a zero that make `2 ^ 64` elements. They are accepted, and the second
step of the number of elements is past 64 bits. -/
theorem elements_past_word :
    ∃ s, ofDims [4, 0x4000000000000000, 0] = .ok s ∧ s.numElements = 0 ∧
      (([4, 0x4000000000000000, 0] : List Int).take 2).prod = wordCount ∧
      ¬ ∀ k, (([4, 0x4000000000000000, 0] : List Int).take k).prod < wordCount := by
  have h : ofDims [4, 0x4000000000000000, 0] =
      .ok ⟨4, [0x4000000000000000, 0], by decide, by decide⟩ := by rfl
  have hstep : (([4, 0x4000000000000000, 0] : List Int).take 2).prod = wordCount := by decide
  exact ⟨_, h, by rfl, hstep, fun hk => absurd (hk 2) (Int.not_lt.2 (Int.le_of_eq hstep.symm))⟩

end Shape

end Ragged
