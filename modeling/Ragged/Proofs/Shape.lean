import Mathlib.Algebra.Ring.Nat
import Ragged.Shape

/-!
# Exact sizes of shapes

A shape is checked by one product, the block dimensions first and the leading one last.
Its block size and its number of elements are products in other orders that keep 64 bits
at every step; the check makes both exact. A shape is made from its own dimensions and from
no others, and another number of blocks fits exactly when it is a length and its elements
can be counted.
-/

namespace Ragged

namespace Word

theorem foldl_wrapProduct (ds : List Nat) (acc : Nat) :
    ds.foldl (fun acc d => acc * d % wordCount) (acc % wordCount) = acc * ds.prod % wordCount := by
  induction ds generalizing acc with
  | nil => simp
  | cons d ds ih =>
    rw [List.foldl_cons, Nat.mod_mul_mod, ih, List.prod_cons, Nat.mul_assoc]

theorem wrapProduct_eq (ds : List Nat) : wrapProduct ds = ds.prod % wordCount := by
  have h := foldl_wrapProduct ds 1
  rwa [Nat.one_mul] at h

theorem productFrom?_append (ds es : List Nat) (acc : Nat) :
    productFrom? acc (ds ++ es) = (productFrom? acc ds).bind fun acc => productFrom? acc es := by
  induction ds generalizing acc with
  | nil => rfl
  | cons d ds ih =>
    rw [List.cons_append, productFrom?, productFrom?]
    cases mul? acc d with
    | none => rfl
    | some acc => exact ih acc

theorem productFrom?_eq_some {ds : List Nat} {acc n : Nat} (h : productFrom? acc ds = some n) :
    n = acc * ds.prod := by
  induction ds generalizing acc with
  | nil => cases h; simp
  | cons d ds ih =>
    unfold productFrom? at h
    cases hm : mul? acc d with
    | none => rw [hm] at h; cases h
    | some m =>
      rw [hm] at h
      obtain ⟨-, rfl⟩ := mul?_eq_some.1 hm
      rw [ih h, List.prod_cons, Nat.mul_assoc]

theorem product?_lt {ds : List Nat} {n : Nat} (h : product? ds = some n) : n < wordCount := by
  rcases ds.eq_nil_or_concat with rfl | ⟨ds, d, rfl⟩
  · cases h; decide
  · unfold product? at h
    rw [List.concat_eq_append, productFrom?_append] at h
    cases hp : productFrom? 1 ds with
    | none => rw [hp] at h; cases h
    | some m =>
      rw [hp, Option.bind_some, productFrom?] at h
      cases hm : mul? m d with
      | none => rw [hm] at h; cases h
      | some k =>
        rw [hm] at h
        cases h
        obtain ⟨hlt, rfl⟩ := mul?_eq_some.1 hm
        exact hlt

theorem product?_concat_isSome {ds : List Nat} {d : Nat} :
    (product? (ds ++ [d])).isSome ↔ (product? ds).isSome ∧ ds.prod * d < wordCount := by
  rw [product?, productFrom?_append, product?]
  cases hp : productFrom? 1 ds with
  | none => simp
  | some m =>
    have hm := productFrom?_eq_some hp
    rw [Nat.one_mul] at hm
    subst hm
    simp only [Option.bind_some, productFrom?, mul?]
    split <;> rename_i h <;> simp [h]

end Word

namespace Shape

theorem block_fits (s : Shape) : (Word.product? s.block).isSome :=
  (Word.product?_concat_isSome.1 s.fits).1

theorem blockSize_eq_prod (s : Shape) : s.blockSize = s.block.prod := by
  obtain ⟨n, hn⟩ := Option.isSome_iff_exists.1 s.block_fits
  have hlt := Word.product?_lt hn
  have heq := Word.productFrom?_eq_some hn
  rw [Nat.one_mul] at heq
  subst heq
  unfold blockSize
  rw [Word.wrapProduct_eq, Nat.mod_eq_of_lt hlt]

theorem elements_lt (s : Shape) : s.outer * s.blockSize < wordCount := by
  rw [blockSize_eq_prod, Nat.mul_comm]
  exact (Word.product?_concat_isSome.1 s.fits).2

/-- Multiplying the leading dimension first, with 64 bits kept at every step, gives the same. -/
theorem numElements_eq (s : Shape) : s.numElements = s.outer * s.blockSize := by
  rw [numElements, dims, Word.wrapProduct_eq, List.prod_cons, ← blockSize_eq_prod,
    Nat.mod_eq_of_lt s.elements_lt]

theorem ext_outer {s t : Shape} (ho : s.outer = t.outer) (hb : s.block = t.block) : s = t := by
  cases s; cases t
  cases ho; cases hb
  rfl

theorem blockSize_congr {s t : Shape} (hb : s.block = t.block) : s.blockSize = t.blockSize := by
  rw [blockSize, hb, blockSize]

theorem map_ofNat_map_toNat {ds : List Int} (h : ∀ d ∈ ds, 0 ≤ d) :
    (ds.map Int.toNat).map Int.ofNat = ds := by
  rw [List.map_map]
  exact (List.map_congr_left fun d hd => Int.toNat_of_nonneg (h d hd)).trans (List.map_id ds)

theorem ofDims_dims (s : Shape) : ofDims (s.dims.map Int.ofNat) = .ok s := by
  have hblock : (s.block.map Int.ofNat).map Int.toNat = s.block := by
    rw [List.map_map]
    exact List.map_id'' (fun _ => rfl) _
  have hneg : (Int.ofNat s.outer :: s.block.map Int.ofNat).find? (· < 0) = none := by
    rw [List.find?_eq_none, ← List.map_cons]
    intro d hd
    obtain ⟨m, -, rfl⟩ := List.mem_map.1 hd
    simp
  rw [dims, List.map_cons, ofDims, hneg]
  simp only [hblock, Int.ofNat_eq_natCast, Int.toNat_natCast]
  rw [dif_pos s.outer_le, dif_pos s.fits]

/-- A shape is made from its dimensions and from no others. -/
theorem ofDims_eq_ok {dims : List Int} {s : Shape} :
    ofDims dims = .ok s ↔ s.dims.map Int.ofNat = dims := by
  refine ⟨fun h => ?_, fun h => h ▸ s.ofDims_dims⟩
  unfold ofDims at h
  cases dims with
  | nil => cases h
  | cons lead rest =>
    simp only at h
    split at h
    · cases h
    · rename_i hneg
      have hnonneg : ∀ d ∈ lead :: rest, 0 ≤ d := fun d hd => by
        simpa using List.find?_eq_none.1 hneg d hd
      split at h
      · split at h
        · cases h
          exact map_ofNat_map_toNat hnonneg
        · cases h
      · cases h

theorem withOuter_eq_ok {s t : Shape} {n : Nat} :
    s.withOuter n = .ok t ↔
      n ≤ maxLength ∧ n * s.blockSize < wordCount ∧ t.outer = n ∧ t.block = s.block := by
  have hdims : ofDims ((n :: s.block).map Int.ofNat) = .ok t ↔
      t.outer = n ∧ t.block = s.block := by
    rw [ofDims_eq_ok, List.map_inj_right fun _ _ => Int.ofNat.inj, dims, List.cons.injEq]
  unfold withOuter
  split
  · rw [hdims]
    refine ⟨?_, fun h => h.2.2⟩
    rintro ⟨rfl, hblock⟩
    exact ⟨t.outer_le, blockSize_congr hblock ▸ t.elements_lt, rfl, hblock⟩
  · rename_i h63
    simp only [reduceCtorEq, false_iff]
    rintro ⟨h, -⟩
    simp only [maxLength] at h
    omega

theorem exists_withOuter {s : Shape} {n : Nat} (hn : n ≤ maxLength)
    (hel : n * s.blockSize < wordCount) : ∃ t, s.withOuter n = .ok t := by
  rw [blockSize_eq_prod, Nat.mul_comm] at hel
  refine ⟨⟨n, s.block, hn, Word.product?_concat_isSome.2 ⟨s.block_fits, hel⟩⟩,
    withOuter_eq_ok.2 ⟨hn, ?_, rfl, rfl⟩⟩
  rwa [blockSize_eq_prod, Nat.mul_comm]

end Shape

end Ragged
