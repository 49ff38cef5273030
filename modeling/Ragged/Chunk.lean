/-!
# Chunks

Work on a list is cut into chunks of one size, the last of which may be shorter.
-/

namespace Ragged

/-- `a / b` rounded up; no chunks when `b` is zero. -/
def ceilDiv (a b : Nat) : Nat := (a + b - 1) / b

def takeChunks {α : Type} (size : Nat) : Nat → List α → List (List α)
  | 0, _ => []
  | count + 1, xs => xs.take size :: takeChunks size count (xs.drop size)

def chunks {α : Type} (size : Nat) (xs : List α) : List (List α) :=
  takeChunks size (ceilDiv xs.length size) xs

theorem flatten_takeChunks {α : Type} (size count : Nat) (xs : List α) :
    (takeChunks size count xs).flatten = xs.take (count * size) := by
  induction count generalizing xs with
  | zero => simp [takeChunks]
  | succ count ih =>
    rw [takeChunks, List.flatten_cons, ih, ← List.take_add, Nat.succ_mul, Nat.add_comm]

theorem le_ceilDiv_mul {a b : Nat} (hb : 0 < b) : a ≤ ceilDiv a b * b := by
  unfold ceilDiv
  have h := Nat.div_add_mod (a + b - 1) b
  have hm := Nat.mod_lt (a + b - 1) hb
  rw [Nat.mul_comm] at h
  omega

theorem flatten_chunks {α : Type} {size : Nat} (hs : 0 < size) (xs : List α) :
    (chunks size xs).flatten = xs := by
  rw [chunks, flatten_takeChunks, List.take_of_length_le (le_ceilDiv_mul hs)]

theorem length_takeChunks {α : Type} (size count : Nat) (xs : List α) :
    (takeChunks size count xs).length = count := by
  induction count generalizing xs with
  | zero => rfl
  | succ count ih => simp [takeChunks, ih]

theorem takeChunks_eq_map {α : Type} (size count : Nat) (xs : List α) :
    takeChunks size count xs =
      (List.range count).map fun i => (xs.drop (i * size)).take size := by
  induction count generalizing xs with
  | zero => rfl
  | succ count ih =>
    rw [takeChunks, ih, List.range_succ_eq_map, List.map_cons, List.map_map, Nat.zero_mul,
      List.drop_zero]
    congr 1
    refine List.map_congr_left fun i _ => ?_
    rw [List.drop_drop, Function.comp_apply, Nat.succ_mul, Nat.add_comm]

theorem length_of_mem_takeChunks {α : Type} {size count : Nat} {xs chunk : List α}
    (h : count * size ≤ xs.length) (hc : chunk ∈ takeChunks size count xs) :
    chunk.length = size := by
  rw [takeChunks_eq_map] at hc
  obtain ⟨i, hi, rfl⟩ := List.mem_map.1 hc
  have hle := Nat.mul_le_mul_right size (Nat.succ_le_of_lt (List.mem_range.1 hi))
  rw [Nat.succ_mul] at hle
  rw [List.length_take, List.length_drop]
  omega

theorem takeChunks_flatten {α : Type} {size : Nat} {parts : List (List α)}
    (h : ∀ part ∈ parts, part.length = size) :
    takeChunks size parts.length parts.flatten = parts := by
  induction parts with
  | nil => rfl
  | cons part parts ih =>
    obtain ⟨hpart, hparts⟩ := List.forall_mem_cons.1 h
    rw [List.flatten_cons, List.length_cons, takeChunks, List.take_left' hpart,
      List.drop_left' hpart, ih hparts]

theorem length_chunks {α : Type} (size : Nat) (xs : List α) :
    (chunks size xs).length = ceilDiv xs.length size :=
  length_takeChunks ..

theorem map_chunks {α β : Type} (f : α → β) (size : Nat) (xs : List α) :
    chunks size (xs.map f) = (chunks size xs).map (List.map f) := by
  unfold chunks
  rw [takeChunks_eq_map, takeChunks_eq_map, List.map_map, List.length_map]
  refine List.map_congr_left fun i _ => ?_
  rw [Function.comp, List.map_take, List.map_drop]

theorem ceilDiv_zero {b : Nat} (hb : 0 < b) : ceilDiv 0 b = 0 := by
  rw [ceilDiv, Nat.zero_add]
  exact Nat.div_eq_of_lt (by omega)

theorem ceilDiv_le {a b : Nat} (hb : 0 < b) : ceilDiv a b ≤ a := by
  unfold ceilDiv
  rw [← Nat.lt_succ_iff, Nat.div_lt_iff_lt_mul hb, Nat.succ_mul]
  have := Nat.le_mul_of_pos_right a hb
  omega

theorem ceilDiv_step {a b : Nat} (ha : 0 < a) (hb : 0 < b) :
    ceilDiv a b = ceilDiv (a - b) b + 1 := by
  unfold ceilDiv
  rcases Nat.le_total b a with h | h
  · rw [show a + b - 1 = (a - b + b - 1) + b by omega, Nat.add_div_right _ hb]
  · rw [Nat.sub_eq_zero_of_le h, Nat.zero_add, Nat.div_eq_of_lt (by omega : b - 1 < b),
      show a + b - 1 = (a - 1) + b by omega, Nat.add_div_right _ hb,
      Nat.div_eq_of_lt (by omega : a - 1 < b)]

theorem chunks_nil {α : Type} {size : Nat} (hs : 0 < size) : chunks size ([] : List α) = [] := by
  rw [chunks, List.length_nil, ceilDiv_zero hs, takeChunks]

theorem chunks_eq_cons {α : Type} {size : Nat} (hs : 0 < size) {xs : List α} (hx : xs ≠ []) :
    chunks size xs = xs.take size :: chunks size (xs.drop size) := by
  rw [chunks, ceilDiv_step (List.length_pos_iff.2 hx) hs, takeChunks, chunks, List.length_drop]

theorem chunks_eq_single {α : Type} {size : Nat} (hs : 0 < size) {xs : List α}
    (hx : xs ≠ []) (hl : xs.length ≤ size) : chunks size xs = [xs] := by
  rw [chunks_eq_cons hs hx, List.take_of_length_le hl, List.drop_of_length_le hl, chunks_nil hs]

end Ragged
