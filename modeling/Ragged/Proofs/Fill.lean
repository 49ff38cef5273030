import Ragged.Fill
import Ragged.Proofs.Spans

/-!
# Filling is repetition

A buffer filled from a template holds as many whole templates as it has room for, and
what is left over after them keeps its value. Chunks do not show: every chunk but the
last is a whole number of templates.
-/

namespace Ragged

variable {α : Type}

/-- What a fill leaves of a buffer: whole templates, and then the old elements. -/
def repeated (template buffer : List α) : List α :=
  (List.replicate (buffer.length / template.length) template).flatten ++
    buffer.drop (buffer.length / template.length * template.length)

theorem repeated_of_lt {template buffer : List α} (h : buffer.length < template.length) :
    repeated template buffer = buffer := by
  unfold repeated
  rw [Nat.div_eq_of_lt h]
  simp

theorem getElem?_flatten_replicate {n i : Nat} {xs : List α} (h : i < n * xs.length) :
    (List.replicate n xs).flatten[i]? = xs[i % xs.length]? := by
  induction n generalizing i with
  | zero => omega
  | succ n ih =>
    rw [Nat.succ_mul] at h
    rw [List.replicate_succ, List.flatten_cons]
    rcases Nat.lt_or_ge i xs.length with hlt | hge
    · rw [List.getElem?_append_left hlt, Nat.mod_eq_of_lt hlt]
    · rw [List.getElem?_append_right hge, ih (by omega), ← Nat.mod_eq_sub_mod hge]

theorem getElem?_repeated_of_lt {template buffer : List α} {i : Nat}
    (h : i < template.length * (buffer.length / template.length)) :
    (repeated template buffer)[i]? = template[i % template.length]? := by
  rw [Nat.mul_comm] at h
  unfold repeated
  rw [List.getElem?_append_left (by simpa using h), getElem?_flatten_replicate h]

theorem getElem?_repeated_of_le {template buffer : List α} {i : Nat}
    (h : template.length * (buffer.length / template.length) ≤ i) :
    (repeated template buffer)[i]? = buffer[i]? := by
  rw [Nat.mul_comm] at h
  unfold repeated
  rw [List.getElem?_append_right (by simpa using h), List.getElem?_drop]
  congr 1
  simp only [List.length_flatten, List.map_replicate, List.sum_replicate_nat]
  omega

theorem repeated_split {template buffer : List α} (ht : 0 < template.length) {k : Nat}
    (h : k * template.length ≤ buffer.length) :
    repeated template buffer =
      repeated template (buffer.take (k * template.length)) ++
        repeated template (buffer.drop (k * template.length)) := by
  have hq : buffer.length / template.length =
      k + (buffer.length - k * template.length) / template.length := by
    obtain ⟨r, hr⟩ := Nat.exists_eq_add_of_le h
    rw [hr, Nat.add_sub_cancel_left, Nat.add_comm, Nat.add_mul_div_right _ _ ht, Nat.add_comm]
  rw [repeated, repeated, repeated, List.length_take, List.length_drop, Nat.min_eq_left h,
    Nat.mul_div_cancel _ ht, hq, ← List.replicate_append_replicate, List.flatten_append,
    Nat.add_mul, List.drop_drop]
  simp

theorem fillChunk_eq {template : List α} (ht : 0 < template.length) (chunk : List α) :
    fillChunk template chunk = repeated template chunk := by
  generalize hn : chunk.length = n
  induction n using Nat.strongRecOn generalizing chunk with
  | ind n ih =>
    by_cases hne : chunk = []
    · subst hne
      simp [fillChunk, chunks_nil ht, repeated]
    · rcases Nat.lt_or_ge chunk.length template.length with hlt | hge
      · rw [repeated_of_lt hlt, fillChunk, chunks_eq_single ht hne (Nat.le_of_lt hlt)]
        simp [Nat.ne_of_lt hlt]
      · have hrest := ih (chunk.length - template.length) (by omega) (chunk.drop template.length)
          (by rw [List.length_drop])
        have hfirst : repeated template (chunk.take template.length) = template := by
          unfold repeated
          rw [List.length_take, Nat.min_eq_left hge, Nat.div_self ht]
          simp
        have hone : 1 * template.length ≤ chunk.length := by rwa [Nat.one_mul]
        have hsplit := repeated_split ht hone
        rw [Nat.one_mul, hfirst, ← hrest] at hsplit
        rw [hsplit, fillChunk, chunks_eq_cons ht hne, List.map_cons, List.flatten_cons,
          List.length_take, Nat.min_eq_left hge, if_pos rfl, fillChunk]

theorem flatten_fillChunk {template : List α} (ht : 0 < template.length) {k : Nat} (hk : 0 < k)
    (buffer : List α) :
    ((chunks (k * template.length) buffer).map (fillChunk template)).flatten =
      repeated template buffer := by
  have hs : 0 < k * template.length := Nat.mul_pos hk ht
  generalize hn : buffer.length = n
  induction n using Nat.strongRecOn generalizing buffer with
  | ind n ih =>
    by_cases hne : buffer = []
    · subst hne
      simp [chunks_nil hs, repeated]
    · rcases Nat.lt_or_ge (k * template.length) buffer.length with hlt | hle
      · have hpos := List.length_pos_iff.2 hne
        have hrest := ih (buffer.length - k * template.length) (by omega)
          (buffer.drop (k * template.length)) (by rw [List.length_drop])
        rw [chunks_eq_cons hs hne, List.map_cons, List.flatten_cons, fillChunk_eq ht, hrest,
          ← repeated_split ht (Nat.le_of_lt hlt)]
      · rw [chunks_eq_single hs hne hle]
        simp [fillChunk_eq ht]

variable [Element α]

def filled (template : Option (List α)) (buffer : List α) : List α :=
  match template with
  | none => List.replicate buffer.length Element.zero
  | some block => repeated block buffer

theorem length_filled (template : Option (List α)) (buffer : List α) :
    (filled template buffer).length = buffer.length := by
  cases template with
  | none => exact List.length_replicate
  | some block =>
    have hle := Nat.div_mul_le_self buffer.length block.length
    unfold filled repeated
    simp only
    rw [List.length_append, List.length_flatten, List.map_replicate, List.sum_replicate_nat,
      List.length_drop]
    omega

theorem fill_eq {grain : Nat} (hg : 0 < grain) (template : Option (List α)) (buffer : List α) :
    fill template grain buffer = filled template buffer := by
  unfold fill filled
  rcases template with - | (- | ⟨x, xs⟩)
  · rw [← List.map_flatten, flatten_chunks hg, List.map_const']
  · simp [repeated]
  · have ht : 0 < (x :: xs).length := Nat.succ_pos _
    exact flatten_fillChunk ht (Nat.lt_of_lt_of_le Nat.zero_lt_one (Nat.le_max_right ..)) buffer

/-- A template is written again and again from the first element on. Elements that no whole
template covers keep their value, which with an empty template all of them do. Without a template
all elements become zero. No grain shows in any of this. -/
theorem fill_repeats {grain : Nat} (hg : 0 < grain) (buffer : List α) :
    (∀ template : List α,
        (fill (some template) grain buffer).length = buffer.length ∧
          (∀ i < template.length * (buffer.length / template.length),
            (fill (some template) grain buffer)[i]? = template[i % template.length]?) ∧
          ∀ i, template.length * (buffer.length / template.length) ≤ i →
            (fill (some template) grain buffer)[i]? = buffer[i]?) ∧
      fill none grain buffer = List.replicate buffer.length Element.zero ∧
      fill (some []) grain buffer = buffer ∧
      ∀ template other, 0 < other → fill template other buffer = fill template grain buffer := by
  refine ⟨fun template => ?_, fill_eq hg none buffer, rfl, fun template other ho => ?_⟩
  · rw [fill_eq hg]
    exact ⟨length_filled (some template) buffer, fun _ => getElem?_repeated_of_lt,
      fun _ => getElem?_repeated_of_le⟩
  · rw [fill_eq ho, fill_eq hg]

/-- Eight elements have room for two templates of three; the last two stay, whether the chunks
are of one template or of both. -/
theorem fill_repeats_three_in_eight :
    fill (some [7, 8, 9]) 4 ([0, 1, 2, 3, 4, 5, 6, 7] : List UInt8) = [7, 8, 9, 7, 8, 9, 6, 7] ∧
      (fill (some [7, 8, 9]) 4 ([0, 1, 2, 3, 4, 5, 6, 7] : List UInt8))[4]? = some 8 ∧
      (fill (some [7, 8, 9]) 4 ([0, 1, 2, 3, 4, 5, 6, 7] : List UInt8))[7]? = some 7 ∧
      ∀ grain, 0 < grain → fill (some [7, 8, 9]) grain ([0, 1, 2, 3, 4, 5, 6, 7] : List UInt8) =
        [7, 8, 9, 7, 8, 9, 6, 7] := by
  have hg : 0 < 4 := by decide
  have h : fill (some [7, 8, 9]) 4 ([0, 1, 2, 3, 4, 5, 6, 7] : List UInt8) =
      [7, 8, 9, 7, 8, 9, 6, 7] := by rfl
  obtain ⟨hrepeats, -, -, hgrains⟩ := fill_repeats hg ([0, 1, 2, 3, 4, 5, 6, 7] : List UInt8)
  obtain ⟨-, hbefore, hafter⟩ := hrepeats [7, 8, 9]
  exact ⟨h, hbefore 4 (by decide), hafter 7 (by decide),
    fun grain hgrain => (hgrains _ grain hgrain).trans h⟩

/-- `width` blocks of padding: copies of the template, or of a block of zeros without one. -/
def padRun (template : Option (List α)) (size width : Nat) : List α :=
  (List.replicate width (template.getD (List.replicate size Element.zero))).flatten

theorem length_padRun {template : Option (List α)} {size : Nat}
    (h : ∀ block, template = some block → block.length = size) (width : Nat) :
    (padRun template size width).length = width * size := by
  have hb : (template.getD (List.replicate size Element.zero)).length = size := by
    cases template with
    | none => simp
    | some block => exact h block rfl
  unfold padRun
  rw [List.length_flatten, List.map_replicate, hb, List.sum_replicate_nat]

theorem padRun_add (template : Option (List α)) (size m n : Nat) :
    padRun template size (m + n) = padRun template size m ++ padRun template size n := by
  unfold padRun
  rw [← List.replicate_append_replicate, List.flatten_append]

/-- Filling a pad writes its padding whatever the pad held before. -/
theorem filled_eq_padRun {template : Option (List α)} {size width : Nat}
    (h : ∀ block, template = some block → block.length = size) {buffer : List α}
    (hb : buffer.length = width * size) : filled template buffer = padRun template size width := by
  cases template with
  | none => rw [filled, hb, padRun, Option.getD_none, List.flatten_replicate_replicate]
  | some block =>
    have hs := h block rfl
    subst hs
    rw [filled, padRun, Option.getD_some, repeated, hb]
    rcases Nat.eq_zero_or_pos block.length with h0 | hpos
    · rw [List.length_eq_zero_iff.1 h0] at hb ⊢
      rw [List.length_nil, Nat.mul_zero, List.length_eq_zero_iff] at hb
      simp [hb]
    · rw [Nat.mul_div_cancel _ hpos, List.drop_of_length_le (Nat.le_of_eq hb), List.append_nil]

end Ragged
