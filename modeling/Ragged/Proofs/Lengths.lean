import Mathlib.Algebra.Order.Ring.Int
import Ragged.Lengths

/-!
# Lengths in the padded basis

`PaddedBasis outer pad lengths lens` says that a padded batch of `outer` blocks with `pad`
blocks of padding to a segment has segments of `lens` blocks, read from the lengths a
caller gives. Lengths that describe the batch in either basis are read so, and others are
left for the planner to refuse: they do not sum to the batch.
-/

namespace Ragged.Lengths

def counts (ls : List Int32) : List Nat := ls.map fun l => l.toInt.toNat

def ofCounts (lens : List Nat) : List Int32 := lens.map Int32.ofNat

/-- The lengths given, or the one length of a batch that is one segment. -/
def orWhole (outer : Nat) (lengths : Option (List Int32)) : List Int32 :=
  lengths.getD [Int32.ofNat outer]

/-- No length is negative. -/
abbrev Nonneg (ls : List Int32) : Prop := ∀ l ∈ ls, 0 ≤ l.toInt

theorem toInt_ofNat {n : Nat} (h : n ≤ maxLength) : (Int32.ofNat n).toInt = n :=
  Int32.toInt_ofNat_of_lt (by simp only [maxLength] at h; omega)

@[simp] theorem length_counts (ls : List Int32) : (counts ls).length = ls.length := by
  simp [counts]

theorem counts_cons (l : Int32) (ls : List Int32) :
    counts (l :: ls) = l.toInt.toNat :: counts ls := rfl

theorem Nonneg.of_cons {l : Int32} {ls : List Int32} (h : Nonneg (l :: ls)) :
    0 ≤ l.toInt ∧ Nonneg ls :=
  ⟨h l List.mem_cons_self, fun x hx => h x (List.mem_cons_of_mem l hx)⟩

/-! ## Totals -/

/-- All blocks of all segments, however many there are. -/
def fullTotal (ls : List Int32) : Int := (ls.map Int32.toInt).sum

theorem sum_map_ofInt (xs : List Int) : sum (xs.map Int64.ofInt) = Int64.ofInt xs.sum := by
  induction xs with
  | nil => rfl
  | cons x xs ih =>
    show Int64.ofInt x + sum (xs.map Int64.ofInt) = _
    rw [ih, List.sum_cons, Int64.ofInt_add]

theorem map_toInt64 (ls : List Int32) :
    ls.map Int32.toInt64 = (ls.map Int32.toInt).map Int64.ofInt := by
  rw [List.map_map]
  exact List.map_congr_left fun l _ => by
    rw [Function.comp, ← Int32.toInt_toInt64, Int64.ofInt_toInt]

theorem total_eq_ofInt (ls : List Int32) : total ls = Int64.ofInt (fullTotal ls) := by
  rw [total, map_toInt64, sum_map_ofInt, fullTotal]

theorem fullTotal_eq {ls : List Int32} (h : Nonneg ls) :
    fullTotal ls = ((counts ls).sum : Nat) := by
  induction ls with
  | nil => rfl
  | cons l ls ih =>
    have hl := h.of_cons.1
    have ht := ih h.of_cons.2
    simp only [fullTotal] at ht ⊢
    rw [List.map_cons, List.sum_cons, ht, counts_cons, List.sum_cons]
    omega

theorem fullTotal_append (ls ls' : List Int32) :
    fullTotal (ls ++ ls') = fullTotal ls + fullTotal ls' := by
  unfold fullTotal
  rw [List.map_append, List.sum_append_int]

theorem Nonneg.fullTotal_take {ls : List Int32} (h : Nonneg ls) (n : Nat) :
    0 ≤ fullTotal (ls.take n) ∧ fullTotal (ls.take n) ≤ fullTotal ls := by
  have htake : Nonneg (ls.take n) := fun l hl => h l (List.mem_of_mem_take hl)
  have hdrop : Nonneg (ls.drop n) := fun l hl => h l (List.mem_of_mem_drop hl)
  have hsplit := fullTotal_append (ls.take n) (ls.drop n)
  rw [List.take_append_drop, fullTotal_eq hdrop] at hsplit
  have hfirst := fullTotal_eq htake
  omega

/-- All blocks of all segments can be counted in 64 bits with a sign. -/
abbrev Counted (ls : List Int32) : Prop := (counts ls).sum < 0x8000000000000000

/-- Totals that fit are exact. -/
theorem toInt_total {ls : List Int32} (h : Nonneg ls) (hc : Counted ls) :
    (total ls).toInt = ((counts ls).sum : Nat) := by
  rw [total_eq_ofInt, fullTotal_eq h]
  exact Int64.toInt_ofInt_of_le (by omega) (by unfold Counted at hc; omega)

theorem total_eq_ofNat {ls : List Int32} (h : Nonneg ls) :
    total ls = Int64.ofNat (counts ls).sum := by
  rw [total_eq_ofInt, fullTotal_eq h, Int64.ofInt_eq_ofNat]

theorem mem_le_sum {lens : List Nat} {l : Nat} (h : l ∈ lens) : l ≤ lens.sum := by
  induction lens with
  | nil => cases h
  | cons k lens ih =>
    rw [List.sum_cons]
    rcases List.mem_cons.1 h with rfl | h
    · omega
    · have := ih h
      omega

theorem sum_map_add (lens : List Nat) (pad : Nat) :
    (lens.map (· + pad)).sum = lens.sum + lens.length * pad := by
  induction lens with
  | nil => simp
  | cons l lens ih =>
    rw [List.map_cons, List.sum_cons, ih, List.sum_cons, List.length_cons, Nat.succ_mul]
    omega

theorem ofCounts_counts {ls : List Int32} (h : Nonneg ls) : ofCounts (counts ls) = ls := by
  unfold ofCounts counts
  rw [List.map_map]
  calc ls.map _ = ls.map id := List.map_congr_left fun l hl => by
        have hl0 := h l hl
        simp only [Function.comp, id]
        rw [← Int32.ofInt_eq_ofNat, Int.toNat_of_nonneg hl0, Int32.ofInt_toInt]
    _ = ls := List.map_id ls

theorem nonneg_ofCounts {lens : List Nat} (h : ∀ l ∈ lens, l ≤ maxLength) :
    Nonneg (ofCounts lens) := by
  intro l hl
  obtain ⟨n, hn, rfl⟩ := List.mem_map.1 hl
  rw [toInt_ofNat (h n hn)]
  omega

theorem counts_ofCounts {lens : List Nat} (h : ∀ l ∈ lens, l ≤ maxLength) :
    counts (ofCounts lens) = lens := by
  unfold counts ofCounts
  rw [List.map_map]
  calc lens.map _ = lens.map id := List.map_congr_left fun n hn => by
        simp only [Function.comp, toInt_ofNat (h n hn), Int.toNat_natCast, id]
    _ = lens := List.map_id lens

theorem map_toInt_ofCounts {lens : List Nat} (h : ∀ l ∈ lens, l ≤ maxLength) :
    (ofCounts lens).map Int32.toInt = lens.map Int.ofNat := by
  unfold ofCounts
  rw [List.map_map]
  exact List.map_congr_left fun n hn => toInt_ofNat (h n hn)

theorem map_counts {β : Type} {ls : List Int32} (h : Nonneg ls) {f : Nat → β} {g : Int → β}
    (hfg : ∀ n : Nat, f n = g n) : (counts ls).map f = ls.map fun l => g l.toInt := by
  unfold counts
  rw [List.map_map]
  apply List.map_congr_left
  intro l hl
  rw [Function.comp, hfg, Int.toNat_of_nonneg (h l hl)]

theorem orWhole_none {outer : Nat} (h : outer ≤ maxLength) :
    Nonneg (orWhole outer none) ∧ counts (orWhole outer none) = [outer] := by
  have hone : ∀ l ∈ [outer], l ≤ maxLength := by simpa using h
  exact ⟨nonneg_ofCounts hone, counts_ofCounts hone⟩

/-! ## The first length that is refused -/

theorem exists_append_of_not_forall {α : Type} {P : α → Prop} {xs : List α}
    (h : ¬ ∀ x ∈ xs, P x) :
    ∃ before x after, xs = before ++ x :: after ∧ (∀ y ∈ before, P y) ∧ ¬ P x := by
  classical
  cases hf : xs.find? fun x => decide (¬ P x) with
  | none =>
    have hall := List.find?_eq_none.1 hf
    exact absurd (fun x hx => by simpa using hall x hx) h
  | some x =>
    obtain ⟨hx, before, after, rfl, hbefore⟩ := List.find?_eq_some_iff_append.1 hf
    exact ⟨before, x, after, rfl, by simpa using hbefore, by simpa using hx⟩

section FirstNegative

variable {before after : List Int32} {l : Int32}

theorem firstNegative_append (e : Nat) (hb : Nonneg before) (hl : l.toInt < 0) :
    firstNegative e (before ++ l :: after) = some (e + before.length, l) := by
  induction before generalizing e with
  | nil =>
    rw [List.nil_append, firstNegative, if_pos hl]
    rfl
  | cons b before ih =>
    rw [List.cons_append, firstNegative, if_neg (Int.not_lt.2 hb.of_cons.1), ih _ hb.of_cons.2,
      List.length_cons, Nat.add_right_comm, Nat.add_assoc]

theorem check_append (hb : Nonneg before) (hl : l.toInt < 0) :
    check (before ++ l :: after) = .error (.negativeLength before.length l.toInt) := by
  rw [check, firstNegative_append 0 hb hl]
  simp only [Nat.zero_add]

end FirstNegative

/-! ## The padded basis -/

/-- `lens` are the padded lengths of a batch of `outer` blocks, `pad` of them padding in
every segment. -/
inductive PaddedBasis (outer pad : Nat) : Option (List Int32) → List Nat → Prop where
  /-- Without lengths the batch is one segment. -/
  | whole : PaddedBasis outer pad none [outer]
  /-- The lengths sum to the batch. -/
  | padded {ls : List Int32} : Nonneg ls → (counts ls).sum = outer →
      PaddedBasis outer pad (some ls) (counts ls)
  /-- The lengths sum to the batch without its padding. -/
  | payload {ls : List Int32} : Nonneg ls → (counts ls).sum + ls.length * pad = outer →
      PaddedBasis outer pad (some ls) ((counts ls).map (· + pad))

theorem PaddedBasis.sum_eq {outer pad : Nat} {lengths : Option (List Int32)} {lens : List Nat}
    (h : PaddedBasis outer pad lengths lens) : lens.sum = outer := by
  cases h with
  | whole => simp
  | padded _ hsum => exact hsum
  | payload _ hsum => rw [sum_map_add, length_counts, hsum]

theorem PaddedBasis.len_le {outer pad : Nat} {lengths : Option (List Int32)} {lens : List Nat}
    (h : PaddedBasis outer pad lengths lens) (ho : outer ≤ maxLength) :
    ∀ len ∈ lens, len ≤ maxLength :=
  fun _ hl => (mem_le_sum hl).trans (h.sum_eq.trans_le ho)

theorem PaddedBasis.nonneg {outer pad : Nat} {ls : List Int32} {lens : List Nat}
    (h : PaddedBasis outer pad (some ls) lens) : Nonneg ls := by
  cases h with
  | padded hn _ => exact hn
  | payload hn _ => exact hn

/-- Both bases read lengths that fit both in the same way. -/
theorem PaddedBasis.unique {outer pad : Nat} {lengths : Option (List Int32)} {lens lens' : List Nat}
    (h : PaddedBasis outer pad lengths lens) (h' : PaddedBasis outer pad lengths lens') :
    lens = lens' := by
  have key : ∀ {ls : List Int32}, (counts ls).sum = outer →
      (counts ls).sum + ls.length * pad = outer → counts ls = (counts ls).map (· + pad) := by
    intro ls h1 h2
    rcases Nat.mul_eq_zero.1 (show ls.length * pad = 0 by omega) with h0 | h0
    · simp [List.length_eq_zero_iff.1 h0, counts]
    · simp [h0]
  cases h with
  | whole => cases h'; rfl
  | padded _ hsum =>
    cases h' with
    | padded => rfl
    | payload _ hsum' => exact key hsum hsum'
  | payload _ hsum =>
    cases h' with
    | padded _ hsum' => exact (key hsum' hsum).symm
    | payload => rfl

section OrWhole

variable {outer pad : Nat} {lengths : Option (List Int32)}

theorem orWhole_iff (ho : outer ≤ maxLength) :
    (Nonneg (orWhole outer lengths) ∧ (counts (orWhole outer lengths)).sum = outer) ↔
      ∀ ls ∈ lengths, Nonneg ls ∧ fullTotal ls = outer := by
  cases lengths with
  | none =>
    obtain ⟨hn, hc⟩ := orWhole_none ho
    rw [hc]
    exact ⟨fun _ _ hl => (nomatch hl), fun _ => ⟨hn, List.sum_singleton⟩⟩
  | some ls =>
    have hsum : Nonneg ls → ((counts ls).sum = outer ↔ fullTotal ls = outer) := by
      intro hn
      rw [fullTotal_eq hn, Int.ofNat_inj]
    simp only [Option.mem_some_iff, forall_eq']
    exact and_congr_right hsum

/-- Lengths that sum to the batch are in the padded basis, whatever the padding. -/
theorem paddedBasis_orWhole (ho : outer ≤ maxLength) (hn : Nonneg (orWhole outer lengths))
    (hsum : (counts (orWhole outer lengths)).sum = outer) :
    PaddedBasis outer pad lengths (counts (orWhole outer lengths)) := by
  cases lengths with
  | none =>
    rw [(orWhole_none ho).2]
    exact .whole
  | some ls => exact .padded hn hsum

theorem PaddedBasis.eq_counts {lens : List Nat} (h : PaddedBasis outer pad lengths lens)
    (ho : outer ≤ maxLength) (ht : ∀ ls ∈ lengths, fullTotal ls = outer) :
    Nonneg (orWhole outer lengths) ∧ counts (orWhole outer lengths) = lens := by
  cases lengths with
  | none =>
    obtain ⟨hn, hc⟩ := orWhole_none ho
    exact ⟨hn, hc.trans (PaddedBasis.whole.unique h)⟩
  | some ls =>
    have hn := h.nonneg
    have hsum := ht ls rfl
    rw [fullTotal_eq hn] at hsum
    exact ⟨hn, (PaddedBasis.padded hn (by omega)).unique h⟩

/-- Lengths of a batch, given once it has been padded, are in the payload basis. -/
theorem paddedBasis_payload (ho : outer ≤ maxLength) (hn : Nonneg (orWhole outer lengths))
    (hsum : (counts (orWhole outer lengths)).sum = outer) :
    PaddedBasis (outer + (orWhole outer lengths).length * pad) pad lengths
      ((counts (orWhole outer lengths)).map (· + pad)) := by
  cases lengths with
  | none =>
    rw [(orWhole_none ho).2, orWhole, Option.getD_none, List.length_singleton, Nat.one_mul]
    exact .whole
  | some ls => exact .payload hn (hsum ▸ rfl)

theorem paddedBasis_ofCounts {lens : List Nat} (ho : outer ≤ maxLength) (hsum : lens.sum = outer) :
    PaddedBasis outer pad (some (ofCounts lens)) lens := by
  have hle : ∀ l ∈ lens, l ≤ maxLength := by
    intro l hl
    have hmem := mem_le_sum hl
    omega
  have hbasis : PaddedBasis outer pad (some (ofCounts lens)) (counts (ofCounts lens)) :=
    .padded (nonneg_ofCounts hle) (by rwa [counts_ofCounts hle])
  rwa [counts_ofCounts hle] at hbasis

end OrWhole

def widened (pad : Nat) (ls : List Int32) : List Int32 :=
  ls.map fun l => Int32.ofInt (l.toInt + pad)

theorem widened_eq {pad : Nat} {ls : List Int32} (h : Nonneg ls) :
    widened pad ls = ofCounts ((counts ls).map (· + pad)) := by
  unfold widened ofCounts counts
  rw [List.map_map, List.map_map]
  apply List.map_congr_left
  intro l hl
  have hl0 := h l hl
  simp only [Function.comp]
  rw [← Int32.ofInt_eq_ofNat, Int.natCast_add, Int.toNat_of_nonneg hl0]

theorem widen_eq_ok {pad : Nat} {l l' : Int32} :
    widen pad l = .ok l' ↔ l.toInt + pad ≤ maxLength ∧ Int32.ofInt (l.toInt + pad) = l' := by
  unfold widen
  split
  · rename_i h
    exact ⟨fun heq => ⟨h, Except.ok.inj heq⟩, fun heq => congrArg Except.ok heq.2⟩
  · rename_i h
    exact ⟨fun heq => (nomatch heq), fun heq => absurd heq.1 h⟩

theorem outer_lt {outer : Nat} (ho : outer ≤ maxLength) : outer < 0x8000000000000000 :=
  Nat.lt_of_le_of_lt ho (by decide)

section Padded

variable {h : Host} {ls ls' : List Int32} {outer : Nat} {w : Widths}

/-- Lengths are taken as they are or all widened, and then none of them overflows. -/
theorem padded_eq_ok (hp : padded h ls outer w = .ok ls') :
    w.start + w.stop ≤ maxLength ∧
      (ls' = ls ∨ (∀ l ∈ ls, l.toInt + (w.start + w.stop : Nat) ≤ maxLength) ∧
        ls' = widened (w.start + w.stop) ls) := by
  unfold padded at hp
  obtain ⟨pad, hpad, hp⟩ := bind_eq_ok.1 hp
  obtain ⟨hw, rfl⟩ := Widths.checkedTotal_eq_ok.1 hpad
  refine ⟨hw, ?_⟩
  split at hp
  · cases hp
    exact .inl rfl
  · have hwid : ∀ l ∈ ls, l.toInt + (w.start + w.stop : Nat) ≤ maxLength := by
      intro l hl
      obtain ⟨_, hl'⟩ := Host.exists_of_collect_map hp hl
      exact (widen_eq_ok.1 hl').1
    rw [Host.collect_map fun l hl => widen_eq_ok.2 ⟨hwid l hl, rfl⟩] at hp
    exact .inr ⟨hwid, (Except.ok.inj hp).symm⟩

theorem widths_of_padded (hp : padded h ls outer w = .ok ls') : w.start + w.stop ≤ maxLength :=
  (padded_eq_ok hp).1

theorem length_padded (hp : padded h ls outer w = .ok ls') : ls'.length = ls.length := by
  rcases (padded_eq_ok hp).2 with rfl | ⟨-, rfl⟩
  · rfl
  · simp [widened]

/-- Lengths that are not negative stay so and lose no blocks. -/
theorem nonneg_padded (hn : Nonneg ls) (hp : padded h ls outer w = .ok ls') :
    Nonneg ls' ∧ (counts ls).sum ≤ (counts ls').sum := by
  rcases (padded_eq_ok hp).2 with rfl | ⟨hle, rfl⟩
  · exact ⟨hn, Nat.le_refl _⟩
  · have hwide : ∀ len ∈ (counts ls).map (· + (w.start + w.stop)), len ≤ maxLength := by
      intro len hlen
      obtain ⟨_, hmem, rfl⟩ := List.mem_map.1 hlen
      obtain ⟨l, hl, rfl⟩ := List.mem_map.1 hmem
      have hl0 := hn l hl
      have hfit := hle l hl
      omega
    rw [widened_eq hn, counts_ofCounts hwide, sum_map_add]
    exact ⟨nonneg_ofCounts hwide, Nat.le_add_right ..⟩

/-- The basis of lengths does not depend on the host. -/
theorem padded_host (h' : Host) (hp : padded h ls outer w = .ok ls') :
    padded h' ls outer w = .ok ls' := by
  unfold padded at hp ⊢
  obtain ⟨pad, hpad, hp⟩ := bind_eq_ok.1 hp
  refine bind_eq_ok.2 ⟨pad, hpad, ?_⟩
  split at hp
  · rename_i hc
    rwa [if_pos hc]
  · rename_i hc
    rw [if_neg hc]
    exact Host.collect_eq_ok.2 (Host.collect_eq_ok.1 hp)

theorem widenedTotal_eq_some {pad : Nat} (ho : outer ≤ maxLength) (hn : Nonneg ls)
    (hc : Counted ls) :
    widenedTotal ls pad = some (Int64.ofNat outer) ↔
      (counts ls).sum + ls.length * pad = outer := by
  have htotal := toInt_total hn hc
  have hlt' := outer_lt ho
  unfold widenedTotal
  rw [htotal, total_eq_ofNat hn, ← Int64.ofNat_add]
  have hinj : ∀ n, n < 0x8000000000000000 →
      (Int64.ofNat n = Int64.ofNat outer ↔ n = outer) := by
    intro n hlt
    rw [← Int64.toInt_inj, Int64.toInt_ofNat_of_lt hlt, Int64.toInt_ofNat_of_lt hlt',
      Int.ofNat_inj]
  split
  · rename_i hfit
    rw [Option.some_inj, hinj _ (by omega)]
  · simp only [reduceCtorEq, false_iff]
    omega

theorem total_eq_iff (ho : outer ≤ maxLength) (hn : Nonneg ls) (hc : Counted ls) :
    total ls = Int64.ofNat outer ↔ (counts ls).sum = outer := by
  rw [← Int64.toInt_inj, toInt_total hn hc, Int64.toInt_ofNat_of_lt (outer_lt ho), Int.ofNat_inj]

theorem padded_of_given (hw : w.start + w.stop ≤ maxLength) (ho : outer ≤ maxLength)
    (hn : Nonneg ls) (hc : Counted ls)
    (hgiven : ls.length * (w.start + w.stop) = 0 ∨ (counts ls).sum = outer ∨
      (counts ls).sum + ls.length * (w.start + w.stop) ≠ outer) :
    padded h ls outer w = .ok ls := by
  have hpad : w.checkedTotal = .ok (w.start + w.stop) := Widths.checkedTotal_eq_ok.2 ⟨hw, rfl⟩
  unfold padded
  rw [hpad]
  simp only [bind, Except.bind, pure, Except.pure]
  rw [if_pos]
  rw [ne_eq, total_eq_iff ho hn hc, widenedTotal_eq_some ho hn hc]
  rw [Nat.mul_eq_zero, List.length_eq_zero_iff] at hgiven
  rcases hgiven with (hz | hz) | hz
  · exact .inr (.inl hz)
  · exact .inl hz
  · exact .inr (.inr hz)

theorem padded_of_payload (hw : w.start + w.stop ≤ maxLength) (ho : outer ≤ maxLength)
    (hn : Nonneg ls) (hsum : (counts ls).sum + ls.length * (w.start + w.stop) = outer)
    (h0 : 0 < ls.length * (w.start + w.stop)) :
    padded h ls outer w = .ok (widened (w.start + w.stop) ls) := by
  have hpad : w.checkedTotal = .ok (w.start + w.stop) := Widths.checkedTotal_eq_ok.2 ⟨hw, rfl⟩
  have hc : Counted ls :=
    Nat.lt_of_le_of_lt (Nat.le.intro hsum) (outer_lt ho)
  have hwid : ∀ l ∈ ls, l.toInt + (w.start + w.stop : Nat) ≤ maxLength := by
    intro l hl
    have hle := mem_le_sum (List.mem_map_of_mem (f := fun l : Int32 => l.toInt.toNat) hl)
    have hmul := Nat.le_mul_of_pos_left (w.start + w.stop) (List.length_pos_of_mem hl)
    change _ ≤ (counts ls).sum at hle
    omega
  unfold padded
  rw [hpad]
  simp only [bind, Except.bind, pure, Except.pure]
  rw [if_neg]
  · exact Host.collect_map fun l hl => widen_eq_ok.2 ⟨hwid l hl, rfl⟩
  · rw [ne_eq, total_eq_iff ho hn hc, widenedTotal_eq_some ho hn hc]
    rintro (hz | hz | hz | hz)
    · rw [hz] at h0; omega
    · rw [hz] at h0; simp at h0
    · omega
    · omega

/-- Lengths that can be counted are read as the padded basis whenever that makes them sum to
the batch. -/
theorem exists_padded (hw : w.start + w.stop ≤ maxLength) (ho : outer ≤ maxLength)
    (hn : Nonneg ls) (hc : Counted ls) :
    ∃ ls', padded h ls outer w = .ok ls' ∧
      ∀ lens, PaddedBasis outer (w.start + w.stop) (some ls) lens ↔
        lens = counts ls' ∧ lens.sum = outer := by
  by_cases hp : (counts ls).sum + ls.length * (w.start + w.stop) = outer ∧
      0 < ls.length * (w.start + w.stop)
  · obtain ⟨hsum, hpos⟩ := hp
    have hbasis := PaddedBasis.payload hn hsum
    have hle := hbasis.len_le ho
    refine ⟨_, padded_of_payload hw ho hn hsum hpos, fun lens => ?_⟩
    rw [widened_eq hn, counts_ofCounts hle]
    refine ⟨?_, ?_⟩
    · intro h
      exact ⟨h.unique hbasis, h.sum_eq⟩
    · intro hr
      rcases hr with ⟨rfl, -⟩
      exact hbasis
  · refine ⟨ls, padded_of_given hw ho hn hc (by omega), fun lens => ?_⟩
    refine ⟨?_, ?_⟩
    · intro h
      have hsum : (counts ls).sum = outer := by
        cases h with
        | padded _ hsum => exact hsum
        | payload _ hsum => omega
      exact ⟨h.unique (.padded hn hsum), h.sum_eq⟩
    · intro hr
      rcases hr with ⟨rfl, hsum⟩
      exact .padded hn hsum

theorem counted_padded (ho : outer ≤ maxLength) (hn : Nonneg ls) (hc : Counted ls)
    (hp : padded h ls outer w = .ok ls') : Counted ls' := by
  have hw := widths_of_padded hp
  by_cases hpay : (counts ls).sum + ls.length * (w.start + w.stop) = outer ∧
      0 < ls.length * (w.start + w.stop)
  · obtain ⟨hsum, hpos⟩ := hpay
    rw [padded_of_payload hw ho hn hsum hpos] at hp
    cases hp
    have hbasis := PaddedBasis.payload hn hsum
    rw [widened_eq hn, Counted, counts_ofCounts (hbasis.len_le ho), hbasis.sum_eq]
    exact outer_lt ho
  · rw [padded_of_given hw ho hn hc (by omega)] at hp
    cases hp
    exact hc

theorem PaddedBasis.counted {pad : Nat} {lens : List Nat} (ho : outer ≤ maxLength)
    (hb : PaddedBasis outer pad (some ls) lens) : Counted ls := by
  cases hb with
  | padded _ hsum => exact Nat.lt_of_le_of_lt (Nat.le_of_eq hsum) (outer_lt ho)
  | payload _ hsum => exact Nat.lt_of_le_of_lt (Nat.le.intro hsum) (outer_lt ho)

end Padded

end Ragged.Lengths
