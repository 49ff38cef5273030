import Ragged.Proofs.Lengths
import Ragged.Proofs.Scratch
import Ragged.Scan

/-!
# A chunked scan is a serial one

Every chunk is summed up from its own base, the total of the chunks before it; the sums
put together are the running sums of the whole list. In 64 bits the same sums come out,
wrapped, and a narrowed sum keeps only low bits that have not wrapped. What a scan comes
back with then does not depend on the chunks, and where the total fits a length so do the
sums.
-/

namespace Ragged

/-- How many lengths entry `i` of the running sums is the sum of. -/
def ScanMode.summed : ScanMode → Nat → Nat
  | .inclusive, i => i + 1
  | .exclusive, i => i

namespace Scan

/-- Running sums of lengths, exact and without chunks, each narrowed to a length. -/
def serial (mode : ScanMode) (ls : List Int32) : List Int32 :=
  (runningSums mode 0 (ls.map Int32.toInt)).map Int32.ofInt

theorem runningSums_cons {β : Type} [Add β] (mode : ScanMode) (acc x : β) (xs : List β) :
    runningSums mode acc (x :: xs) =
      (match mode with
        | .inclusive => acc + x
        | .exclusive => acc) :: runningSums mode (acc + x) xs := by
  cases mode <;> rfl

theorem length_runningSums (mode : ScanMode) (acc : Int) (xs : List Int) :
    (runningSums mode acc xs).length = xs.length := by
  induction xs generalizing acc with
  | nil => rfl
  | cons x xs ih => rw [runningSums_cons, List.length_cons, ih, List.length_cons]

theorem getElem_runningSums (mode : ScanMode) (acc : Int) (xs : List Int) (i : Nat)
    (h : i < (runningSums mode acc xs).length) :
    (runningSums mode acc xs)[i] = acc + (xs.take (mode.summed i)).sum := by
  induction xs generalizing acc i with
  | nil => cases h
  | cons x xs ih =>
    cases i with
    | zero => cases mode <;> simp [runningSums, ScanMode.summed]
    | succ i =>
      have hnext : mode.summed (i + 1) = mode.summed i + 1 := by cases mode <;> rfl
      simp only [runningSums_cons, List.getElem_cons_succ]
      rw [ih, hnext, List.take_succ_cons, List.sum_cons, Int.add_assoc]

theorem runningSums_append (mode : ScanMode) (acc : Int) (xs ys : List Int) :
    runningSums mode acc (xs ++ ys) =
      runningSums mode acc xs ++ runningSums mode (acc + xs.sum) ys := by
  induction xs generalizing acc with
  | nil => simp [runningSums]
  | cons x xs ih =>
    rw [List.cons_append, runningSums_cons, runningSums_cons, ih, List.sum_cons, List.cons_append,
      Int.add_assoc]

/-- Summing up every part from the total of the parts before it sums up the whole. -/
theorem flatten_zipWith_runningSums (mode : ScanMode) (acc : Int) (parts : List (List Int)) :
    (List.zipWith (runningSums mode) (runningSums .exclusive acc (parts.map List.sum))
      parts).flatten = runningSums mode acc parts.flatten := by
  induction parts generalizing acc with
  | nil => rfl
  | cons part parts ih =>
    rw [List.map_cons, runningSums, List.zipWith_cons_cons, List.flatten_cons,
      List.flatten_cons, runningSums_append, ih]

/-! ## Sums that wrap -/

theorem runningSums_map_ofInt (mode : ScanMode) (acc : Int) (xs : List Int) :
    runningSums mode (Int64.ofInt acc) (xs.map Int64.ofInt) =
      (runningSums mode acc xs).map Int64.ofInt := by
  induction xs generalizing acc with
  | nil => rfl
  | cons x xs ih =>
    rw [List.map_cons, runningSums_cons, runningSums_cons, ← Int64.ofInt_add, ih, List.map_cons]
    cases mode <;> rfl

theorem zipWith_runningSums_map_ofInt (mode : ScanMode) (bases : List Int)
    (parts : List (List Int)) :
    List.zipWith (runningSums mode) (bases.map Int64.ofInt) (parts.map (List.map Int64.ofInt)) =
      (List.zipWith (runningSums mode) bases parts).map (List.map Int64.ofInt) := by
  induction bases generalizing parts with
  | nil => rfl
  | cons base bases ih =>
    cases parts with
    | nil => rfl
    | cons part parts =>
      rw [List.map_cons, List.map_cons, List.zipWith_cons_cons, List.zipWith_cons_cons,
        runningSums_map_ofInt, ih, List.map_cons]

def exactParts (grain : Nat) (ls : List Int32) : List (List Int) :=
  chunks grain (ls.map Int32.toInt)

theorem parts_eq (grain : Nat) (ls : List Int32) :
    parts grain ls = (exactParts grain ls).map (List.map Int64.ofInt) := by
  rw [parts, Lengths.map_toInt64, exactParts, map_chunks]

theorem writeTotals_eq (grain : Nat) (ls : List Int32) (s : Scratch) :
    (writeTotals grain ls s).heldPartials =
      ((exactParts grain ls).map List.sum).map Int64.ofInt := by
  rw [writeTotals, parts_eq, List.map_map, List.map_map]
  exact List.map_congr_left fun part _ => Lengths.sum_map_ofInt part

/-- Summing every chunk up from its own base sums up the lengths. -/
theorem writeSums_eq {mode : ScanMode} {grain : Nat} (hg : 0 < grain) (ls : List Int32)
    (s : Scratch) :
    (writeSums mode grain ls (writeBases (writeTotals grain ls s))).heldSums = serial mode ls := by
  have hbases : (writeBases (writeTotals grain ls s)).heldPartials =
      (runningSums .exclusive 0 ((exactParts grain ls).map List.sum)).map Int64.ofInt := by
    rw [writeBases, writeTotals_eq]
    exact runningSums_map_ofInt .exclusive 0 _
  unfold writeSums
  simp only
  rw [hbases, parts_eq, zipWith_runningSums_map_ofInt, ← List.map_flatten,
    flatten_zipWith_runningSums, exactParts, flatten_chunks hg, List.map_map, serial]
  exact List.map_congr_left fun sum _ => Int64.toInt32_ofInt

theorem sum_map_sum (parts : List (List Int)) : (parts.map List.sum).sum = parts.flatten.sum := by
  induction parts with
  | nil => rfl
  | cons part parts ih =>
    rw [List.map_cons, List.sum_cons, ih, List.flatten_cons, List.sum_append_int]

theorem sum_writeTotals {grain : Nat} (hg : 0 < grain) (ls : List Int32) (s : Scratch) :
    Lengths.sum (writeTotals grain ls s).heldPartials = Lengths.total ls := by
  rw [writeTotals_eq, Lengths.sum_map_ofInt, sum_map_sum, exactParts, flatten_chunks hg,
    Lengths.total_eq_ofInt, Lengths.fullTotal]

theorem length_serial (mode : ScanMode) (ls : List Int32) :
    (serial mode ls).length = ls.length := by
  rw [serial, List.length_map, length_runningSums, List.length_map]

/-- A running sum that is narrowed to a length loses nothing: it is at most the total. -/
theorem toInt_getElem_serial {mode : ScanMode} {ls : List Int32} (hn : Lengths.Nonneg ls)
    (hmax : Lengths.fullTotal ls ≤ maxLength) (i : Nat) (h : i < (serial mode ls).length) :
    (serial mode ls)[i].toInt = Lengths.fullTotal (ls.take (mode.summed i)) := by
  have hsum : ((ls.map Int32.toInt).take (mode.summed i)).sum =
      Lengths.fullTotal (ls.take (mode.summed i)) := by
    rw [← List.map_take]
    rfl
  obtain ⟨hpos, hle⟩ := hn.fullTotal_take (mode.summed i)
  obtain ⟨n, hcount⟩ := Int.eq_ofNat_of_zero_le hpos
  simp only [serial, List.getElem_map, getElem_runningSums, hsum, Int.zero_add]
  rw [hcount, Int32.ofInt_eq_ofNat, Lengths.toInt_ofNat (by omega)]

/-- What a scan comes back with once the scratch has room. -/
def outcome (mode : ScanMode) (ls : List Int32) : Except Fault (List Int32) :=
  if maxLength < (Lengths.total ls).toInt then .error (.lengthsOverflow (Lengths.total ls).toInt)
  else .ok (serial mode ls)

/-- Grains decide only how much scratch a scan asks for, and what the scratch has held before
decides nothing. -/
theorem run_fst {mode : ScanMode} {grain : Nat} (hg : 0 < grain) (h : Host) (ls : List Int32)
    (s : Scratch) :
    (run h mode grain ls s).1 =
      match Lengths.check ls with
      | .error f => .error f
      | .ok () =>
        match (s.reserve h ls.length (ceilDiv ls.length grain)).1 with
        | .error f => .error f
        | .ok () => outcome mode ls := by
  unfold run
  cases hc : Lengths.check ls with
  | error f => rfl
  | ok u =>
    simp only
    split
    · rename_i hnil
      subst hnil
      rw [List.length_nil, ceilDiv_zero hg,
        Scratch.reserve_of_within h (Nat.zero_le _) (Nat.zero_le _)]
      rfl
    · obtain ⟨r, s'⟩ := s.reserve h ls.length (ceilDiv ls.length grain)
      cases r with
      | error f => rfl
      | ok u =>
        simp only
        rw [sum_writeTotals hg, writeSums_eq hg, outcome]
        split <;> rfl

/-- A scan leaves the scratch as large and as charged as the reservation does. -/
theorem run_snd {mode : ScanMode} {grain : Nat} (hg : 0 < grain) (h : Host) (ls : List Int32)
    (s : Scratch) :
    (run h mode grain ls s).2.emptied =
      match Lengths.check ls with
      | .error _ => s.emptied
      | .ok () => (s.reserve h ls.length (ceilDiv ls.length grain)).2.emptied := by
  unfold run
  cases hc : Lengths.check ls with
  | error f => rfl
  | ok u =>
    simp only
    split
    · rename_i hnil
      subst hnil
      rw [List.length_nil, ceilDiv_zero hg,
        Scratch.reserve_of_within h (Nat.zero_le _) (Nat.zero_le _)]
      rfl
    · obtain ⟨r, s'⟩ := s.reserve h ls.length (ceilDiv ls.length grain)
      cases r with
      | error f => rfl
      | ok u =>
        simp only
        split <;> rfl

/-! ## Totals that wrap -/

/-- The fewest longest lengths whose total does not fit in 64 bits with a sign. -/
def uncountable : List Int32 := List.replicate 4294967299 2147483647

theorem length_uncountable : uncountable.length = 4294967299 := List.length_replicate

theorem nonneg_uncountable : Lengths.Nonneg uncountable := by
  intro l hl
  rw [List.eq_of_mem_replicate hl]
  decide

theorem fullTotal_replicate (n : Nat) (l : Int32) :
    Lengths.fullTotal (List.replicate n l) = n * l.toInt := by
  rw [Lengths.fullTotal, List.map_replicate, List.sum_replicate_int]

theorem fullTotal_uncountable : Lengths.fullTotal uncountable = 9223372039002259453 :=
  (fullTotal_replicate _ _).trans (by decide)

/-- The total wraps to a negative number, which no check refuses. -/
theorem outcome_uncountable (mode : ScanMode) :
    outcome mode uncountable = .ok (serial mode uncountable) := by
  have htotal : (Lengths.total uncountable).toInt = -9223372034707292163 := by
    rw [Lengths.total_eq_ofInt, fullTotal_uncountable]
    decide
  unfold outcome
  rw [htotal, if_neg (by decide)]

theorem uncountable_eq_cons : ∃ ls, uncountable = 2147483647 :: 2147483647 :: ls := ⟨_, rfl⟩

theorem serial_uncountable :
    (∃ sums, serial .inclusive uncountable = 2147483647 :: -2 :: sums) ∧
      ∃ sums, serial .exclusive uncountable = 0 :: 2147483647 :: sums := by
  obtain ⟨ls, hls⟩ := uncountable_eq_cons
  rw [hls]
  exact ⟨⟨_, rfl⟩, ⟨_, rfl⟩⟩

end Scan

end Ragged
