import Ragged.Engine
import Ragged.Proofs.Scan

/-!
# Planning from lengths

`planLengths` plans straight from the numbers of blocks: segment after segment, each from
where the one before it ends. Both kinds of running sums lead to it, and so does a batch
without lengths, so what a plan is like and when there is one is settled here once.
`Fits` is when there is one, `tableFor` is what it is. Running sums that no length can hold
lead to no plan at all, also when their total has wrapped and looks small.
-/

namespace Ragged.Planner

open Lengths Scan

/-- What segments of the given lengths come to, from position `e` on and each from where the
one before it ends. -/
def place (p : Planner) (e start : Nat) : List Nat → List (Except Fault Segment)
  | [] => []
  | len :: lens => p.segment e start len :: p.place (e + 1) (start + len) lens

/-- The table for consecutive segments of the given lengths. -/
def planLengths (p : Planner) (h : Host) (lens : List Nat) (outer : Nat) :
    Except Fault Table := do
  let pad ← p.widths.checkedTotal
  let padding ← paddingBlocks lens.length pad
  checkElements outer p.blockSize
  p.checkPadded outer padding
  checkTotal lens.sum outer
  let segments ← h.collect (p.place 0 0 lens)
  let outBlocks ← p.outBlocks outer padding
  return { segments, outBlocks, widths := p.widths, direction := p.direction,
           blockSize := p.blockSize, inBlocks := outer }

/-! ## Running sums -/

section Sums

variable (p : Planner) {ls : List Int32}

theorem toInt_ofInt_natCast {n : Nat} (h : n ≤ maxLength) : (Int32.ofInt (n : Int)).toInt = n := by
  rw [Int32.ofInt_eq_ofNat]
  exact toInt_ofNat h

theorem add_toInt {l : Int32} (h : 0 ≤ l.toInt) (start : Nat) :
    (start : Int) + l.toInt = ((start + l.toInt.toNat : Nat) : Int) := by
  omega

theorem blocks_natCast (e n : Nat) : blocks e (n : Int) = .ok n := by
  simp [blocks]

theorem inclusiveAt_natCast (e : Nat) {start len : Nat} (hlt : start < wordCount) :
    p.inclusiveAt e start ((start + len : Nat) : Int) = p.segment e start len := by
  unfold inclusiveAt
  rw [show ((start + len : Nat) : Int) - (start : Int) = (len : Nat) by omega, blocks_natCast]
  simp only [bind, Except.bind]
  rw [show ((start + len : Nat) : Int) - (len : Nat) = (start : Nat) by omega,
    Word.ofInt_natCast hlt]

theorem inclusiveAt_of_lt (e : Nat) {start stop : Int} (h : stop < start) :
    p.inclusiveAt e start stop = .error (.negativeBlocks e (stop - start)) := by
  unfold inclusiveAt
  rw [blocks, if_neg (by omega)]
  rfl

theorem exclusiveAt_of_neg (outer e : Nat) {start : Int} (length : Int) (h : start < 0) :
    p.exclusiveAt outer e start length = .error (.negativeBlocks e start) := by
  unfold exclusiveAt
  rw [blocks, if_neg (by omega)]
  rfl

theorem exclusiveAt_natCast {outer : Nat} (e : Nat) {start len : Nat}
    (hin : start + len ≤ outer) :
    p.exclusiveAt outer e (start : Int) (len : Int) = p.segment e start len := by
  unfold exclusiveAt
  rw [blocks_natCast, blocks_natCast]
  simp only [bind, Except.bind, within]
  rw [if_pos hin]

theorem inclusiveFrom_eq_place (hn : Nonneg ls) (e start : Nat)
    (hmax : start + (counts ls).sum ≤ maxLength) :
    p.inclusiveFrom e start
        ((runningSums .inclusive (start : Int) (ls.map Int32.toInt)).map Int32.ofInt) =
      p.place e start (counts ls) := by
  induction ls generalizing e start with
  | nil => rfl
  | cons l ls ih =>
    rw [counts_cons, List.sum_cons] at hmax
    have hlt : start < wordCount :=
      Nat.lt_of_le_of_lt (Nat.le_trans (Nat.le_add_right ..) hmax) (by decide)
    rw [List.map_cons, runningSums_cons, List.map_cons, inclusiveFrom, counts_cons, place]
    simp only [add_toInt hn.of_cons.1]
    rw [toInt_ofInt_natCast (by omega), ih hn.of_cons.2 _ _ (by omega),
      p.inclusiveAt_natCast e hlt]

theorem exclusiveFrom_eq_place (outer : Nat) (hn : Nonneg ls) (e start : Nat)
    (hin : start + (counts ls).sum ≤ outer) (hmax : start + (counts ls).sum ≤ maxLength) :
    p.exclusiveFrom outer e
        ((runningSums .exclusive (start : Int) (ls.map Int32.toInt)).map Int32.ofInt) ls =
      p.place e start (counts ls) := by
  induction ls generalizing e start with
  | nil => rfl
  | cons l ls ih =>
    rw [counts_cons, List.sum_cons] at hin hmax
    obtain ⟨len, hlen⟩ := Int.eq_ofNat_of_zero_le hn.of_cons.1
    rw [List.map_cons, runningSums_cons, List.map_cons, exclusiveFrom, counts_cons, place]
    simp only [add_toInt hn.of_cons.1]
    rw [toInt_ofInt_natCast (by omega), ih hn.of_cons.2 _ _ (by omega) (by omega), hlen,
      p.exclusiveAt_natCast e (by omega), Int.toNat_natCast]

theorem inclusiveTotal_concat (ls : List Int32) (l : Int32) :
    inclusiveTotal (serial .inclusive (ls ++ [l])) =
      (Int32.ofInt (fullTotal (ls ++ [l]))).toInt.toNat := by
  rw [inclusiveTotal, serial, List.map_append, runningSums_append, List.map_append,
    fullTotal_append]
  simp only [List.map_cons, List.map_nil, runningSums, List.getLast?_concat, Int.zero_add,
    fullTotal, List.sum_cons, List.sum_nil, Int.add_zero]

theorem exclusiveTotal_concat (ls : List Int32) (l : Int32) :
    exclusiveTotal (serial .exclusive (ls ++ [l])) (ls ++ [l]) =
      ((Int32.ofInt (fullTotal ls)).toInt + l.toInt).toNat := by
  rw [exclusiveTotal, serial, List.map_append, runningSums_append, List.map_append]
  simp only [List.map_cons, List.map_nil, runningSums, List.getLast?_concat, Int.zero_add,
    fullTotal]

theorem inclusiveTotal_serial (hn : Nonneg ls) (hmax : (counts ls).sum ≤ maxLength) :
    inclusiveTotal (serial .inclusive ls) = (counts ls).sum := by
  rcases ls.eq_nil_or_concat with rfl | ⟨ls, l, rfl⟩
  · rfl
  · rw [List.concat_eq_append] at hn hmax ⊢
    rw [inclusiveTotal_concat, fullTotal_eq hn, toInt_ofInt_natCast hmax, Int.toNat_natCast]

theorem exclusiveTotal_serial (hn : Nonneg ls) (hmax : (counts ls).sum ≤ maxLength) :
    exclusiveTotal (serial .exclusive ls) ls = (counts ls).sum := by
  rcases ls.eq_nil_or_concat with rfl | ⟨ls, l, rfl⟩
  · rfl
  · rw [List.concat_eq_append] at hn hmax ⊢
    have hinit : Nonneg ls := fun x hx => hn x (by simp [hx])
    have hlast : 0 ≤ l.toInt := hn l (by simp)
    have hsum : (counts (ls ++ [l])).sum = (counts ls).sum + l.toInt.toNat := by
      simp [counts]
    rw [exclusiveTotal_concat, fullTotal_eq hinit, toInt_ofInt_natCast (by omega)]
    omega

/-- Both kinds of running sums plan what the lengths they come from plan. -/
theorem plan_boundsOf (h : Host) (mode : ScanMode) (hn : Nonneg ls)
    (hmax : (counts ls).sum ≤ maxLength) (outer : Nat) :
    p.plan h (Engine.boundsOf mode ls (serial mode ls)) outer =
      p.planLengths h (counts ls) outer := by
  have hcount : (Engine.boundsOf mode ls (serial mode ls)).count = (counts ls).length := by
    cases mode <;> simp [Engine.boundsOf, Bounds.count, length_serial]
  unfold plan planLengths
  rw [hcount]
  congr; funext pad
  congr; funext padding
  congr; funext _
  congr; funext _
  by_cases ht : (counts ls).sum = outer
  · cases mode with
    | inclusive =>
      have hplace := p.inclusiveFrom_eq_place hn 0 0 (by omega)
      rw [Engine.boundsOf, segments, inclusiveTotal_serial hn hmax, bind_assoc]
      congr; funext _
      rw [← hplace]
      rfl
    | exclusive =>
      have hplace := p.exclusiveFrom_eq_place outer hn 0 0 (by omega) (by omega)
      rw [Engine.boundsOf, segments, if_pos (length_serial ..),
        exclusiveTotal_serial hn hmax, bind_assoc]
      congr; funext _
      rw [← hplace]
      rfl
  · cases mode with
    | inclusive =>
      rw [Engine.boundsOf, segments, inclusiveTotal_serial hn hmax, checkTotal, if_neg ht]
      rfl
    | exclusive =>
      rw [Engine.boundsOf, segments, if_pos (length_serial ..),
        exclusiveTotal_serial hn hmax, checkTotal, if_neg ht]
      rfl

/-- The one segment of a batch without lengths meets one fault at most. -/
theorem collect_single {β : Type} (h : Host) (r : Except Fault β) :
    h.collect [r] = r.map fun b => [b] := by
  cases r with
  | ok b => rfl
  | error f =>
    have hone := h.report_mem f []
    rw [List.mem_singleton] at hone
    exact congrArg Except.error hone

theorem plan_whole (h : Host) (outer : Nat) :
    p.plan h (.whole 1) outer = p.planLengths h [outer] outer := by
  simp only [plan, planLengths, Bounds.count, segments, place, checkTotal, List.sum_cons,
    List.sum_nil, Nat.add_zero, List.length_cons, List.length_nil, if_true, bind_assoc, pure_bind,
    collect_single]
  congr; funext pad
  congr; funext padding
  congr; funext _
  congr; funext _
  cases p.segment 0 0 outer <;> rfl

/-! ## Sums past every length -/

/-- A number that no length can hold, and no more than twice as large, is cut to a negative
one. -/
theorem toInt_ofInt_of_lt {z : Int} (hlow : maxLength < z) (hhigh : z < 0x100000000) :
    (Int32.ofInt z).toInt = z - 0x100000000 := by
  rw [Int32.toInt_ofInt, Int.bmod_def]
  simp only [maxLength, Int32.size] at *
  omega

theorem add_toInt_lt {l : Int32} {start : Nat} (h : start ≤ maxLength) :
    start + l.toInt.toNat < 0x100000000 := by
  have hl := l.toInt_lt
  unfold maxLength at h
  omega

/-- The first end past every length lies before its start. -/
theorem exists_fault_inclusive (hn : Nonneg ls) (e start : Nat) (hstart : start ≤ maxLength)
    (hmax : maxLength < start + (counts ls).sum) :
    ∃ f, .error f ∈ p.inclusiveFrom e start
      ((runningSums .inclusive (start : Int) (ls.map Int32.toInt)).map Int32.ofInt) := by
  induction ls generalizing e start with
  | nil => exact absurd hstart (Nat.not_le.2 hmax)
  | cons l ls ih =>
    rw [counts_cons, List.sum_cons] at hmax
    rw [List.map_cons, runningSums_cons, List.map_cons, inclusiveFrom]
    simp only [add_toInt hn.of_cons.1]
    by_cases hend : start + l.toInt.toNat ≤ maxLength
    · obtain ⟨f, hf⟩ := ih hn.of_cons.2 (e + 1) _ hend (by omega)
      rw [toInt_ofInt_natCast hend]
      exact ⟨f, List.mem_cons_of_mem _ hf⟩
    · have htwice := add_toInt_lt (l := l) hstart
      have hcut := toInt_ofInt_of_lt (z := (start + l.toInt.toNat : Nat)) (by omega) (by omega)
      rw [p.inclusiveAt_of_lt e (by omega)]
      exact ⟨_, List.mem_cons_self⟩

/-- The first start past every length is negative, unless no segment has it. -/
theorem exists_fault_exclusive (outer : Nat) (hn : Nonneg ls) (e start : Nat)
    (hstart : start ≤ maxLength) (hmax : 0x100000000 ≤ start + (counts ls).sum) :
    ∃ f, .error f ∈ p.exclusiveFrom outer e
      ((runningSums .exclusive (start : Int) (ls.map Int32.toInt)).map Int32.ofInt) ls := by
  induction ls generalizing e start with
  | nil =>
    have hsmall : start < 0x100000000 := Nat.lt_of_le_of_lt hstart (by decide)
    exact absurd hmax (Nat.not_le.2 hsmall)
  | cons l ls ih =>
    have htwice := add_toInt_lt (l := l) hstart
    have hl0 := hn.of_cons.1
    rw [counts_cons, List.sum_cons] at hmax
    rw [List.map_cons, runningSums_cons, List.map_cons, exclusiveFrom]
    simp only [add_toInt hl0]
    by_cases hend : start + l.toInt.toNat ≤ maxLength
    · obtain ⟨f, hf⟩ := ih hn.of_cons.2 (e + 1) _ hend (by omega)
      exact ⟨f, List.mem_cons_of_mem _ hf⟩
    · have hcut := toInt_ofInt_of_lt (z := (start + l.toInt.toNat : Nat)) (by omega) (by omega)
      cases ls with
      | nil => exact absurd hmax (Nat.not_le.2 htwice)
      | cons next ls =>
        have hneg : (Int32.ofInt (start + l.toInt.toNat : Nat)).toInt < 0 := by omega
        rw [List.map_cons, runningSums_cons, List.map_cons, exclusiveFrom]
        simp only
        rw [p.exclusiveAt_of_neg outer (e + 1) next.toInt hneg]
        exact ⟨_, List.mem_cons_of_mem _ List.mem_cons_self⟩

theorem segments_uncounted (h : Host) (mode : ScanMode) (hn : Nonneg ls) (hc : ¬ Counted ls)
    (outer : Nat) (segs : List Segment) :
    p.segments h (Engine.boundsOf mode ls (serial mode ls)) outer ≠ .ok segs := by
  have hmax : 0x100000000 ≤ 0 + (counts ls).sum := by
    unfold Counted at hc
    omega
  intro hsegs
  have hall : ∀ {rs : List (Except Fault Segment)}, h.collect rs = .ok segs →
      ¬ ∃ f, .error f ∈ rs := by
    rintro rs hrs ⟨f, hf⟩
    rw [Host.collect_eq_ok.1 hrs] at hf
    obtain ⟨_, -, hseg⟩ := List.mem_map.1 hf
    cases hseg
  cases mode with
  | inclusive =>
    obtain ⟨_, -, hcollect⟩ := bind_eq_ok.1 hsegs
    exact hall hcollect (p.exists_fault_inclusive hn 0 0 (Nat.zero_le _)
      (Nat.lt_of_lt_of_le (by decide) hmax))
  | exclusive =>
    rw [Engine.boundsOf, segments, if_pos (length_serial ..)] at hsegs
    obtain ⟨_, -, hcollect⟩ := bind_eq_ok.1 hsegs
    exact hall hcollect (p.exists_fault_exclusive outer hn 0 0 (Nat.zero_le _) hmax)

/-- Lengths that cannot be counted are not planned. -/
theorem plan_boundsOf_uncounted (h : Host) (mode : ScanMode) (hn : Nonneg ls)
    (hc : ¬ Counted ls) (outer : Nat) (t : Table) :
    p.plan h (Engine.boundsOf mode ls (serial mode ls)) outer ≠ .ok t := by
  intro hplan
  unfold plan at hplan
  obtain ⟨_, -, _, -, _, -, _, -, segs, hsegs, -⟩ := by
    simpa only [bind_eq_ok] using hplan
  exact p.segments_uncounted h mode hn hc outer segs hsegs

end Sums

/-! ## Acceptance -/

section Acceptance

variable (p : Planner)

/-- Blocks of the output that a segment of `len` blocks gets. -/
def outLen (len : Nat) : Nat :=
  match p.direction with
  | .insert => len + p.widths.total
  | .strip => len - p.widths.total

/-- Consecutive segments from block `i` of the input and block `o` of the output on. -/
def placed (i o : Nat) : List Nat → List Segment
  | [] => []
  | len :: lens => ⟨i, o, len⟩ :: placed (i + len) (o + p.outLen len) lens

def tableFor (lens : List Nat) : Table :=
  { segments := p.placed 0 0 lens, outBlocks := (lens.map p.outLen).sum, widths := p.widths,
    direction := p.direction, blockSize := p.blockSize, inBlocks := lens.sum }

/-- A strip leaves every segment its padding to take away. -/
def Holds (lens : List Nat) : Prop :=
  p.direction = .strip → ∀ len ∈ lens, p.widths.total ≤ len

/-- What is asked of the lengths of a batch of `outer` blocks. -/
structure Fits (lens : List Nat) (outer : Nat) : Prop where
  widths : p.widths.start + p.widths.stop ≤ maxLength
  padding : lens.length * p.widths.total < wordCount
  elements : outer * p.blockSize < wordCount
  grown : p.direction = .insert →
    outer + lens.length * p.widths.total ≤ maxLength ∧
      (outer + lens.length * p.widths.total) * p.blockSize < wordCount
  total : lens.sum = outer
  holds : p.Holds lens

/-- Segment `e` begins at block `i` of the input and `o` of the output: the padding of the
segments before it lies between. -/
def Shifted (e i o : Nat) : Prop :=
  match p.direction with
  | .insert => o = i + e * p.widths.total
  | .strip => i = o + e * p.widths.total

variable {p}

theorem holds_cons {len : Nat} {lens : List Nat} :
    p.Holds (len :: lens) ↔ (p.direction = .strip → p.widths.total ≤ len) ∧ p.Holds lens := by
  simp only [Holds, List.forall_mem_cons]
  refine ⟨?_, ?_⟩
  · intro h; exact ⟨fun hd => (h hd).1, fun hd => (h hd).2⟩
  · rintro ⟨h1, h2⟩ hd; exact ⟨h1 hd, h2 hd⟩

theorem shifted_zero (p : Planner) : p.Shifted 0 0 0 := by
  unfold Shifted
  cases p.direction <;> simp

theorem Shifted.next {e i o len : Nat} (h : p.Shifted e i o)
    (hl : p.direction = .strip → p.widths.total ≤ len) :
    p.Shifted (e + 1) (i + len) (o + p.outLen len) := by
  unfold Shifted outLen at *
  cases hd : p.direction with
  | insert =>
    rw [hd] at h
    simp only [Nat.add_mul] at h ⊢
    omega
  | strip =>
    have := hl hd
    rw [hd] at h
    simp only [Nat.add_mul] at h ⊢
    omega

theorem priorPadding_eq {e : Nat} (h : e * p.widths.total < wordCount) :
    p.priorPadding e = e * p.widths.total := Word.satMul_eq (Nat.le_sub_one_of_lt h)

theorem padding_lt_of_cons {e n pad : Nat} (h : (e + (n + 1)) * pad < wordCount) :
    e * pad < wordCount ∧ (e + 1 + n) * pad < wordCount := by
  have hle : e * pad ≤ (e + (n + 1)) * pad := Nat.mul_le_mul_right pad (Nat.le_add_right ..)
  refine ⟨Nat.lt_of_le_of_lt hle h, ?_⟩
  rwa [Nat.add_right_comm]

theorem segment_eq_ok {e i o len : Nat} {seg : Segment} (h : p.Shifted e i o)
    (he : e * p.widths.total < wordCount) :
    p.segment e i len = .ok seg ↔
      (p.direction = .strip → p.widths.total ≤ len) ∧ seg = ⟨i, o, len⟩ := by
  have hprior := priorPadding_eq he
  unfold Shifted at h
  unfold segment
  cases hd : p.direction with
  | insert =>
    rw [hd] at h
    simp only at h
    subst h
    simp [hprior, eq_comm]
  | strip =>
    rw [hd] at h
    simp only at h
    subst h
    simp only [hprior, forall_const]
    split
    · rename_i hlt
      simp only [reduceCtorEq, false_iff]
      omega
    · rename_i hge
      rw [if_neg (by omega), Nat.add_sub_cancel]
      simp only [Except.ok.injEq]
      refine ⟨?_, ?_⟩
      · intro hr
        subst hr
        exact ⟨by omega, rfl⟩
      · intro hr
        rcases hr with ⟨-, rfl⟩
        rfl

theorem place_eq_map_ok {e i o : Nat} {lens : List Nat} {segs : List Segment}
    (h : p.Shifted e i o) (hpad : (e + lens.length) * p.widths.total < wordCount) :
    p.place e i lens = segs.map .ok ↔ p.Holds lens ∧ segs = p.placed i o lens := by
  induction lens generalizing e i o segs with
  | nil => simp [place, placed, Holds, eq_comm]
  | cons len lens ih =>
    rw [List.length_cons] at hpad
    obtain ⟨he, hpad⟩ := padding_lt_of_cons hpad
    rw [place, holds_cons, placed]
    cases segs with
    | nil => simp
    | cons seg segs =>
      rw [List.map_cons, List.cons.injEq, List.cons.injEq, segment_eq_ok h he]
      refine ⟨?_, ?_⟩
      · rintro ⟨⟨hl, hseg⟩, hrest⟩
        obtain ⟨hholds, hsegs⟩ := (ih (h.next hl) hpad).1 hrest
        exact ⟨⟨hl, hholds⟩, hseg, hsegs⟩
      · rintro ⟨⟨hl, hholds⟩, hseg, hsegs⟩
        exact ⟨⟨hl, hseg⟩, (ih (h.next hl) hpad).2 ⟨hholds, hsegs⟩⟩

theorem place_eq_ok {host : Host} {lens : List Nat} {segs : List Segment}
    (hpad : lens.length * p.widths.total < wordCount) :
    host.collect (p.place 0 0 lens) = .ok segs ↔ p.Holds lens ∧ segs = p.placed 0 0 lens := by
  rw [Host.collect_eq_ok, place_eq_map_ok p.shifted_zero (by rwa [Nat.zero_add])]

theorem sum_outLen {lens : List Nat} (h : p.Holds lens) :
    (p.direction = .insert →
      (lens.map p.outLen).sum = lens.sum + lens.length * p.widths.total) ∧
    (p.direction = .strip →
      (lens.map p.outLen).sum + lens.length * p.widths.total = lens.sum) := by
  induction lens with
  | nil => simp
  | cons len lens ih =>
    obtain ⟨hl, hrest⟩ := holds_cons.1 h
    obtain ⟨hinsert, hstrip⟩ := ih hrest
    simp only [List.map_cons, List.sum_cons, List.length_cons, Nat.succ_mul, outLen]
    refine ⟨?_, ?_⟩
    · intro hd
      have := hinsert hd
      simp only [hd]
      omega
    · intro hd
      have := hstrip hd
      have := hl hd
      simp only [hd]
      omega

theorem paddingBlocks_eq_ok {n pad k : Nat} :
    paddingBlocks n pad = .ok k ↔ n * pad < wordCount ∧ n * pad = k := by
  rw [← Word.mul?_eq_some, paddingBlocks]
  cases Word.mul? n pad <;> simp

theorem checkElements_eq_ok {n size : Nat} :
    checkElements n size = .ok () ↔ n * size < wordCount := by
  unfold checkElements Word.mul?
  split <;> rename_i h <;> split at h <;> simp_all

theorem checkPadded_eq_ok {outer padding : Nat} :
    p.checkPadded outer padding = .ok () ↔
      (p.direction = .insert →
        outer + padding ≤ maxLength ∧ (outer + padding) * p.blockSize < wordCount) := by
  unfold checkPadded
  cases p.direction with
  | insert =>
    simp only [forall_const]
    split
    · rename_i h; simp [h, checkElements_eq_ok]
    · rename_i h; simp [h]
  | strip => simp

theorem checkTotal_eq_ok {total outer : Nat} :
    checkTotal total outer = .ok () ↔ total = outer := by
  unfold checkTotal
  split <;> rename_i h <;> simp [h]

theorem outBlocks_eq_ok {lens : List Nat} {n : Nat} (h : p.Holds lens) :
    p.outBlocks lens.sum (lens.length * p.widths.total) = .ok n ↔ (lens.map p.outLen).sum = n := by
  obtain ⟨hinsert, hstrip⟩ := sum_outLen h
  unfold outBlocks
  cases hd : p.direction with
  | insert => rw [hinsert hd, Except.ok.injEq]
  | strip =>
    have := hstrip hd
    simp only
    rw [if_neg (by omega), Except.ok.injEq]
    omega

theorem planLengths_eq_ok {host : Host} {lens : List Nat} {outer : Nat} {t : Table} :
    p.planLengths host lens outer = .ok t ↔ p.Fits lens outer ∧ t = p.tableFor lens := by
  simp only [planLengths, bind_eq_ok, Widths.checkedTotal_eq_ok, paddingBlocks_eq_ok]
  refine ⟨?_, ?_⟩
  · intro h
    rcases h with ⟨_, ⟨hw, rfl⟩, _, ⟨hpad, rfl⟩, ⟨⟩, hel, ⟨⟩, hgrown, ⟨⟩, htotal,
      segs, hsegs, n, hn, ht⟩
    obtain rfl := checkTotal_eq_ok.1 htotal
    rw [← Widths.total_eq hw] at hpad hgrown hn
    obtain ⟨hholds, rfl⟩ := (place_eq_ok hpad).1 hsegs
    obtain rfl := (outBlocks_eq_ok hholds).1 hn
    cases ht
    exact ⟨⟨hw, hpad, checkElements_eq_ok.1 hel, checkPadded_eq_ok.1 hgrown, rfl, hholds⟩, rfl⟩
  · intro h
    rcases h with ⟨⟨hw, hpad, hel, hgrown, rfl, hholds⟩, rfl⟩
    refine ⟨_, ⟨hw, Widths.total_eq hw ▸ rfl⟩, _, ⟨hpad, rfl⟩, (), checkElements_eq_ok.2 hel, (),
      checkPadded_eq_ok.2 hgrown, (), checkTotal_eq_ok.2 rfl, _, ?_, _,
      (outBlocks_eq_ok hholds).2 rfl, rfl⟩
    exact (place_eq_ok hpad).2 ⟨hholds, rfl⟩

section Directions

variable {w : Widths} {size outer : Nat} {lens : List Nat}

/-- Padding can be added as long as the padded batch can be counted. -/
theorem fits_insert :
    (⟨.insert, w, size⟩ : Planner).Fits lens outer ↔
      w.start + w.stop ≤ maxLength ∧ lens.sum = outer ∧
        outer + lens.length * (w.start + w.stop) ≤ maxLength ∧
        (outer + lens.length * (w.start + w.stop)) * size < wordCount := by
  refine ⟨?_, ?_⟩
  · intro h
    have hgrown := h.grown rfl
    rw [Widths.total_eq h.widths] at hgrown
    exact ⟨h.widths, h.total, hgrown⟩
  · rintro ⟨hw, hsum, hmax, hel⟩
    have htotal : w.total = w.start + w.stop := Widths.total_eq hw
    refine ⟨hw, ?_, ?_, fun _ => ?_, hsum, fun hd => (nomatch hd)⟩
    · rw [htotal]
      unfold maxLength at hmax
      unfold wordCount
      omega
    · exact Nat.lt_of_le_of_lt (Nat.mul_le_mul_right _ (Nat.le_add_right ..)) hel
    · rw [htotal]
      exact ⟨hmax, hel⟩

/-- Padding can be taken away as long as every segment holds its own. -/
theorem fits_strip (ho : outer ≤ maxLength) :
    (⟨.strip, w, size⟩ : Planner).Fits lens outer ↔
      w.start + w.stop ≤ maxLength ∧ lens.sum = outer ∧
        (∀ len ∈ lens, w.start + w.stop ≤ len) ∧ outer * size < wordCount := by
  refine ⟨?_, ?_⟩
  · intro h
    have hholds := h.holds rfl
    rw [Widths.total_eq h.widths] at hholds
    exact ⟨h.widths, h.total, hholds, h.elements⟩
  · rintro ⟨hw, hsum, hpads, hel⟩
    have htotal : w.total = w.start + w.stop := Widths.total_eq hw
    have hholds : (⟨.strip, w, size⟩ : Planner).Holds lens := fun _ => htotal ▸ hpads
    have hpadding := (sum_outLen hholds).2 rfl
    refine ⟨hw, ?_, hel, fun hd => (nomatch hd), hsum, hholds⟩
    unfold maxLength at ho
    unfold wordCount
    simp only at hpadding ⊢
    omega

end Directions

end Acceptance

end Ragged.Planner
