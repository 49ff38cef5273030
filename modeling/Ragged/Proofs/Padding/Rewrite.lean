import Ragged.Padding.Rewrite
import Ragged.Proofs.Layout.Tiling
import Ragged.Proofs.Refusals
import Ragged.Proofs.Region

/-!
# Rewriting the buffers

All that a rewrite can be refused for is looked at before its first write, so a refused one has
written nothing. Otherwise it writes every region over and leaves what lies between them. The
regions of a table that tiles follow one another without a gap and cover the output: nothing of
the old contents stays, and what is left is what the segments write, one after the other.
-/

namespace Ragged

variable {α : Type} {t : Table} {h : Host} {input : List α}

namespace Buffers

abbrev GivesRegions (h : Host) (t : Table) : Prop :=
  h.Gives .regions (t.numSegments * Carving.regionBytes)

/-- Why a rewrite by the table is refused. -/
inductive Refused (h : Host) (t : Table) (input : List α) (b : Buffers α) : Prop where
  | input : input.length ≠ t.inElements → Refused h t input b
  | out : b.out.length ≠ t.outElements → Refused h t input b
  | lengths (ls : List Int32) : b.lengths = some ls → ls.length ≠ t.numSegments →
      Refused h t input b
  /-- The lengths are asked for and one of them leaves its range. -/
  | newLengths (f : Fault) : b.lengths.isSome → t.newLengths h = .error f → Refused h t input b
  | memory : ¬ GivesRegions h t → Refused h t input b
  /-- A region begins before the end of the one before it. -/
  | overlap (k : Nat) (hk : k + 1 < t.outRegions.length) :
      t.outRegions[k + 1].1 < t.outRegions[k].1 + t.outRegions[k].2 → Refused h t input b
  /-- A region ends past the output. -/
  | past (r : Nat × Nat) : r ∈ t.outRegions → b.out.length < r.1 + r.2 → Refused h t input b

/-- `b'` is `b` with every region written over, and with the new lengths if they are asked for. -/
structure Written (h : Host) (t : Table) (content : Segment → List α → List α)
    (b b' : Buffers α) : Prop where
  out : Overwritten t.outRegion content t.segments 0 b.out b'.out
  lengths : newLengths t h b.lengths = .ok b'.lengths

/-- How a rewrite of `b` ends. -/
structure Launched (b : Buffers α) (h : Host) (t : Table) (input : List α)
    (content : Segment → List α → List α) (r : Except Fault Unit × Buffers α) : Prop where
  /-- It breaks the contract, or else memory fails the list of regions. -/
  fault : RefusedFor (fun f => f.kind = .contract ∨ f.kind = .resource ∧ ¬ GivesRegions h t) r.1
  refused : (∃ f, r.1 = .error f) ↔ Refused h t input b
  kept : ∀ f, r.1 = .error f → r.2 = b
  written : r.1 = .ok () → Written h t content b r.2

variable {b : Buffers α}

theorem checkLengths_eq_ok {lengths : Option (List Int32)} :
    checkLengths t lengths = .ok () ↔ ∀ ls, lengths = some ls → ls.length = t.numSegments := by
  unfold checkLengths
  cases lengths with
  | none => simp
  | some ls =>
    simp only [Option.some.injEq, forall_eq']
    split <;> rename_i h <;> simp [h]

theorem check_eq_ok :
    b.check t input = .ok () ↔
      input.length = t.inElements ∧ b.out.length = t.outElements ∧
        ∀ ls, b.lengths = some ls → ls.length = t.numSegments := by
  unfold check checkInput checkOut
  rw [← checkLengths_eq_ok]
  by_cases hin : input.length = t.inElements
  · by_cases hout : b.out.length = t.outElements
    · simp [hin, hout, bind, Except.bind]
    · simp [hin, hout, bind, Except.bind]
  · simp [hin, bind, Except.bind]

/-! ### Before the first write -/

/-- What a rewrite looks at before it writes: it comes to the new lengths and the carved
output. -/
def prepare (t : Table) (h : Host) (input : List α) (b : Buffers α) :
    Except Fault (Option (List Int32) × Carving α) := do
  b.check t input
  let lengths ← newLengths t h b.lengths
  let carving ← Carving.carve h b.out t.outRegions
  return (lengths, carving)

/-- Everything that is looked at before the first write is in order. -/
structure Accepted (h : Host) (t : Table) (input : List α) (b : Buffers α) : Prop where
  check : b.check t input = .ok ()
  newLengths : ∃ ls, newLengths t h b.lengths = .ok ls
  memory : GivesRegions h t
  ordered : Ordered b.out.length 0 t.outRegions

theorem carve_eq_ok {c : Carving α} {buffer : List α} :
    Carving.carve h buffer t.outRegions = .ok c ↔
      GivesRegions h t ∧ Carving.carveFrom 0 0 buffer t.outRegions = .ok c := by
  have hlen : t.outRegions.length = t.numSegments := List.length_map _
  unfold Carving.carve
  rw [hlen, bind_eq_ok]
  refine ⟨?_, ?_⟩
  · rintro ⟨⟨⟩, hmem, hc⟩
    exact ⟨Host.memory_eq_ok.1 hmem, hc⟩
  · rintro ⟨hmem, hc⟩
    exact ⟨(), Host.memory_eq_ok.2 hmem, hc⟩

theorem prepare_isOk : (∃ p, b.prepare t h input = .ok p) ↔ Accepted h t input b := by
  simp only [prepare, bind_eq_ok, carve_eq_ok]
  refine ⟨?_, ?_⟩
  · rintro ⟨_, ⟨⟩, hcheck, ls, hnew, c, ⟨hmem, hc⟩, -⟩
    have hordered := Carving.carveFrom_isOk.1 ⟨c, hc⟩
    rw [Nat.zero_add] at hordered
    exact ⟨hcheck, ⟨ls, hnew⟩, hmem, hordered⟩
  · rintro ⟨hcheck, ⟨ls, hnew⟩, hmem, hordered⟩
    rw [← Nat.zero_add b.out.length] at hordered
    obtain ⟨c, hc⟩ := Carving.carveFrom_isOk.2 hordered
    exact ⟨(ls, c), (), hcheck, ls, hnew, c, ⟨hmem, hc⟩, rfl⟩

theorem exists_newLengths :
    (∃ ls, newLengths t h b.lengths = .ok ls) ↔
      ∀ f, b.lengths.isSome → t.newLengths h ≠ .error f := by
  cases b.lengths with
  | none => simp [newLengths]
  | some ls =>
    rw [newLengths]
    cases t.newLengths h <;> simp [Except.map]

theorem refused_iff : Refused h t input b ↔ ¬ Accepted h t input b := by
  refine ⟨?_, ?_⟩
  · rintro hr ⟨hcheck, hnew, hmem, hordered⟩
    obtain ⟨hin, hout, hlengths⟩ := check_eq_ok.1 hcheck
    cases hr with
    | input hne => exact hne hin
    | out hne => exact hne hout
    | lengths ls hls hne => exact hne (hlengths ls hls)
    | newLengths f hls hf => exact exists_newLengths.1 hnew f hls hf
    | memory hno => exact hno hmem
    | overlap k hk hlt => exact not_ordered_iff.2 (.inl ⟨k, hk, hlt⟩) hordered
    | past r hr hlt => exact not_ordered_iff.2 (.inr ⟨r, hr, hlt⟩) hordered
  · intro hno
    by_contra hnone
    refine hno ⟨check_eq_ok.2 ⟨?_, ?_, fun ls hls => ?_⟩,
      exists_newLengths.2 fun f hls hf => ?_, ?_, ?_⟩
    · exact Classical.not_not.1 fun hin => hnone (.input hin)
    · exact Classical.not_not.1 fun hout => hnone (.out hout)
    · exact Classical.not_not.1 fun hlen => hnone (.lengths ls hls hlen)
    · exact hnone (.newLengths f hls hf)
    · exact Classical.not_not.1 fun hmem => hnone (.memory hmem)
    · by_contra hordered
      rcases not_ordered_iff.1 hordered with ⟨k, hk, hlt⟩ | ⟨r, hr, hlt⟩
      · exact hnone (.overlap k hk hlt)
      · exact hnone (.past r hr hlt)

theorem carve_fault (h : Host) (t : Table) (buffer : List α) :
    RefusedFor (fun f => f.kind = .contract ∨ f.kind = .resource ∧ ¬ GivesRegions h t)
      (Carving.carve h buffer t.outRegions) := by
  have hlen : t.outRegions.length = t.numSegments := List.length_map _
  unfold Carving.carve
  rw [hlen]
  refine RefusedFor.bind (fun f hf => .inr ⟨(Host.memory_fault hf).1, fun hg => ?_⟩) fun _ =>
    (Carving.carveFrom_contract 0 0 buffer t.outRegions).mono fun _ hf => .inl hf
  rw [Host.memory_eq_ok.2 hg] at hf
  cases hf

/-- A rewrite is refused before the first write for a breach of the contract, or because memory
fails the list of regions. -/
theorem prepare_fault :
    RefusedFor (fun f => f.kind = .contract ∨ f.kind = .resource ∧ ¬ GivesRegions h t)
      (b.prepare t h input) :=
  ((b.check_contract t input).mono fun _ hf => .inl hf).bind fun _ =>
    ((newLengths_contract t h _).mono fun _ hf => .inl hf).bind fun _ =>
      (carve_fault h t b.out).bind fun _ => .ok _

/-! ### The writes -/

variable {write : Segment → List α → Except Fault (List α)}
  {content : Segment → List α → List α}

theorem writeRegions_on (c : Carving α) (b : Buffers α) :
    (writeRegions write t.segments c).on b =
      ((c.rewrite write t.segments).1,
        { b with out := (c.rewrite write t.segments).2.join }) := by
  unfold writeRegions
  rw [Launch.on_bind, Launch.on_modify]
  exact Launch.on_liftExcept _ _

/-- What is refused before the first write leaves the buffers as they are. -/
theorem rewrite_on_of_error {f : Fault} (hp : b.prepare t h input = .error f) :
    (rewrite t h write input).on b = (.error f, b) := by
  unfold rewrite
  unfold prepare at hp
  simp only [Launch.on_bind, Launch.on_get, Launch.on_liftExcept]
  cases hcheck : b.check t input with
  | error f' =>
    rw [hcheck] at hp
    cases hp
    rfl
  | ok u =>
    cases hnew : newLengths t h b.lengths with
    | error f' =>
      rw [hcheck, hnew] at hp
      cases hp
      rfl
    | ok ls =>
      cases hcarve : Carving.carve h b.out t.outRegions with
      | error f' =>
        rw [hcheck, hnew] at hp
        simp only [bind, Except.bind, hcarve] at hp
        cases hp
        rfl
      | ok c =>
        rw [hcheck, hnew] at hp
        simp only [bind, Except.bind, hcarve] at hp
        cases hp

/-- Otherwise the regions are written, and then the lengths. -/
theorem rewrite_on_of_ok {ls : Option (List Int32)} {c c' : Carving α}
    (hp : b.prepare t h input = .ok (ls, c))
    (hc : c.rewrite write t.segments = (.ok (), c')) :
    (rewrite t h write input).on b = (.ok (), ⟨c'.join, ls⟩) := by
  simp only [prepare, bind_eq_ok] at hp
  obtain ⟨⟨⟩, hcheck, ls, hnew, c, hcarve, hpair⟩ := hp
  cases hpair
  unfold rewrite
  simp only [Launch.on_bind, Launch.on_get, Launch.on_liftExcept, hcheck, hnew, hcarve,
    writeRegions_on, hc]
  rfl

/-- A rewrite is refused or writes every region over, when every segment can write its own. -/
theorem rewrite_launched
    (hw : input.length = t.inElements → Overwrites t.outRegion write content t.segments) :
    b.Launched h t input content ((rewrite t h write input).on b) := by
  cases hp : b.prepare t h input with
  | error f =>
    rw [rewrite_on_of_error hp]
    refine ⟨.error (prepare_fault f hp), ?_, fun _ _ => rfl, fun hok => (nomatch hok)⟩
    rw [refused_iff, ← prepare_isOk, hp]
    exact ⟨fun _ ⟨_, hok⟩ => (nomatch hok), fun _ => ⟨f, rfl⟩⟩
  | ok p =>
    obtain ⟨ls, c⟩ := p
    have ha := prepare_isOk.1 ⟨_, hp⟩
    have hprepared := hp
    simp only [prepare, bind_eq_ok, carve_eq_ok] at hprepared
    obtain ⟨⟨⟩, hcheck, ls, hnew, c, ⟨-, hcarve⟩, hpair⟩ := hprepared
    cases hpair
    obtain ⟨c', hc', hout⟩ := Carving.rewrite_overwrites (hw (check_eq_ok.1 hcheck).1) hcarve
    rw [rewrite_on_of_ok hp hc']
    refine ⟨.ok _, ?_, fun _ hf => (nomatch hf), fun _ => ⟨hout, hnew⟩⟩
    rw [refused_iff]
    exact ⟨fun ⟨_, hf⟩ => (nomatch hf), fun hno => absurd ha hno⟩

theorem Launched.inRange {r : Except Fault Unit × Buffers α}
    (hl : b.Launched h t input content r) : r.1 ≠ .error .outOfRange := by
  intro hr
  rcases hl.fault _ hr with hk | ⟨hk, -⟩ <;> cases hk

end Buffers

/-! ## Tables that tile -/

section Tiles

variable {write : Segment → List α → Except Fault (List α)} {content : Segment → List α}

/-- Every segment fills a region of its size, whatever the region held before. -/
def Table.Writes (t : Table) (write : Segment → List α → Except Fault (List α))
    (content : Segment → List α) (segs : List Segment) : Prop :=
  ∀ seg ∈ segs, (content seg).length = t.segmentOutBlocks seg * t.blockSize ∧
    ∀ region, region.length = t.segmentOutBlocks seg * t.blockSize →
      write seg region = .ok (content seg)

theorem Table.Tiles.length_flatMap {i o : Nat} {segs : List Segment} (ht : t.Tiles i o segs)
    (hw : t.Writes write content segs) :
    o * t.blockSize + (segs.flatMap content).length = t.outElements := by
  induction segs generalizing i o with
  | nil =>
    obtain ⟨-, rfl⟩ := ht
    rfl
  | cons seg segs ih =>
    have hrest := ih ht.2.2 fun s hs => hw s (List.mem_cons_of_mem seg hs)
    rw [Nat.add_mul] at hrest
    rw [List.flatMap_cons, List.length_append, (hw seg List.mem_cons_self).1]
    omega

theorem Table.Writes.overwrites (hw : t.Writes write content t.segments) :
    Overwrites t.outRegion write (fun seg _ => content seg) t.segments := by
  intro seg hs old hold
  obtain ⟨hlen, hwrite⟩ := hw seg hs
  exact ⟨hwrite old hold, hlen.trans hold.symm⟩

theorem Table.Tiles.ordered {i o : Nat} {segs : List Segment} (ht : t.Tiles i o segs) :
    Ordered t.outElements (o * t.blockSize) (segs.map t.outRegion) := by
  induction segs generalizing i o with
  | nil => trivial
  | cons seg segs ih =>
    obtain ⟨-, rfl, hrest⟩ := ht
    have hle : (seg.outStart + t.segmentOutBlocks seg) * t.blockSize ≤ t.outElements :=
      Nat.mul_le_mul_right _ hrest.le.2
    have hordered := ih hrest
    rw [Nat.add_mul] at hle hordered
    exact ⟨Nat.le_refl _, hle, hordered⟩

theorem Table.Tiles.eq_flatMap {i o : Nat} {segs : List Segment} (ht : t.Tiles i o segs)
    {xs : List α} (hx : o * t.blockSize + xs.length = t.outElements)
    (hin : ∀ seg ∈ segs, window (o * t.blockSize) (t.outRegion seg) xs = content seg) :
    xs = segs.flatMap content := by
  induction segs generalizing i o xs with
  | nil =>
    obtain ⟨-, rfl⟩ := ht
    unfold Table.outElements at hx
    rwa [Nat.add_eq_left, List.length_eq_zero_iff] at hx
  | cons seg segs ih =>
    have hordered := ht.ordered
    obtain ⟨-, rfl, hrest⟩ := ht
    obtain ⟨-, hend, hlater⟩ := hordered
    have hsplit := List.take_append_drop (t.segmentOutBlocks seg * t.blockSize) xs
    have hnext : seg.outStart * t.blockSize +
        (xs.take (t.segmentOutBlocks seg * t.blockSize)).length =
          (seg.outStart + t.segmentOutBlocks seg) * t.blockSize := by
      rw [List.length_take, Nat.add_mul]
      omega
    have hhead : xs.take (t.segmentOutBlocks seg * t.blockSize) = content seg := by
      rw [← hin seg List.mem_cons_self, window, Table.outRegion, Nat.sub_self, List.drop_zero]
    have htail : xs.drop (t.segmentOutBlocks seg * t.blockSize) = segs.flatMap content := by
      refine ih hrest ?_ fun seg' hs => ?_
      · rw [List.length_drop, Nat.add_mul]
        omega
      · have hstart := hlater.start_le (List.mem_map_of_mem hs)
        rw [← Nat.add_mul] at hstart
        rw [← hin seg' (List.mem_cons_of_mem seg hs), ← window_append hnext hstart, hsplit]
    rw [List.flatMap_cons, ← hhead, ← htail, hsplit]

/-- A launch by a table that tiles, on buffers of the right sizes. -/
theorem Buffers.rewrite_tiles (ht : t.Tiles 0 0 t.segments)
    (hw : t.Writes write content t.segments) {b : Buffers α}
    (hin : input.length = t.inElements) (hout : b.out.length = t.outElements)
    (hlens : checkLengths t b.lengths = .ok ()) {lengths : Option (List Int32)}
    (hnew : newLengths t h b.lengths = .ok lengths) (hmem : GivesRegions h t) :
    (rewrite t h write input).on b = (.ok (), ⟨t.segments.flatMap content, lengths⟩) := by
  have hordered := ht.ordered
  rw [Nat.zero_mul, ← hout] at hordered
  have hcheck := check_eq_ok.2 ⟨hin, hout, checkLengths_eq_ok.1 hlens⟩
  have hlaunched : b.Launched h t input _ ((rewrite t h write input).on b) :=
    rewrite_launched fun _ => hw.overwrites
  have hok : ((rewrite t h write input).on b).1 = .ok () := by
    cases hr : ((rewrite t h write input).on b).1 with
    | ok u => rfl
    | error f =>
      exact absurd ⟨hcheck, ⟨lengths, hnew⟩, hmem, hordered⟩
        (refused_iff.1 (hlaunched.refused.1 ⟨f, hr⟩))
  obtain ⟨hover, hlengths⟩ := hlaunched.written hok
  have hjoin : ((rewrite t h write input).on b).2.out = t.segments.flatMap content := by
    refine ht.eq_flatMap ?_ fun seg hs => ?_
    · rw [Nat.zero_mul, Nat.zero_add, hover.length, hout]
    · rw [Nat.zero_mul]
      exact hover.inside seg hs
  rw [hnew, Except.ok.injEq] at hlengths
  rw [← hjoin, hlengths]
  exact Prod.ext hok rfl

end Tiles

end Ragged
