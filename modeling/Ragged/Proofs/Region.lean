import Mathlib.Data.List.Chain
import Ragged.Region

/-!
# When a buffer can be carved, and what rewriting does to it

`Ordered` is when regions can be carved out of a buffer: each begins no earlier than the one
before it ends, and all end by the end of the buffer. Giving the regions new contents of the
same sizes changes nothing between them. Everything is told from an element `cursor` of the
buffer on, as the carving goes.
-/

namespace Ragged

variable {α β : Type}

/-- The regions lie one after the other from element `cursor` on and end by `size`. -/
def Ordered (size cursor : Nat) : List (Nat × Nat) → Prop
  | [] => True
  | (start, len) :: regions =>
    cursor ≤ start ∧ start + len ≤ size ∧ Ordered size (start + len) regions

theorem ordered_iff {size cursor : Nat} {regions : List (Nat × Nat)} :
    Ordered size cursor regions ↔
      (∀ r ∈ regions.head?, cursor ≤ r.1) ∧
        regions.IsChain (fun r next => r.1 + r.2 ≤ next.1) ∧
        ∀ r ∈ regions, r.1 + r.2 ≤ size := by
  induction regions generalizing cursor with
  | nil => simp [Ordered]
  | cons r regions ih =>
    obtain ⟨start, len⟩ := r
    rw [Ordered, ih, List.isChain_cons, List.forall_mem_cons]
    simp only [List.head?_cons, Option.mem_some_iff, forall_eq']
    refine ⟨?_, ?_⟩
    · rintro ⟨hstart, hend, hhead, hchain, hall⟩
      exact ⟨hstart, ⟨hhead, hchain⟩, hend, hall⟩
    · rintro ⟨hstart, ⟨hhead, hchain⟩, hend, hall⟩
      exact ⟨hstart, hend, hhead, hchain, hall⟩

theorem not_ordered_iff {size : Nat} {regions : List (Nat × Nat)} :
    ¬ Ordered size 0 regions ↔
      (∃ k, ∃ h : k + 1 < regions.length,
          regions[k + 1].1 < regions[k].1 + regions[k].2) ∨
        ∃ r ∈ regions, size < r.1 + r.2 := by
  rw [ordered_iff, List.isChain_iff_getElem]
  refine ⟨?_, ?_⟩
  · intro h
    by_contra hnone
    rw [not_or] at hnone
    obtain ⟨hchain, hend⟩ := hnone
    refine h ⟨fun r _ => Nat.zero_le _, fun k hk => ?_, fun r hr => ?_⟩
    · exact Nat.le_of_not_lt fun hlt => hchain ⟨k, hk, hlt⟩
    · exact Nat.le_of_not_lt fun hlt => hend ⟨r, hr, hlt⟩
  · rintro (⟨k, hk, hlt⟩ | ⟨r, hr, hlt⟩) ⟨-, hchain, hend⟩
    · exact Nat.not_le_of_lt hlt (hchain k hk)
    · exact Nat.not_le_of_lt hlt (hend r hr)

theorem Ordered.start_le {size cursor : Nat} {regions : List (Nat × Nat)}
    (h : Ordered size cursor regions) {r : Nat × Nat} (hr : r ∈ regions) : cursor ≤ r.1 := by
  induction regions generalizing cursor with
  | nil => cases hr
  | cons s regions ih =>
    obtain ⟨hstart, -, hrest⟩ := h
    rcases List.mem_cons.1 hr with rfl | hr
    · exact hstart
    · have := ih hrest hr
      omega

/-! ## Windows -/

/-- The elements of a region, in a list that starts at element `cursor`. -/
def window (cursor : Nat) (r : Nat × Nat) (xs : List α) : List α :=
  (xs.drop (r.1 - cursor)).take r.2

/-- Element `i` lies in the region. -/
def Covers (r : Nat × Nat) (i : Nat) : Prop := r.1 ≤ i ∧ i < r.1 + r.2

instance (r : Nat × Nat) (i : Nat) : Decidable (Covers r i) :=
  inferInstanceAs (Decidable (r.1 ≤ i ∧ i < r.1 + r.2))

theorem window_append {cursor next : Nat} {r : Nat × Nat} {xs ys : List α}
    (hx : cursor + xs.length = next) (hr : next ≤ r.1) :
    window cursor r (xs ++ ys) = window next r ys := by
  have hskip : r.1 - cursor = xs.length + (r.1 - next) := by omega
  unfold window
  rw [hskip, ← List.drop_drop, List.drop_left]

theorem window_middle {cursor : Nat} {r : Nat × Nat} {gap region rest : List α}
    (hgap : gap.length = r.1 - cursor) (hregion : region.length = r.2) :
    window cursor r (gap ++ (region ++ rest)) = region := by
  unfold window
  rw [List.drop_left' hgap, List.take_left' hregion]

namespace Carving

/-- A buffer can be carved when its regions are in order, and only then. -/
theorem carveFrom_isOk {i cursor : Nat} {rest : List α} {regions : List (Nat × Nat)} :
    (∃ c, carveFrom i cursor rest regions = .ok c) ↔
      Ordered (cursor + rest.length) cursor regions := by
  induction regions generalizing i cursor rest with
  | nil => simp [carveFrom, Ordered]
  | cons r regions ih =>
    obtain ⟨start, len⟩ := r
    rw [carveFrom, Ordered]
    split
    · rename_i hstart
      simp only [reduceCtorEq, exists_false, false_iff]
      omega
    · rename_i hstart
      split
      · rename_i hlen
        simp only [reduceCtorEq, exists_false, false_iff]
        omega
      · rename_i hlen
        have hsize : cursor + rest.length =
            start + len + (rest.drop (start - cursor + len)).length := by
          rw [List.length_drop]
          omega
        rw [hsize, ← ih (i := i + 1)]
        simp only [bind_eq_ok]
        refine ⟨?_, ?_⟩
        · rintro ⟨c, later, hlater, -⟩
          exact ⟨by omega, by omega, later, hlater⟩
        · rintro ⟨-, -, later, hlater⟩
          exact ⟨_, later, hlater, rfl⟩

end Carving

/-! ## Rewriting -/

variable {region : β → Nat × Nat} {write : β → List α → Except Fault (List α)}
  {content : β → List α → List α} {owners : List β}

/-- Every owner writes over a region of its size what `content` makes of the old one. -/
def Overwrites (region : β → Nat × Nat) (write : β → List α → Except Fault (List α))
    (content : β → List α → List α) (owners : List β) : Prop :=
  ∀ o ∈ owners, ∀ old, old.length = (region o).2 →
    write o old = .ok (content o old) ∧ (content o old).length = old.length

/-- `new` is `old` with the regions written over and nothing else changed. -/
structure Overwritten (region : β → Nat × Nat) (content : β → List α → List α)
    (owners : List β) (cursor : Nat) (old new : List α) : Prop where
  length : new.length = old.length
  inside : ∀ o ∈ owners,
    window cursor (region o) new = content o (window cursor (region o) old)
  outside : ∀ i, (∀ o ∈ owners, ¬ Covers (region o) (cursor + i)) → new[i]? = old[i]?

theorem Overwritten.cons {o : β} {cursor : Nat} {gap old new rest rest' : List α}
    (hgap : cursor + gap.length = (region o).1) (hold : old.length = (region o).2)
    (hnew : new.length = old.length) (hcontent : new = content o old)
    (hstart : ∀ o' ∈ owners, (region o).1 + (region o).2 ≤ (region o').1)
    (h : Overwritten region content owners ((region o).1 + (region o).2) rest rest') :
    Overwritten region content (o :: owners) cursor (gap ++ (old ++ rest))
      (gap ++ (new ++ rest')) := by
  have hskip : gap.length = (region o).1 - cursor := by omega
  have hnext : ∀ xs : List α, xs.length = old.length →
      cursor + (gap ++ xs).length = (region o).1 + (region o).2 := by
    intro xs hxs
    rw [List.length_append, hxs, hold]
    omega
  refine ⟨?_, fun o' ho' => ?_, fun i hi => ?_⟩
  · simp only [List.length_append, hnew, h.length]
  · rcases List.mem_cons.1 ho' with rfl | ho'
    · rw [window_middle hskip (hnew.trans hold), window_middle hskip hold, hcontent]
    · rw [← List.append_assoc, ← List.append_assoc,
        window_append (hnext new hnew) (hstart o' ho'),
        window_append (hnext old rfl) (hstart o' ho'), h.inside o' ho']
  · rw [List.forall_mem_cons] at hi
    obtain ⟨hhere, hlater⟩ := hi
    rcases Nat.lt_or_ge i gap.length with hlt | hge
    · rw [List.getElem?_append_left hlt, List.getElem?_append_left hlt]
    · have hsize : (gap ++ new).length = (gap ++ old).length := by
        rw [List.length_append, hnew, ← List.length_append]
      have hpast : (gap ++ old).length ≤ i := by
        rw [List.length_append]
        unfold Covers at hhere
        omega
      have hi : cursor + i = (region o).1 + (region o).2 + (i - (gap ++ old).length) := by
        have := hnext old rfl
        omega
      rw [hi] at hlater
      rw [← List.append_assoc, ← List.append_assoc, List.getElem?_append_right hpast,
        List.getElem?_append_right (hsize ▸ hpast), hsize]
      exact h.outside _ hlater

/-- A carved buffer is written over region by region, and put together again. -/
theorem Carving.rewrite_overwrites (hw : Overwrites region write content owners)
    {i cursor : Nat} {rest : List α} {c : Carving α}
    (h : carveFrom i cursor rest (owners.map region) = .ok c) :
    ∃ c', c.rewrite write owners = (.ok (), c') ∧
      Overwritten region content owners cursor rest c'.join := by
  induction owners generalizing i cursor rest c with
  | nil =>
    cases h
    exact ⟨_, rfl, rfl, fun _ ho => (nomatch ho), fun _ _ => rfl⟩
  | cons o owners ih =>
    have hordered := carveFrom_isOk.1 ⟨c, h⟩
    obtain ⟨hcursor, hend, hrest⟩ := hordered
    rw [List.map_cons, carveFrom, if_neg (by omega), if_neg (by omega), bind_eq_ok] at h
    obtain ⟨later, hlater, hc⟩ := h
    cases hc
    obtain ⟨later', hlater', hwritten⟩ :=
      ih (fun o' ho' => hw o' (List.mem_cons_of_mem o ho')) hlater
    have hold : ((rest.drop ((region o).1 - cursor)).take (region o).2).length =
        (region o).2 := by
      rw [List.length_take, List.length_drop]
      omega
    obtain ⟨hwrite, hsize⟩ := hw o List.mem_cons_self _ hold
    have hgap : cursor + (rest.take ((region o).1 - cursor)).length = (region o).1 := by
      rw [List.length_take]
      omega
    have hsplit : rest = rest.take ((region o).1 - cursor) ++
        ((rest.drop ((region o).1 - cursor)).take (region o).2 ++
          rest.drop ((region o).1 - cursor + (region o).2)) := by
      rw [← List.drop_drop, List.take_append_drop, List.take_append_drop]
    obtain ⟨hresult, hpieces⟩ := Prod.ext_iff.1 hlater'
    refine ⟨⟨⟨rest.take ((region o).1 - cursor),
      content o ((rest.drop ((region o).1 - cursor)).take (region o).2)⟩ :: later'.pieces,
      later'.rest⟩, ?_, ?_⟩
    · subst hpieces
      simp only [rewrite] at hresult
      simp only [rewrite, rewritePieces, hwrite, hresult]
    · have hjoin := hwritten.cons hgap hold hsize rfl
        fun o' ho' => hrest.start_le (List.mem_map_of_mem ho')
      rw [← hsplit, ← List.append_assoc] at hjoin
      exact hjoin

end Ragged
