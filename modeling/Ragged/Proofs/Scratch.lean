import Ragged.Scratch
import Ragged.Word

/-!
# Scratch accounts

What has been charged is what the two buffers hold. A reservation keeps the accounts in
order, whatever it comes to. It is refused for the limit exactly when both buffers, grown
to what is asked for, would exceed it, unless memory has failed it before.
-/

namespace Ragged

def Fault.isScratch : Fault → Bool
  | scratchLimit .. => true
  | _ => false

theorem Host.memory_fault {h : Host} {need : Need} {bytes : Nat} {f : Fault}
    (hf : h.memory need bytes = .error f) : f.kind = .resource ∧ f.isScratch = false := by
  unfold memory at hf
  split at hf
  · cases hf
    exact ⟨rfl, rfl⟩
  · split at hf <;> cases hf
    exact ⟨rfl, rfl⟩

namespace Scratch

def bytes (sums partials : Nat) : Nat := sumBytes * sums + partialBytes * partials

/-- The charges are the bytes held, the limit was kept, and each buffer is one that memory
can be granted for. -/
structure Accounts (s : Scratch) : Prop where
  used : s.used = bytes s.sums s.partials
  within : s.used ≤ s.limit
  sums : sumBytes * s.sums ≤ maxBufferBytes
  partials : partialBytes * s.partials ≤ maxBufferBytes

variable {s : Scratch} {h : Host} {n m : Nat}

/-- The scratch without what its buffers hold. -/
def emptied (s : Scratch) : Scratch := { s with heldSums := [], heldPartials := [] }

theorem Accounts.of_emptied {s' : Scratch} (ha : s.Accounts) (he : s'.emptied = s.emptied) :
    s'.Accounts ∧ s'.limit = s.limit := by
  have hemptied : s.emptied.Accounts := ⟨ha.used, ha.within, ha.sums, ha.partials⟩
  have hlimit := congrArg Scratch.limit he
  rw [← he] at hemptied
  exact ⟨⟨hemptied.used, hemptied.within, hemptied.sums, hemptied.partials⟩, hlimit⟩

/-- The scratch with room for `n` entries in a buffer, charged for what both then hold. -/
def withRoom (s : Scratch) (n : Nat) : Kept → Scratch
  | .sums =>
    { s with sums := max n s.sums, used := bytes (max n s.sums) s.partials,
             heldSums := if n ≤ s.sums then s.heldSums else [] }
  | .partials =>
    { s with partials := max n s.partials, used := bytes s.sums (max n s.partials),
             heldPartials := if n ≤ s.partials then s.heldPartials else [] }

variable {buffer : Kept}

theorem withRoom_of_le (ha : s.Accounts) (hn : n ≤ s.capacity buffer) :
    s.withRoom n buffer = s := by
  cases buffer
  all_goals
    unfold capacity at hn
    unfold withRoom
    simp only at hn ⊢
    rw [Nat.max_eq_right hn, if_pos hn, ← ha.used]

/-- What a buffer has is not charged for again. -/
theorem used_withRoom (ha : s.Accounts) (hn : ¬ n ≤ s.capacity buffer) :
    (s.withRoom n buffer).used = s.used + buffer.entryBytes * (n - s.capacity buffer) := by
  have hused := ha.used
  cases buffer
  all_goals
    simp only [capacity, withRoom, Kept.entryBytes, bytes, sumBytes, partialBytes] at *
    omega

theorem resize_charged (hn : ¬ n ≤ s.capacity buffer) :
    { s with used := (s.withRoom n buffer).used }.resize n buffer = s.withRoom n buffer := by
  have hmax : max n (s.capacity buffer) = n := Nat.max_eq_left (Nat.le_of_not_le hn)
  cases buffer
  all_goals
    unfold capacity at hn hmax
    unfold withRoom resize
    simp only at hn hmax ⊢
    rw [hmax, if_neg hn]

theorem Accounts.withRoom (ha : s.Accounts) (hn : ¬ n ≤ s.capacity buffer)
    (hle : (s.withRoom n buffer).used ≤ s.limit)
    (hmem : buffer.entryBytes * n ≤ maxBufferBytes) : (s.withRoom n buffer).Accounts := by
  have hmax : max n (s.capacity buffer) = n := Nat.max_eq_left (Nat.le_of_not_le hn)
  rw [← hmax] at hmem
  cases buffer with
  | sums => exact ⟨rfl, hle, hmem, ha.partials⟩
  | partials => exact ⟨rfl, hle, ha.sums, hmem⟩

/-- What growing a buffer comes to: it is there, memory fails it, or the limit does. `asked`
says whether the memory can be had. -/
inductive Grown (s grown : Scratch) (asked : Prop) : Except Fault Unit × Scratch → Prop where
  | granted : grown.used ≤ s.limit → grown.Accounts → Grown s grown asked (.ok (), grown)
  | unbacked {f : Fault} {s' : Scratch} : grown.used ≤ s.limit → ¬ asked → f.isScratch = false →
      s'.emptied = s.emptied → Grown s grown asked (.error f, s')
  | refused (requested : Nat) : s.limit < grown.used →
      Grown s grown asked (.error (.scratchLimit requested s.used s.limit), s)

theorem grow_grown (ha : s.Accounts) (h : Host) (buffer : Kept) (n : Nat) :
    Grown s (s.withRoom n buffer) (h.Gives buffer.need (buffer.entryBytes * n))
      (s.grow h buffer n) := by
  unfold grow
  split
  · rename_i hn
    rw [withRoom_of_le ha hn]
    exact .granted ha.within ha
  · rename_i hn
    rw [charge, ← used_withRoom ha hn]
    by_cases hle : (s.withRoom n buffer).used ≤ s.limit
    · rw [if_pos hle]
      simp only
      cases hmem : h.memory buffer.need (buffer.entryBytes * n) with
      | error f =>
        refine .unbacked hle (fun hg => ?_) (Host.memory_fault hmem).2 ?_
        · rw [Host.memory_eq_ok.2 hg] at hmem
          cases hmem
        · cases buffer <;> rfl
      | ok u =>
        simp only [resize_charged hn]
        exact .granted hle (ha.withRoom hn hle (Host.memory_eq_ok.1 hmem).1)
    · rw [if_neg hle]
      exact .refused _ (Nat.lt_of_not_le hle)

theorem bytes_mono {a b c d : Nat} (hac : a ≤ c) (hbd : b ≤ d) : bytes a b ≤ bytes c d :=
  Nat.add_le_add (Nat.mul_le_mul_left _ hac) (Nat.mul_le_mul_left _ hbd)

def grownBytes (s : Scratch) (n m : Nat) : Nat := bytes (max n s.sums) (max m s.partials)

/-- The memory that a reservation asks for can be had. -/
structure Backed (h : Host) (n m : Nat) : Prop where
  sums : h.Gives .scanSums (sumBytes * n)
  partials : h.Gives .scanTotals (partialBytes * m)

/-- What a reservation comes to. -/
inductive Reserved (s : Scratch) (h : Host) (n m : Nat) : Except Fault Unit × Scratch → Prop where
  /-- Both buffers are there. -/
  | granted : s.grownBytes n m ≤ s.limit → ((s.withRoom n .sums).withRoom m .partials).Accounts →
      Reserved s h n m (.ok (), (s.withRoom n .sums).withRoom m .partials)
  /-- Memory has failed one of them, the sums or else the chunk totals. -/
  | unbacked {f : Fault} {s' : Scratch} : ¬ Backed h n m → f.isScratch = false →
      s'.emptied = s.emptied ∨ s.grownBytes n m ≤ s.limit ∧ s'.emptied = (s.withRoom n .sums).emptied →
      Reserved s h n m (.error f, s')
  /-- The limit stands in the way. The sums have grown if there was room for them alone. -/
  | refused (requested used : Nat) : s.limit < s.grownBytes n m →
      Reserved s h n m (.error (.scratchLimit requested used s.limit),
        if (s.withRoom n .sums).used ≤ s.limit then s.withRoom n .sums else s)

theorem reserve_reserved (ha : s.Accounts) (h : Host) (n m : Nat) :
    Reserved s h n m (s.reserve h n m) := by
  have hsums := grow_grown ha h .sums n
  have hmono : (s.withRoom n .sums).used ≤ s.grownBytes n m :=
    bytes_mono (Nat.le_refl _) (Nat.le_max_right m s.partials)
  unfold reserve
  generalize s.grow h .sums n = grown at hsums
  cases hsums with
  | granted hle hacc =>
    have hpartials := grow_grown hacc h .partials m
    simp only
    generalize (s.withRoom n .sums).grow h .partials m = grown at hpartials
    cases hpartials with
    | granted hle' hacc' => exact .granted hle' hacc'
    | unbacked hle' hno hf he => exact .unbacked (fun hb => hno hb.partials) hf (.inr ⟨hle', he⟩)
    | refused requested hlt =>
      have hlt : s.limit < s.grownBytes n m := hlt
      have hrefused := Reserved.refused (h := h) requested (s.withRoom n .sums).used hlt
      rwa [if_pos hle] at hrefused
  | unbacked _ hno hf he => exact .unbacked (fun hb => hno hb.sums) hf (.inl he)
  | refused requested hlt =>
    have hrefused := Reserved.refused (h := h) requested s.used (Nat.lt_of_lt_of_le hlt hmono)
    rwa [if_neg (Nat.not_le.2 hlt)] at hrefused

theorem reserve_of_le (ha : s.Accounts) (hb : Backed h n m) (hle : s.grownBytes n m ≤ s.limit) :
    s.reserve h n m = (.ok (), (s.withRoom n .sums).withRoom m .partials) := by
  have hr := reserve_reserved ha h n m
  generalize s.reserve h n m = r at hr
  cases hr with
  | granted => rfl
  | unbacked hno => exact absurd hb hno
  | refused _ _ hlt => exact absurd hle (Nat.not_le.2 hlt)

theorem reserve_of_lt (ha : s.Accounts) (hb : Backed h n m) (hlt : s.limit < s.grownBytes n m) :
    ∃ requested used,
      s.reserve h n m = (.error (.scratchLimit requested used s.limit),
        if (s.withRoom n .sums).used ≤ s.limit then s.withRoom n .sums else s) := by
  have hr := reserve_reserved ha h n m
  generalize s.reserve h n m = r at hr
  cases hr with
  | granted hle => exact absurd hle (Nat.not_le.2 hlt)
  | unbacked hno => exact absurd hb hno
  | refused requested used => exact ⟨requested, used, rfl⟩

theorem reserve_of_within (h : Host) (hn : n ≤ s.sums) (hm : m ≤ s.partials) :
    s.reserve h n m = (.ok (), s) := by
  have hsums : s.grow h .sums n = (.ok (), s) := if_pos hn
  have hpartials : s.grow h .partials m = (.ok (), s) := if_pos hm
  rw [reserve, hsums]
  exact hpartials

theorem eq_of_reserve (ha : s.Accounts) (hr : (s.reserve h n m).1 = .ok ()) :
    s.reserve h n m = (.ok (), (s.withRoom n .sums).withRoom m .partials) := by
  have hreserved := reserve_reserved ha h n m
  generalize s.reserve h n m = r at hreserved hr
  cases hreserved with
  | granted => rfl
  | unbacked => cases hr
  | refused => cases hr

/-- Whatever a reservation comes to, the accounts are in order after it. -/
theorem Accounts.reserve (ha : s.Accounts) (h : Host) (n m : Nat) :
    (s.reserve h n m).2.Accounts ∧ (s.reserve h n m).2.limit = s.limit := by
  have hsums := grow_grown ha h .sums n
  unfold Scratch.reserve
  generalize s.grow h .sums n = grown at hsums
  cases hsums with
  | granted _ hacc =>
    have hpartials := grow_grown hacc h .partials m
    simp only
    generalize (s.withRoom n .sums).grow h .partials m = grown at hpartials
    cases hpartials with
    | granted _ hacc' => exact ⟨hacc', rfl⟩
    | unbacked _ _ _ he => exact hacc.of_emptied he
    | refused => exact ⟨hacc, rfl⟩
  | unbacked _ _ _ he => exact ha.of_emptied he
  | refused => exact ⟨ha, rfl⟩

theorem bytes_le_maxWord {a b : Nat} (ha : sumBytes * a ≤ maxBufferBytes)
    (hb : partialBytes * b ≤ maxBufferBytes) : bytes a b ≤ maxWord := by
  unfold bytes maxWord
  unfold maxBufferBytes at ha hb
  omega

/-- A reservation of memory that can be had is within the largest limit. -/
theorem Accounts.grownBytes_le (ha : s.Accounts) (hb : Backed h n m) :
    s.grownBytes n m ≤ maxWord := by
  refine bytes_le_maxWord ?_ ?_
  · rcases Nat.le_total n s.sums with hn | hn
    · rw [Nat.max_eq_right hn]
      exact ha.sums
    · rw [Nat.max_eq_left hn]
      exact hb.sums.1
  · rcases Nat.le_total m s.partials with hm | hm
    · rw [Nat.max_eq_right hm]
      exact ha.partials
    · rw [Nat.max_eq_left hm]
      exact hb.partials.1

end Scratch

end Ragged
