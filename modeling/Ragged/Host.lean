import Ragged.Fault
import Ragged.Layout.Segment

/-!
# Hosts

What a call leaves to the machine it runs on. Items that are worked on at the same time
can each meet a fault, and any one of these may be the one reported. Segments may be cut
into tasks in any way that leaves no task empty. Memory may be granted or not. A host is
one choice of all this, made during one call; only its fields are known of it.
-/

namespace Ragged

/-- Bytes that no single buffer may exceed. -/
abbrev maxBufferBytes : Nat := 0x7fffffffffffffff

/-- What a call needs memory for, each at most once. -/
inductive Need where
  | scanSums
  | scanTotals
  | output
  | lengths
  | regions
  | startSums
  | stopSums
  | mergedSums
  deriving DecidableEq

structure Host where
  /-- The fault that is reported of those met, which come in the order of their items. -/
  report : Fault → List Fault → Fault
  report_mem : ∀ f fs, report f fs ∈ f :: fs
  /-- The tasks for segments when one task should take at least so many. -/
  cut : Nat → List Segment → Cut
  segments_cut : ∀ grain segs, (cut grain segs).segments = segs
  divides_cut : ∀ grain segs, (cut grain segs).Divides
  /-- Whether memory of so many bytes is granted. -/
  grants : Need → Nat → Bool

namespace Host

variable {α β : Type}

/-- One worker: faults show in the order of the items, and all segments are one task. -/
def sequential : Host where
  report f _ := f
  report_mem _ _ := List.mem_cons_self
  cut _ segs := .task segs
  segments_cut _ _ := rfl
  divides_cut _ _ := trivial
  grants _ _ := true

/-- Asks for memory. None is needed for no bytes. -/
def memory (h : Host) (need : Need) (bytes : Nat) : Except Fault Unit :=
  if maxBufferBytes < bytes then .error .allocationTooLarge
  else if bytes = 0 ∨ h.grants need bytes then .ok ()
  else .error .allocationRefused

/-- Memory of so many bytes can be had. -/
def Gives (h : Host) (need : Need) (bytes : Nat) : Prop :=
  bytes ≤ maxBufferBytes ∧ (bytes = 0 ∨ h.grants need bytes)

instance (h : Host) (need : Need) (bytes : Nat) : Decidable (h.Gives need bytes) :=
  inferInstanceAs (Decidable (_ ∧ _))

theorem memory_eq_ok {h : Host} {need : Need} {bytes : Nat} :
    h.memory need bytes = .ok () ↔ h.Gives need bytes := by
  unfold memory Gives
  split
  · simp; omega
  · split <;> simp_all

/-- The faults among results, in order. -/
def faults : List (Except Fault β) → List Fault
  | [] => []
  | .ok _ :: rs => faults rs
  | .error f :: rs => f :: faults rs

def values : List (Except Fault β) → List β
  | [] => []
  | .ok b :: rs => b :: values rs
  | .error _ :: rs => values rs

/-- The results of items worked on at the same time: all values, or one of the faults. -/
def collect (h : Host) (rs : List (Except Fault β)) : Except Fault (List β) :=
  match faults rs with
  | [] => .ok (values rs)
  | f :: fs => .error (h.report f fs)

theorem mem_faults {rs : List (Except Fault β)} {f : Fault} : f ∈ faults rs ↔ .error f ∈ rs := by
  induction rs with
  | nil => simp [faults]
  | cons r rs ih => cases r <;> simp [faults, ih]

theorem faults_eq_nil {rs : List (Except Fault β)} : faults rs = [] ↔ rs = (values rs).map .ok := by
  induction rs with
  | nil => exact ⟨fun _ => rfl, fun _ => rfl⟩
  | cons r rs ih =>
    cases r with
    | ok b => simp [faults, values, ih]
    | error f =>
      refine ⟨fun h => (nomatch h), fun h => ?_⟩
      have hf : .error f ∈ (values (.error f :: rs)).map Except.ok := h ▸ List.mem_cons_self
      simp at hf

theorem values_map_ok (bs : List β) : values (bs.map .ok) = bs := by
  induction bs with
  | nil => rfl
  | cons b bs ih => rw [List.map_cons, values, ih]

theorem collect_eq_ok {h : Host} {rs : List (Except Fault β)} {bs : List β} :
    h.collect rs = .ok bs ↔ rs = bs.map .ok := by
  unfold collect
  split
  · rename_i hf
    have hrs := faults_eq_nil.1 hf
    refine ⟨fun hb => by cases hb; exact hrs, fun hb => ?_⟩
    rw [hb, values_map_ok]
  · rename_i f fs hf
    refine ⟨fun hb => (nomatch hb), fun hb => ?_⟩
    have hnil : faults rs = [] := faults_eq_nil.2 (by rw [hb, values_map_ok])
    rw [hnil] at hf
    cases hf

theorem collect_map {h : Host} {xs : List α} {f : α → Except Fault β} {g : α → β}
    (hfg : ∀ x ∈ xs, f x = .ok (g x)) : h.collect (xs.map f) = .ok (xs.map g) := by
  rw [collect_eq_ok, List.map_map]
  exact List.map_congr_left hfg

theorem exists_of_collect_map {h : Host} {xs : List α} {f : α → Except Fault β} {bs : List β}
    (hc : h.collect (xs.map f) = .ok bs) {x : α} (hx : x ∈ xs) : ∃ b, f x = .ok b := by
  have hmem : f x ∈ bs.map Except.ok := collect_eq_ok.1 hc ▸ List.mem_map_of_mem hx
  obtain ⟨b, -, hb⟩ := List.mem_map.1 hmem
  exact ⟨b, hb.symm⟩

theorem mem_of_collect_eq_error {h : Host} {rs : List (Except Fault β)} {f : Fault}
    (hf : h.collect rs = .error f) : .error f ∈ rs := by
  unfold collect at hf
  split at hf
  · cases hf
  · rename_i g gs hg
    cases hf
    rw [← mem_faults, hg]
    exact h.report_mem g gs

end Host

end Ragged
