import Ragged.Proofs.Session.Accounts

/-!
# What a refusal for the scratch limit leaves

A reservation grows the sums first. When it is the chunk totals that are refused, the sums stay
as large as they have been made, and charged, though nothing was scanned. A refusal spares the
scratch if the sums were large enough before, or are refused themselves; then nothing that
follows shows that the call was made.
-/

namespace Ragged

open Lengths Scan Scratch

namespace Scratch

variable {s : Scratch} {n m : Nat}

/-- A refused reservation of `n` sums has charged nothing: they were there, or they are past the
limit without any chunk totals. -/
def Spares (s : Scratch) (n : Nat) : Prop := n ≤ s.sums ∨ s.limit < bytes n s.partials

/-- What a reservation that is refused for the limit leaves: the sums, grown if there was room for
them alone. -/
theorem reserve_refused (ha : s.Accounts) {h : Host} {f : Fault}
    (hr : (s.reserve h n m).1 = .error f) (hf : f.isScratch = true) :
    (s.reserve h n m).2 =
      if (s.withRoom n .sums).used ≤ s.limit then s.withRoom n .sums else s := by
  have hreserved := reserve_reserved ha h n m
  generalize s.reserve h n m = r at hreserved hr
  cases hreserved with
  | granted => cases hr
  | unbacked _ hcalm =>
    cases hr
    rw [hcalm] at hf
    cases hf
  | refused => rfl

theorem refused_of_spares (h : s.Accounts) (hs : s.Spares n) :
    (if (s.withRoom n .sums).used ≤ s.limit then s.withRoom n .sums else s) = s := by
  rcases hs with hn | hpast
  · -- growing to what is there already is nothing
    have hsame : s.withRoom n .sums = s := withRoom_of_le h hn
    rw [hsame, ite_self]
  · have hmono : bytes n s.partials ≤ bytes (max n s.sums) s.partials :=
      bytes_mono (Nat.le_max_left n s.sums) (Nat.le_refl _)
    exact if_neg (Nat.not_le.2 (Nat.lt_of_lt_of_le hpast hmono))

/-- The charge for the sums is not given back. -/
theorem refused_of_not_spares (h : s.Accounts) (hs : ¬ s.Spares n) :
    (if (s.withRoom n .sums).used ≤ s.limit then s.withRoom n .sums else s) =
        s.withRoom n .sums ∧
      s.used < (s.withRoom n .sums).used := by
  obtain ⟨hn, hle⟩ := not_or.1 hs
  have hmax : max n s.sums = n := Nat.max_eq_left (Nat.le_of_not_le hn)
  have hused : (s.withRoom n .sums).used = bytes n s.partials := congrArg (bytes · s.partials) hmax
  rw [hused, h.used]
  refine ⟨if_pos (Nat.le_of_not_lt hle), ?_⟩
  unfold bytes sumBytes
  omega

/-! ## What the buffers hold -/

theorem charges_of_emptied {s s' : Scratch} (h : s'.emptied = s.emptied) :
    s'.used = s.used ∧ s'.limit = s.limit := by
  have hused : s'.emptied.used = s.emptied.used := by rw [h]
  have hlimit : s'.emptied.limit = s.emptied.limit := by rw [h]
  exact ⟨hused, hlimit⟩

theorem charge_emptied (s : Scratch) (bytes : Nat) :
    s.emptied.charge bytes = (s.charge bytes).map emptied := by
  unfold charge emptied
  simp only
  split <;> rfl

theorem grow_emptied (s : Scratch) (h : Host) (buffer : Kept) (n : Nat) :
    s.emptied.grow h buffer n = ((s.grow h buffer n).1, (s.grow h buffer n).2.emptied) := by
  have hcapacity : s.emptied.capacity buffer = s.capacity buffer := by cases buffer <;> rfl
  unfold grow
  rw [charge_emptied, hcapacity]
  split
  · rfl
  · cases s.charge (buffer.entryBytes * (n - s.capacity buffer)) with
    | error f => rfl
    | ok charged =>
      simp only [Except.map]
      cases h.memory buffer.need (buffer.entryBytes * n) <;> cases buffer <;> rfl

theorem reserve_emptied (s : Scratch) (h : Host) (n m : Nat) :
    s.emptied.reserve h n m = ((s.reserve h n m).1, (s.reserve h n m).2.emptied) := by
  unfold reserve
  rw [grow_emptied]
  obtain ⟨r, s'⟩ := s.grow h .sums n
  cases r with
  | error f => rfl
  | ok u => exact grow_emptied s' h .partials m

end Scratch

namespace Engine

variable {e e' : Engine} {settings : Settings} {ls : List Int32} {mode : ScanMode}

theorem after_append (e : Engine) (calls calls' : List AnyCall) :
    e.after (calls ++ calls') = (e.after calls).after calls' := by
  induction calls generalizing e with
  | nil => rfl
  | cons c calls ih => exact ih ((e.on c.host).answer c.call).2

/-! ## Engines that cannot be told apart -/

/-- The engines differ in what their buffers hold, if in anything. -/
structure Alike (e e' : Engine) : Prop where
  settings : e.settings = e'.settings
  host : e.host = e'.host
  scratch : e.scratch.emptied = e'.scratch.emptied

theorem Alike.on (h : e.Alike e') (host : Host) : (e.on host).Alike (e'.on host) :=
  ⟨h.settings, rfl, h.scratch⟩

theorem Alike.scan (h : e.Alike e') (ls : List Int32) (mode : ScanMode) :
    (e.scan ls mode).1 = (e'.scan ls mode).1 ∧ (e.scan ls mode).2.Alike (e'.scan ls mode).2 := by
  have hreserve : ∀ m,
      (e.scratch.reserve e.host ls.length m).1 = (e'.scratch.reserve e.host ls.length m).1 ∧
        (e.scratch.reserve e.host ls.length m).2.emptied =
          (e'.scratch.reserve e.host ls.length m).2.emptied := by
    intro m
    have hemptied := reserve_emptied e.scratch e.host ls.length m
    rw [h.scratch, reserve_emptied, Prod.mk.injEq] at hemptied
    exact ⟨hemptied.1.symm, hemptied.2.symm⟩
  obtain ⟨hfst, hsnd⟩ := hreserve (ceilDiv ls.length e'.settings.scanGrain)
  refine ⟨?_, h.settings, h.host, ?_⟩
  · rw [scan_fst, scan_fst, h.settings, hfst, h.host]
  · rw [scan_emptied, scan_emptied, h.settings, hsnd, h.scratch, h.host]

theorem Alike.answer {α : Type} [Element α] (h : e.Alike e') (call : Call α) :
    (e.answer call).1 = (e'.answer call).1 ∧ (e.answer call).2.Alike (e'.answer call).2 := by
  have hcall := answer_scansOnce call
  refine ⟨hcall.fst_congr h.settings h.host fun ls mode _ => (h.scan ls mode).1, ?_⟩
  cases hs : call.scanned with
  | none =>
    have hsnd : ∀ m : Engine, (m.answer call).2 = m := hcall.snd_of_none hs
    rwa [hsnd, hsnd]
  | some request =>
    obtain ⟨ls, mode⟩ := request
    have hsnd : ∀ m : Engine, (m.answer call).2 = (m.scan ls mode).2 := hcall.snd_of_some hs
    rw [hsnd, hsnd]
    exact (h.scan ls mode).2

/-- Every call of a session has a host of its own, so that of the first engine does not show. -/
theorem after_alike (h : ∀ host, (e.on host).Alike (e'.on host)) (calls : List AnyCall)
    (host : Host) : ((e.after calls).on host).Alike ((e'.after calls).on host) := by
  induction calls generalizing e e' with
  | nil => exact h host
  | cons c calls ih => exact ih fun host => ((h c.host).answer c.call).2.on host

/-! ## Refusals -/

def SameBudget (e e' : Engine) : Prop :=
  e'.scratchBytes = e.scratchBytes ∧ e'.scratchAvailable = e.scratchAvailable

theorem Alike.sameBudget (h : e.Alike e') : e.SameBudget e' := by
  obtain ⟨hused, hlimit⟩ := charges_of_emptied h.scratch
  unfold SameBudget scratchBytes scratchAvailable available
  rw [hused, hlimit]
  exact ⟨rfl, rfl⟩

/-- A refused scan leaves the budget as it was if it spares the scratch, and then it leaves
nothing else that shows. -/
theorem scan_refused (ha : e.scratch.Accounts) (hn : Nonneg ls) {f : Fault}
    (hf : (e.scan ls mode).1 = .error f) (hscratch : f.isScratch = true) :
    (e.SameBudget (e.scan ls mode).2 ↔ e.scratch.Spares ls.length) ∧
      (e.scratch.Spares ls.length → e.Alike (e.scan ls mode).2) := by
  have hfst := e.scan_fst ls mode
  have hsnd := e.scan_emptied ls mode
  rw [check_eq_ok.2 hn] at hfst hsnd
  simp only at hfst hsnd
  cases hr : (e.scratch.reserve e.host ls.length (ceilDiv ls.length e.settings.scanGrain)).1 with
  | ok u =>
    rw [hf, hr] at hfst
    rw [(outcome_contract mode ls).notScratch f hfst.symm] at hscratch
    cases hscratch
  | error f' =>
    rw [hf, hr] at hfst
    cases hfst
    rw [reserve_refused ha hr hscratch] at hsnd
    have halike : e.scratch.Spares ls.length → e.Alike (e.scan ls mode).2 := by
      intro hs
      rw [refused_of_spares ha hs] at hsnd
      exact ⟨rfl, rfl, hsnd.symm⟩
    refine ⟨⟨fun hsame => ?_, fun hs => (halike hs).sameBudget⟩, halike⟩
    -- otherwise the sums have grown, and the charge shows it
    by_contra hs
    obtain ⟨hgrown, hused⟩ := refused_of_not_spares ha hs
    rw [hgrown] at hsnd
    obtain ⟨hcharged, -⟩ := charges_of_emptied hsnd
    exact absurd (hcharged.symm.trans hsame.1) (Nat.ne_of_gt hused)

theorem Keeps.spares_iff (h : e.Keeps settings) (n : Nat) :
    e.scratch.Spares n ↔
      n ≤ e.scratch.sums ∨ settings.scratchBytes < 4 * n + 8 * e.scratch.partials := by
  unfold Spares
  rw [h.limit]
  rfl

theorem Keeps.exists_reaches {α : Type} [Element α] (h : e.Keeps settings) {call : Call α}
    (hr : (e.answer call).1.scratchRefused = true) :
    ∃ ls mode f, call.Reaches ls ∧ Nonneg ls ∧
      (e.scan ls mode).1 = .error f ∧ f.isScratch = true ∧
      (e.answer call).2 = (e.scan ls mode).2 := by
  have hmoves := h.moves call
  by_cases hreach : ∃ ls, call.Reaches ls
  · obtain ⟨ls, hls⟩ := hreach
    have ⟨⟨mode, hs⟩, _, hn⟩ := hls
    obtain ⟨f, hf, hscratch⟩ := (scratchRefused_eq hs).1 hr
    exact ⟨ls, mode, f, hls, hn, hf, hscratch, (answer_scansOnce call).snd_of_some hs e⟩
  · obtain ⟨-, hcalm⟩ := hmoves.idle fun ls hls => hreach ⟨ls, hls⟩
    rw [hcalm] at hr
    cases hr

/-- A refusal for the scratch limit leaves the budget as it was exactly if the sums were large
enough or are past the limit themselves. A session then goes on as without the call. -/
theorem budget_after_refusal {host : Host} (h : new settings host = .ok e) (calls : List AnyCall)
    (next : AnyCall)
    (hr : (((e.after calls).on next.host).answer next.call).1.scratchRefused = true) :
    ∃ ls, next.call.Reaches ls ∧
      ((e.after calls).SameBudget (e.after (calls ++ [next])) ↔
        ls.length ≤ (e.after calls).scratch.sums ∨
          settings.scratchBytes < 4 * ls.length + 8 * (e.after calls).scratch.partials) ∧
      ((e.after calls).SameBudget (e.after (calls ++ [next])) →
        ∀ (later : List AnyCall) (last : AnyCall),
          (((e.after (calls ++ next :: later)).on last.host).answer last.call).1 =
            (((e.after (calls ++ later)).on last.host).answer last.call).1) := by
  obtain ⟨hkeeps, -⟩ := keeps_of_new h
  have hafter := hkeeps.after calls
  obtain ⟨ls, mode, f, hls, hn, hf, hscratch, hsnd⟩ := (hafter.on next.host).exists_reaches hr
  obtain ⟨hsame, halike⟩ := scan_refused (hafter.on next.host).accounts hn hf hscratch
  have hnext : e.after (calls ++ [next]) = (((e.after calls).on next.host).scan ls mode).2 := by
    rw [after_append, ← hsnd]
    rfl
  rw [← hnext] at hsame halike
  refine ⟨ls, hls, hsame.trans (hafter.spares_iff ls.length), fun hbudget later last => ?_⟩
  have hspared : ∀ host, ((e.after calls).on host).Alike ((e.after (calls ++ [next])).on host) :=
    fun host => (halike (hsame.1 hbudget)).on host
  have hlater := after_alike hspared later last.host
  rw [← after_append, ← after_append, List.append_assoc, List.singleton_append] at hlater
  exact (hlater.answer last.call).1.symm

/-- Eight lengths take 32 of 30 bytes without any chunk totals. -/
theorem budget_after_refusal_eight_lengths :
    ∃ e, new { scratchLimit := some 30 } .sequential = .ok e ∧
      (e.answer (.scan (List.replicate 8 1) .inclusive : Call UInt8)).1.scratchRefused = true ∧
      e.SameBudget
        (e.after [⟨.sequential, (.scan (List.replicate 8 1) .inclusive : Call UInt8)⟩]) := by
  have h : new { scratchLimit := some 30 } .sequential =
      .ok ⟨{ scratchLimit := some 30 }, rfl, { limit := 30 }, .sequential⟩ := by rfl
  have hr : (((after ⟨{ scratchLimit := some 30 }, rfl, { limit := 30 }, .sequential⟩ []).on
      .sequential).answer
        (.scan (List.replicate 8 1) .inclusive : Call UInt8)).1.scratchRefused = true := by rfl
  obtain ⟨ls, hls, hsame, -⟩ := budget_after_refusal h []
    ⟨.sequential, (.scan (List.replicate 8 1) .inclusive : Call UInt8)⟩ hr
  obtain ⟨rfl, -⟩ := (reaches_iff rfl).1 hls
  exact ⟨_, h, hr, hsame.2 (.inr (by decide))⟩

/-- Seven lengths take 28 of 30 bytes, and nothing is left for a chunk total. The bytes stay
charged, and one length that a new scratch has room for is refused from then on. -/
theorem budget_lost_seven_lengths :
    ∃ e, new { scratchLimit := some 30 } .sequential = .ok e ∧
      (e.answer (.scan (List.replicate 7 1) .inclusive : Call UInt8)).1.scratchRefused = true ∧
      e.scratchBytes = 0 ∧
      (e.after [⟨.sequential,
        (.scan (List.replicate 7 1) .inclusive : Call UInt8)⟩]).scratchBytes = 28 ∧
      (e.answer (.scan [1] .inclusive : Call UInt8)).1 = .sums (.ok [1]) ∧
      ((e.after [⟨.sequential, (.scan (List.replicate 7 1) .inclusive : Call UInt8)⟩]).answer
        (.scan [1] .inclusive : Call UInt8)).1 = .sums (.error (.scratchLimit 8 28 30)) := by
  have h : new { scratchLimit := some 30 } .sequential =
      .ok ⟨{ scratchLimit := some 30 }, rfl, { limit := 30 }, .sequential⟩ := by rfl
  exact ⟨_, h, by rfl, by rfl, by rfl, by rfl, by rfl⟩

end Engine

end Ragged
