import Ragged.Proofs.Session.Calls

/-!
# Scratch accounts of a session

The scratch holds two capacities from call to call, and a call moves them only by a scan of
at least one length. What one call does is settled by what its scan reserves; the accounts of
a session follow by induction on the calls, refused ones included.
-/

namespace Ragged

open Lengths Scan Scratch

variable {α : Type}

/-- The call comes to scan the lengths `ls`, at least one and none negative. -/
def Call.Reaches (call : Call α) (ls : List Int32) : Prop :=
  (∃ mode, call.scanned = some (ls, mode)) ∧ ls ≠ [] ∧ Nonneg ls

namespace Engine

variable {e : Engine} {settings : Settings} {ls : List Int32} {mode : ScanMode}

/-! ## Scans -/

/-- Bytes of both buffers once they are large enough to scan `n` lengths. -/
def grownBytes (e : Engine) (n : Nat) : Nat :=
  e.scratch.grownBytes n (ceilDiv n e.settings.scanGrain)

/-- Both buffers hold what they held. -/
def SameCapacities (s s' : Scratch) : Prop := s'.sums = s.sums ∧ s'.partials = s.partials

theorem sameCapacities_of_emptied {s s' : Scratch} (h : s'.emptied = s.emptied) :
    SameCapacities s s' := by
  have hsums : s'.emptied.sums = s.emptied.sums := by rw [h]
  have hpartials : s'.emptied.partials = s.emptied.partials := by rw [h]
  exact ⟨hsums, hpartials⟩

theorem scan_emptied (e : Engine) (ls : List Int32) (mode : ScanMode) :
    (e.scan ls mode).2.scratch.emptied =
      match check ls with
      | .error _ => e.scratch.emptied
      | .ok () =>
        (e.scratch.reserve e.host ls.length
          (ceilDiv ls.length e.settings.scanGrain)).2.emptied :=
  Scan.run_snd e.scanGrain_pos e.host ls e.scratch

/-- A negative length is refused before the scratch is touched. -/
theorem scan_of_negative (hn : ¬ Nonneg ls) (e : Engine) (mode : ScanMode) :
    NotScratch (e.scan ls mode).1 ∧
      SameCapacities e.scratch (e.scan ls mode).2.scratch := by
  have hfst := e.scan_fst ls mode
  have hsnd := e.scan_emptied ls mode
  have hcontract := check_contract ls
  cases hc : check ls with
  | error f =>
    rw [hc] at hfst hsnd hcontract
    have herror : (e.scan ls mode).1 = .error f := hfst
    rw [herror]
    exact ⟨.error (hcontract.notScratch f rfl), sameCapacities_of_emptied hsnd⟩
  | ok u => exact absurd (check_eq_ok.1 hc) hn

theorem scan_negative_agrees (hn : ¬ Nonneg ls) (e m : Engine) (mode : ScanMode) :
    (e.scan ls mode).1 = (m.scan ls mode).1 := by
  have hfst := e.scan_fst ls mode
  have hfst' := m.scan_fst ls mode
  cases hc : check ls with
  | error f =>
    rw [hc] at hfst hfst'
    exact hfst.trans hfst'.symm
  | ok u => exact absurd (check_eq_ok.1 hc) hn

/-- What a scan of lengths that are not negative comes to, and the capacities it leaves. -/
inductive Scanned (e : Engine) (ls : List Int32) (mode : ScanMode) :
    Except Fault (List Int32) → Scratch → Prop where
  /-- Within the limit it has its buffers, also when its total is then refused. -/
  | within {s : Scratch} : e.grownBytes ls.length ≤ e.scratch.limit →
      s.sums = max ls.length e.scratch.sums →
      s.partials = max (ceilDiv ls.length e.settings.scanGrain) e.scratch.partials →
      Scanned e ls mode (outcome mode ls) s
  /-- Memory has failed it. Its sums may have grown by then, if the limit has room for both. -/
  | unbacked {f : Fault} {s : Scratch} : ¬ e.Grants ls.length → f.isScratch = false →
      s.sums = e.scratch.sums ∨
        e.grownBytes ls.length ≤ e.scratch.limit ∧ s.sums = max ls.length e.scratch.sums →
      s.partials = e.scratch.partials → Scanned e ls mode (.error f) s
  /-- Past the limit it is refused. Its sums may have grown by then. -/
  | past {f : Fault} {s : Scratch} : e.scratch.limit < e.grownBytes ls.length →
      f.isScratch = true → e.scratch.sums ≤ s.sums → s.partials = e.scratch.partials →
      Scanned e ls mode (.error f) s

theorem scan_scanned (ha : e.scratch.Accounts) (hn : Nonneg ls) (mode : ScanMode) :
    e.Scanned ls mode (e.scan ls mode).1 (e.scan ls mode).2.scratch := by
  have hfst := e.scan_fst ls mode
  have hsnd := e.scan_emptied ls mode
  rw [check_eq_ok.2 hn] at hfst hsnd
  simp only at hfst hsnd
  have hr := reserve_reserved ha e.host ls.length (ceilDiv ls.length e.settings.scanGrain)
  generalize e.scratch.reserve e.host ls.length (ceilDiv ls.length e.settings.scanGrain) = r
    at hr hfst hsnd
  rw [hfst]
  cases hr with
  | granted hle =>
    obtain ⟨hsums, hpartials⟩ := sameCapacities_of_emptied hsnd
    exact .within hle hsums hpartials
  | unbacked hno hf he =>
    rcases he with he | ⟨hle, he⟩
    · obtain ⟨hsums, hpartials⟩ := sameCapacities_of_emptied (hsnd.trans he)
      exact .unbacked hno hf (.inl hsums) hpartials
    · obtain ⟨hsums, hpartials⟩ := sameCapacities_of_emptied (hsnd.trans he)
      exact .unbacked hno hf (.inr ⟨hle, hsums⟩) hpartials
  | refused requested used hlt =>
    simp only at hsnd
    split at hsnd
    · obtain ⟨hsums, hpartials⟩ := sameCapacities_of_emptied hsnd
      exact .past hlt rfl (hsums ▸ Nat.le_max_right ..) hpartials
    · obtain ⟨hsums, hpartials⟩ := sameCapacities_of_emptied hsnd
      exact .past hlt rfl (Nat.le_of_eq hsums.symm) hpartials

theorem grants_zero (e : Engine) : e.Grants 0 := by
  unfold Grants
  rw [ceilDiv_zero e.scanGrain_pos]
  exact ⟨⟨Nat.zero_le _, .inl rfl⟩, ⟨Nat.zero_le _, .inl rfl⟩⟩

/-! ## Calls -/

theorem grants_of_reaches {call : Call α} (hg : ∀ ls, call.Reaches ls → e.Grants ls.length)
    (hs : call.scanned = some (ls, mode)) (hn : Nonneg ls) : e.Grants ls.length := by
  by_cases hne : ls = []
  · subst hne
    exact e.grants_zero
  · exact hg ls ⟨⟨mode, hs⟩, hne, hn⟩

variable [Element α] {call : Call α}

theorem answer_calm
    (h : ∀ ls mode, call.scanned = some (ls, mode) → NotScratch (e.scan ls mode).1) :
    (e.answer call).1.scratchRefused = false := by
  have hcall := answer_scansOnce call
  cases hs : call.scanned with
  | none =>
    refine hcall.calm_of_ok fun ls mode hr => ?_
    rw [hs] at hr
    cases hr
  | some request =>
    have hscan := h _ _ hs
    cases hr : (e.scan request.1 request.2).1 with
    | error f =>
      rw [hcall.fst_of_error hs hr, Answer.scratchRefused_refuse]
      exact hscan f hr
    | ok sums =>
      refine hcall.calm_of_ok fun ls mode hr' => ?_
      rw [hs] at hr'
      cases hr'
      exact ⟨sums, hr⟩

/-- How a call answered on the host `h` moves the capacities. -/
structure Moves (settings : Settings) (h : Host) (s : Scratch) (call : Call α)
    (answer : Answer α) (s' : Scratch) : Prop where
  sums : s.sums ≤ s'.sums
  partials : s.partials ≤ s'.partials
  /-- A call that does not come to scan a length leaves them. -/
  idle : (∀ ls, ¬ call.Reaches ls) → SameCapacities s s' ∧ answer.scratchRefused = false
  /-- Another that memory can be had for is refused if they would exceed the limit. -/
  refused : ∀ ls, call.Reaches ls → Backed h ls.length (ceilDiv ls.length settings.scanGrain) →
    (answer.scratchRefused = true ↔
      settings.scratchBytes <
        4 * max s.sums ls.length + 8 * max s.partials (ceilDiv ls.length settings.scanGrain))
  /-- Otherwise they are large enough from then on, whatever the call comes to. -/
  grown : ∀ ls, call.Reaches ls → Backed h ls.length (ceilDiv ls.length settings.scanGrain) →
    answer.scratchRefused = false →
      s'.sums = max s.sums ls.length ∧
        s'.partials = max s.partials (ceilDiv ls.length settings.scanGrain)

/-- What an engine keeps from call to call. -/
structure Keeps (settings : Settings) (e : Engine) : Prop where
  same : e.settings = settings
  accounts : e.scratch.Accounts
  limit : e.scratch.limit = settings.scratchBytes

theorem keeps_of_new {h : Host} (hnew : new settings h = .ok e) :
    e.Keeps settings ∧ e.scratch.sums = 0 ∧ e.scratch.partials = 0 := by
  unfold new at hnew
  split at hnew
  · cases hnew
    exact ⟨⟨rfl, ⟨rfl, Nat.zero_le _, Nat.zero_le _, Nat.zero_le _⟩, rfl⟩, rfl, rfl⟩
  · cases hnew

theorem Keeps.unlimited (h : e.Keeps settings) (hunset : settings.scratchLimit = none) :
    e.Unlimited := by
  obtain ⟨rfl, haccounts, hlimit⟩ := h
  exact ⟨hunset, hlimit, haccounts⟩

theorem Keeps.on (h : e.Keeps settings) (host : Host) : (e.on host).Keeps settings :=
  ⟨h.same, h.accounts, h.limit⟩

theorem Keeps.answer (h : e.Keeps settings) (call : Call α) :
    (e.answer call).2.Keeps settings := by
  have hcall := answer_scansOnce call
  cases hs : call.scanned with
  | none =>
    have hsnd : (e.answer call).2 = e := hcall.snd_of_none hs e
    rwa [hsnd]
  | some request =>
    have hsnd : (e.answer call).2 = (e.scan request.1 request.2).2 := hcall.snd_of_some hs e
    obtain ⟨hacc, hlimit⟩ := scan_accounts h.accounts request.1 request.2
    rw [hsnd]
    exact ⟨h.same, hacc, hlimit.trans h.limit⟩

theorem Keeps.after (h : e.Keeps settings) (calls : List AnyCall) :
    (e.after calls).Keeps settings := by
  induction calls generalizing e with
  | nil => exact h
  | cons c calls ih => exact ih ((h.on c.host).answer c.call)

theorem Keeps.grownBytes_eq (h : e.Keeps settings) (n : Nat) :
    e.grownBytes n =
      4 * max e.scratch.sums n + 8 * max e.scratch.partials (ceilDiv n settings.scanGrain) := by
  rw [grownBytes, Scratch.grownBytes, h.same, Nat.max_comm n, Nat.max_comm (ceilDiv n _)]
  rfl

theorem Keeps.grownBytes_zero (h : e.Keeps settings) :
    e.grownBytes 0 ≤ settings.scratchBytes := by
  have hwithin := h.accounts.within
  rw [h.accounts.used, h.limit] at hwithin
  rwa [grownBytes, Scratch.grownBytes, ceilDiv_zero e.scanGrain_pos, Nat.zero_max, Nat.zero_max]

omit [Element α] in
theorem reaches_iff (hs : call.scanned = some (ls, mode)) {ls' : List Int32} :
    call.Reaches ls' ↔ ls' = ls ∧ ls ≠ [] ∧ Nonneg ls := by
  unfold Call.Reaches
  rw [hs]
  simp only [Option.some.injEq, Prod.mk.injEq]
  refine ⟨?_, ?_⟩
  · rintro ⟨⟨_, rfl, rfl⟩, h⟩
    exact ⟨rfl, h⟩
  · rintro ⟨rfl, h⟩
    exact ⟨⟨mode, rfl, rfl⟩, h⟩

omit [Element α] in
theorem nil_of_not_reaches (hs : call.scanned = some (ls, mode)) (hn : Nonneg ls)
    (hreach : ∀ ls, ¬ call.Reaches ls) : ls = [] := by
  by_contra hne
  exact hreach ls ((reaches_iff hs).2 ⟨rfl, hne, hn⟩)

omit [Element α] in
theorem Moves.of_idle {h : Host} {s s' : Scratch} {answer : Answer α}
    (hreach : ∀ ls, ¬ call.Reaches ls) (hs : SameCapacities s s')
    (hcalm : answer.scratchRefused = false) : Moves settings h s call answer s' :=
  ⟨Nat.le_of_eq hs.1.symm, Nat.le_of_eq hs.2.symm, fun _ => ⟨hs, hcalm⟩,
    fun ls hl => absurd hl (hreach ls), fun ls hl => absurd hl (hreach ls)⟩

omit [Element α] in
theorem Moves.of_scanned {h : Host} {s s' : Scratch} {answer : Answer α}
    (hs : call.scanned = some (ls, mode)) (hn : Nonneg ls) (hsums : s.sums ≤ s'.sums)
    (hpartials : s.partials ≤ s'.partials)
    (hidle : ls = [] → SameCapacities s s' ∧ answer.scratchRefused = false)
    (hbacked : Backed h ls.length (ceilDiv ls.length settings.scanGrain) →
      (answer.scratchRefused = true ↔ settings.scratchBytes <
          4 * max s.sums ls.length + 8 * max s.partials (ceilDiv ls.length settings.scanGrain)) ∧
        (answer.scratchRefused = false → s'.sums = max s.sums ls.length ∧
          s'.partials = max s.partials (ceilDiv ls.length settings.scanGrain))) :
    Moves settings h s call answer s' := by
  refine ⟨hsums, hpartials, fun hreach => hidle (nil_of_not_reaches hs hn hreach),
    fun ls' hl => ?_, fun ls' hl => ?_⟩
  · obtain ⟨rfl, -⟩ := (reaches_iff hs).1 hl
    exact fun hb => (hbacked hb).1
  · obtain ⟨rfl, -⟩ := (reaches_iff hs).1 hl
    exact fun hb => (hbacked hb).2

/-- The call ends for the scratch limit exactly when its scan does. -/
theorem scratchRefused_eq (hs : call.scanned = some (ls, mode)) :
    (e.answer call).1.scratchRefused = true ↔
      ∃ f, (e.scan ls mode).1 = .error f ∧ f.isScratch = true := by
  have hcall := answer_scansOnce call
  cases hscan : (e.scan ls mode).1 with
  | error f =>
    have hanswer : (e.answer call).1 = call.refuse f := hcall.fst_of_error hs hscan
    rw [hanswer, Answer.scratchRefused_refuse]
    simp
  | ok sums =>
    have hcalm : (e.answer call).1.scratchRefused = false :=
      answer_calm fun ls' mode' hr => by
        rw [hs] at hr
        cases hr
        rw [hscan]
        exact .ok sums
    simp [hcalm]

theorem Keeps.moves_of_scanned (h : e.Keeps settings) (hs : call.scanned = some (ls, mode))
    (hn : Nonneg ls) :
    Moves settings e.host e.scratch call (e.answer call).1 (e.scan ls mode).2.scratch := by
  have hscanned := scan_scanned h.accounts hn mode
  have hrefused := scratchRefused_eq (e := e) hs
  have hquiet : (¬ ∃ f, (e.scan ls mode).1 = .error f ∧ f.isScratch = true) →
      (e.answer call).1.scratchRefused = false :=
    fun hno => Bool.eq_false_iff.2 fun htrue => hno (hrefused.1 htrue)
  have hgrants : Backed e.host ls.length (ceilDiv ls.length settings.scanGrain) →
      e.Grants ls.length := by
    rw [← h.same]
    exact id
  have hbytes := h.grownBytes_eq ls.length
  have hlimit := h.limit
  have hzero := h.grownBytes_zero
  have hnone := e.grants_zero
  generalize (e.scan ls mode).1 = r at hscanned hrefused hquiet
  generalize (e.scan ls mode).2.scratch = s' at hscanned
  cases hscanned with
  | within hle hsums hpartials =>
    have hcalm := hquiet fun ⟨f, hf, hscratch⟩ => by
      rw [(outcome_contract mode ls).notScratch f hf] at hscratch
      cases hscratch
    rw [h.same, Nat.max_comm] at hpartials
    rw [Nat.max_comm] at hsums
    refine .of_scanned hs hn (hsums ▸ Nat.le_max_left ..) (hpartials ▸ Nat.le_max_left ..)
      (fun hnil => ?_) fun _ => ⟨?_, fun _ => ⟨hsums, hpartials⟩⟩
    · subst hnil
      rw [List.length_nil, Nat.max_zero] at hsums
      rw [List.length_nil, ceilDiv_zero (h.same ▸ e.scanGrain_pos), Nat.max_zero] at hpartials
      exact ⟨⟨hsums, hpartials⟩, hcalm⟩
    · rw [hcalm]
      rw [hbytes, hlimit] at hle
      simpa using hle
  | unbacked hno hf hsums hpartials =>
    have hgrown : e.scratch.sums ≤ s'.sums := by
      rcases hsums with hsums | ⟨-, hsums⟩ <;> rw [hsums]
      exact Nat.le_max_right ..
    refine .of_scanned hs hn hgrown (Nat.le_of_eq hpartials.symm) (fun hnil => ?_)
      fun hb => absurd (hgrants hb) hno
    subst hnil
    exact absurd hnone hno
  | past hlt hf hsums hpartials =>
    have hrefused := hrefused.2 ⟨_, rfl, hf⟩
    rw [hlimit] at hlt
    refine .of_scanned hs hn hsums (Nat.le_of_eq hpartials.symm) (fun hnil => ?_)
      fun _ => ⟨⟨fun _ => hbytes ▸ hlt, fun _ => hrefused⟩, fun hcalm => ?_⟩
    · subst hnil
      exact absurd hzero (Nat.not_le_of_lt hlt)
    · rw [hrefused] at hcalm
      cases hcalm

theorem Keeps.moves (h : e.Keeps settings) (call : Call α) :
    Moves settings e.host e.scratch call (e.answer call).1 (e.answer call).2.scratch := by
  have hcall := answer_scansOnce call
  cases hs : call.scanned with
  | none =>
    have hsnd : (e.answer call).2 = e := hcall.snd_of_none hs e
    rw [hsnd]
    refine .of_idle (fun ls hl => ?_) ⟨rfl, rfl⟩ (answer_calm fun _ _ hr => ?_)
    · obtain ⟨⟨_, hr⟩, -⟩ := hl
      rw [hs] at hr
      cases hr
    · rw [hs] at hr
      cases hr
  | some request =>
    obtain ⟨ls, mode⟩ := request
    have hsnd : (e.answer call).2 = (e.scan ls mode).2 := hcall.snd_of_some hs e
    rw [hsnd]
    by_cases hn : Nonneg ls
    · exact h.moves_of_scanned hs hn
    · obtain ⟨hcalm, hsame⟩ := scan_of_negative hn e mode
      refine .of_idle (fun ls' hl => ?_) hsame (answer_calm fun ls' mode' hr => ?_)
      · exact hn ((reaches_iff hs).1 hl).2.2
      · rw [hs] at hr
        cases hr
        exact hcalm

/-- The bytes charged are those of both buffers; with what may still be charged they make up
the limit. -/
structure Balanced (settings : Settings) (e : Engine) : Prop where
  used : e.scratchBytes = 4 * e.scratch.sums + 8 * e.scratch.partials
  within : e.scratchBytes ≤ settings.scratchBytes
  available : e.scratchBytes + e.scratchAvailable = settings.scratchBytes

theorem Keeps.balanced (h : e.Keeps settings) : e.Balanced settings := by
  have hused := h.accounts.used
  have hwithin := h.accounts.within
  rw [h.limit] at hwithin
  refine ⟨hused, hwithin, ?_⟩
  unfold scratchBytes scratchAvailable Scratch.available
  rw [h.limit]
  exact Nat.add_sub_cancel' hwithin

/-- In any session the scratch is charged for what its buffers hold, within the limit, and
every call moves the capacities as its scan asks for. -/
theorem scratch_of_session {host : Host} (h : new settings host = .ok e) :
    (e.scratch.sums = 0 ∧ e.scratch.partials = 0) ∧
    ∀ calls : List AnyCall, (e.after calls).Balanced settings ∧
      ∀ next : AnyCall, Moves settings next.host (e.after calls).scratch next.call
        (((e.after calls).on next.host).answer next.call).1
        (((e.after calls).on next.host).answer next.call).2.scratch := by
  obtain ⟨hkeeps, hzero⟩ := keeps_of_new h
  refine ⟨hzero, fun calls => ?_⟩
  have hafter := hkeeps.after calls
  exact ⟨hafter.balanced, fun next => (hafter.on next.host).moves next.call⟩

/-- Two lengths take 16 of 30 bytes, and six would take 32. -/
theorem scratch_of_session_thirty_bytes :
    ∃ e, new { scratchLimit := some 30 } .sequential = .ok e ∧
      (e.after [⟨.sequential, (.scan [1, 2] .inclusive : Call UInt8)⟩]).scratchBytes = 16 ∧
      ((e.after [⟨.sequential, (.scan [1, 2] .inclusive : Call UInt8)⟩]).answer
        (.scan [1, 2, 3, 4, 5, 6] .inclusive : Call UInt8)).1.scratchRefused = true := by
  have h : new { scratchLimit := some 30 } .sequential =
      .ok ⟨{ scratchLimit := some 30 }, rfl, { limit := 30 }, .sequential⟩ := by rfl
  obtain ⟨-, hsession⟩ := scratch_of_session h
  obtain ⟨hbalanced, hmoves⟩ :=
    hsession [⟨.sequential, (.scan [1, 2] .inclusive : Call UInt8)⟩]
  have hmoves := hmoves ⟨.sequential, (.scan [1, 2, 3, 4, 5, 6] .inclusive : Call UInt8)⟩
  have hrefused := hmoves.refused [1, 2, 3, 4, 5, 6]
    ⟨⟨.inclusive, rfl⟩, by decide, check_eq_ok.1 rfl⟩
    ⟨⟨by decide, .inr rfl⟩, ⟨by decide, .inr rfl⟩⟩
  exact ⟨_, h, hbalanced.used.trans rfl, hrefused.2 (by decide)⟩

end Engine

end Ragged
