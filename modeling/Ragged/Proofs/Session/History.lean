import Ragged.Proofs.Session.Grains

/-!
# An answer does not show what came before

What a session has left in the scratch is only ever seen as room. A scan that fits a new scratch
fits a used one: the limit has held the largest batch of the session with all its chunk totals.
So a call on a used engine is answered as on a new one, except for the bytes that a refusal for
the scratch limit names.
-/

namespace Ragged

open Lengths Scan Scratch

variable {α : Type}

/-- The fault without the bytes asked for and used; the limit is a setting and stays. -/
def Fault.blurred : Fault → Fault
  | .scratchLimit _ _ limit => .scratchLimit 0 0 limit
  | f => f

def Answer.blurred : Answer α → Answer α
  | .sums r => .sums (r.mapError Fault.blurred)
  | .table r => .table (r.mapError Fault.blurred)
  | .segmented r => .segmented (r.mapError Fault.blurred)
  | .gathered r => .gathered (r.mapError Fault.blurred)
  | .rewrote r b => .rewrote (r.mapError Fault.blurred) b
  | .summed r g => .summed (r.mapError Fault.blurred) g
  | .aborted => .aborted

theorem Answer.blurred_refuse (f : Fault) (call : Call α) :
    (call.refuse f).blurred = call.refuse f.blurred := by
  cases call <;> cases f <;> rfl

theorem ceilDiv_mono {a b : Nat} (h : a ≤ b) (k : Nat) : ceilDiv a k ≤ ceilDiv b k :=
  Nat.div_le_div_right (Nat.sub_le_sub_right (Nat.add_le_add_right h k) 1)

namespace Engine

variable {e : Engine} {settings : Settings} {ls : List Int32} {mode : ScanMode}

/-- No call of the session has been refused for the scratch limit. Other refusals count as
answers. -/
def Unrefused (e : Engine) : List AnyCall → Prop
  | [] => True
  | c :: calls =>
    ((e.on c.host).answer c.call).1.scratchRefused = false ∧
      ((e.on c.host).answer c.call).2.Unrefused calls

/-- There are no more chunk totals than a scan of as many lengths as there are sums takes, and
the limit has room for so many. Memory may have failed the totals when the sums had grown. -/
structure Paired (e : Engine) : Prop where
  partials : e.scratch.partials ≤ ceilDiv e.scratch.sums e.settings.scanGrain
  within : bytes e.scratch.sums (ceilDiv e.scratch.sums e.settings.scanGrain) ≤ e.scratch.limit

theorem Paired.same (hp : e.Paired) {s : Scratch} (hl : s.limit = e.scratch.limit)
    (hs : SameCapacities e.scratch s) : ({ e with scratch := s } : Engine).Paired := by
  obtain ⟨hpartials, hwithin⟩ := hp
  refine ⟨?_, ?_⟩ <;> simp only [hs.1, hs.2, hl]
  · exact hpartials
  · exact hwithin

/-- Sums that have grown leave room for their chunk totals, if there was room to grow both. -/
theorem Paired.grown (hp : e.Paired) {s : Scratch} {n : Nat} (hl : s.limit = e.scratch.limit)
    (hle : e.grownBytes n ≤ e.scratch.limit) (hsums : s.sums = max n e.scratch.sums)
    (hpartials : s.partials ≤ max (ceilDiv n e.settings.scanGrain) e.scratch.partials) :
    ({ e with scratch := s } : Engine).Paired := by
  obtain ⟨hchunks, hwithin⟩ := hp
  unfold grownBytes Scratch.grownBytes at hle
  rcases Nat.le_total n e.scratch.sums with hn | hn
  · have hmono := ceilDiv_mono hn e.settings.scanGrain
    rw [Nat.max_eq_right hn] at hsums
    refine ⟨?_, ?_⟩ <;> simp only [hsums, hl]
    · exact Nat.le_trans hpartials (Nat.max_le.2 ⟨hmono, hchunks⟩)
    · exact hwithin
  · have hmono := ceilDiv_mono hn e.settings.scanGrain
    have hmax := Nat.max_eq_left (Nat.le_trans hchunks hmono)
    rw [Nat.max_eq_left hn] at hsums hle
    rw [hmax] at hpartials hle
    refine ⟨?_, ?_⟩ <;> simp only [hsums, hl]
    · exact hpartials
    · exact hle

theorem Paired.scan (hp : e.Paired) (ha : e.scratch.Accounts)
    (hcalm : NotScratch (e.scan ls mode).1) : (e.scan ls mode).2.Paired := by
  obtain ⟨-, hlimit⟩ := scan_accounts ha ls mode
  change ({ e with scratch := (e.scan ls mode).2.scratch } : Engine).Paired
  by_cases hn : Nonneg ls
  · have hscanned := scan_scanned ha hn mode
    generalize (e.scan ls mode).1 = r at hscanned hcalm
    generalize (e.scan ls mode).2.scratch = s at hscanned hlimit
    cases hscanned with
    | within hle hsums hpartials => exact hp.grown hlimit hle hsums (Nat.le_of_eq hpartials)
    | unbacked _ _ hsums hpartials =>
      rcases hsums with hsums | ⟨hle, hsums⟩
      · exact hp.same hlimit ⟨hsums, hpartials⟩
      · exact hp.grown hlimit hle hsums (hpartials ▸ Nat.le_max_right ..)
    | past _ hf =>
      rw [hcalm _ rfl] at hf
      cases hf
  · obtain ⟨-, hsame⟩ := scan_of_negative hn e mode
    exact hp.same hlimit hsame

/-- A call that is not refused for the scratch limit leaves room for the chunk totals. -/
theorem Keeps.paired [Element α] (h : e.Keeps settings) (hp : e.Paired) {call : Call α}
    (hc : (e.answer call).1.scratchRefused = false) : (e.answer call).2.Paired := by
  have hcall := answer_scansOnce call
  cases hs : call.scanned with
  | none =>
    have hsnd : (e.answer call).2 = e := hcall.snd_of_none hs e
    rwa [hsnd]
  | some request =>
    have hsnd : (e.answer call).2 = (e.scan request.1 request.2).2 := hcall.snd_of_some hs e
    rw [hsnd]
    refine hp.scan h.accounts fun f hf => Bool.eq_false_iff.2 fun htrue => ?_
    rw [(scratchRefused_eq hs).2 ⟨f, hf, htrue⟩] at hc
    cases hc

theorem Keeps.paired_after (h : e.Keeps settings) (hp : e.Paired) {calls : List AnyCall}
    (hc : e.Unrefused calls) : (e.after calls).Paired := by
  induction calls generalizing e with
  | nil => exact hp
  | cons c calls ih =>
    have hon : (e.on c.host).Paired := ⟨hp.partials, hp.within⟩
    exact ih ((h.on c.host).answer c.call) ((h.on c.host).paired hon hc.1) hc.2

/-- What fits a new scratch fits a used one, and the other way round. -/
theorem Keeps.grownBytes_le_iff (h : e.Keeps settings) (hp : e.Paired) (n : Nat) :
    e.grownBytes n ≤ settings.scratchBytes ↔
      bytes n (ceilDiv n settings.scanGrain) ≤ settings.scratchBytes := by
  obtain ⟨hpartials, hwithin⟩ := hp
  rw [h.same] at hpartials hwithin
  rw [h.limit] at hwithin
  unfold grownBytes Scratch.grownBytes
  rw [h.same]
  refine ⟨Nat.le_trans (bytes_mono (Nat.le_max_left ..) (Nat.le_max_left ..)), fun hle => ?_⟩
  rcases Nat.le_total n e.scratch.sums with hn | hn
  · have hmono := ceilDiv_mono hn settings.scanGrain
    rw [Nat.max_eq_right hn]
    exact Nat.le_trans (bytes_mono (Nat.le_refl _) (Nat.max_le.2 ⟨hmono, hpartials⟩)) hwithin
  · have hmono := ceilDiv_mono hn settings.scanGrain
    rwa [Nat.max_eq_left hn, Nat.max_eq_left (Nat.le_trans hpartials hmono)]

/-! ## Scans -/

theorem Keeps.scan_of_lt (h : e.Keeps settings) (hn : Nonneg ls) (hg : e.Grants ls.length)
    (hlt : settings.scratchBytes < e.grownBytes ls.length) (mode : ScanMode) :
    ∃ requested used,
      (e.scan ls mode).1 = .error (.scratchLimit requested used settings.scratchBytes) := by
  rw [← h.limit] at hlt ⊢
  obtain ⟨requested, used, hreserve⟩ := reserve_of_lt h.accounts hg hlt
  refine ⟨requested, used, ?_⟩
  rw [scan_fst, check_eq_ok.2 hn, hreserve]

variable {e' : Engine}

/-- Engines that have kept the same settings and have room for their chunk totals scan alike, or
are both refused for the limit. -/
theorem Keeps.scan_blurred (h : e.Keeps settings) (hp : e.Paired) (h' : e'.Keeps settings)
    (hp' : e'.Paired) (hg : Nonneg ls → e.Grants ls.length)
    (hg' : Nonneg ls → e'.Grants ls.length) (mode : ScanMode) :
    (e.scan ls mode).1 = (e'.scan ls mode).1 ∨
      ∃ f f', (e.scan ls mode).1 = .error f ∧ (e'.scan ls mode).1 = .error f' ∧
        f.blurred = f'.blurred := by
  by_cases hn : Nonneg ls
  · have hfits := h.grownBytes_le_iff hp ls.length
    have hfits' := h'.grownBytes_le_iff hp' ls.length
    by_cases hle : bytes ls.length (ceilDiv ls.length settings.scanGrain) ≤ settings.scratchBytes
    · have hroom : e.HasRoom ls.length :=
        congrArg Prod.fst (reserve_of_le h.accounts (hg hn) (h.limit ▸ hfits.2 hle))
      have hroom' : e'.HasRoom ls.length :=
        congrArg Prod.fst (reserve_of_le h'.accounts (hg' hn) (h'.limit ▸ hfits'.2 hle))
      exact .inl (scan_agrees hroom hroom' mode)
    · have hlt := Nat.lt_of_not_le fun hle' => hle (hfits.1 hle')
      have hlt' := Nat.lt_of_not_le fun hle' => hle (hfits'.1 hle')
      obtain ⟨_, _, hscan⟩ := h.scan_of_lt hn (hg hn) hlt mode
      obtain ⟨_, _, hscan'⟩ := h'.scan_of_lt hn (hg' hn) hlt' mode
      exact .inr ⟨_, _, hscan, hscan', rfl⟩
  · exact .inl (scan_negative_agrees hn e e' mode)

/-! ## Answers -/

variable [Element α] {call : Call α}

theorem Keeps.answer_blurred (h : e.Keeps settings) (hp : e.Paired) (h' : e'.Keeps settings)
    (hp' : e'.Paired) (ha : e.host.Alike e'.host)
    (hg : ∀ ls, call.Reaches ls → e.Grants ls.length)
    (hsums : call.gathers = true → e.SumAlike α e') :
    (e.answer call).1.blurred = (e'.answer call).1.blurred := by
  have hg' : ∀ ls, call.Reaches ls → e'.Grants ls.length :=
    fun ls hl => (hg ls hl).congr (h.same.trans h'.same.symm) ha
  cases hs : call.scanned with
  | none =>
    have hscan : ScanAlike call.scanned e e' := fun _ _ hr => by rw [hs] at hr; cases hr
    rw [hscan.answer ha hsums]
  | some request =>
    obtain ⟨ls, mode⟩ := request
    rcases h.scan_blurred hp h' hp' (grants_of_reaches hg hs) (grants_of_reaches hg' hs) mode with
      heq | ⟨f, f', hf, hf', hblurred⟩
    · have hscan : ScanAlike call.scanned e e' := by
        intro ls' mode' hr
        rw [hs] at hr
        cases hr
        exact heq
      rw [hscan.answer ha hsums]
    · have hanswer : (e.answer call).1 = _ := (answer_scansOnce call).fst_of_error hs hf
      have hanswer' : (e'.answer call).1 = _ := (answer_scansOnce call).fst_of_error hs hf'
      rw [hanswer, hanswer', Answer.blurred_refuse, Answer.blurred_refuse, hblurred]

/-- After a session without a refusal for the scratch limit, a call is answered as on a new
engine, up to the bytes that such a refusal names. Both run on hosts that are alike and have the
memory to scan what the call asks for. -/
theorem answer_after_session {host now fresh : Host} (h : new settings host = .ok e)
    {calls : List AnyCall} (hc : e.Unrefused calls) (ha : now.Alike fresh)
    (hg : ∀ ls, call.Reaches ls → (e.on now).Grants ls.length)
    (hsums : call.gathers = true → ((e.after calls).on now).SumAlike α (e.on fresh)) :
    (((e.after calls).on now).answer call).1.blurred = ((e.on fresh).answer call).1.blurred := by
  obtain ⟨hkeeps, hzero, hzero'⟩ := keeps_of_new h
  have hpaired : e.Paired := by
    refine ⟨hzero' ▸ Nat.zero_le _, ?_⟩
    rw [hzero, ceilDiv_zero e.scanGrain_pos]
    exact Nat.zero_le _
  have hafter := hkeeps.after calls
  have hpaired' := hkeeps.paired_after hpaired hc
  refine (hafter.on now).answer_blurred ⟨hpaired'.partials, hpaired'.within⟩ (hkeeps.on fresh)
    ⟨hpaired.partials, hpaired.within⟩ ha (fun ls hl => ?_) hsums
  exact (hg ls hl).congr (hkeeps.same.trans hafter.same.symm) ⟨rfl, rfl⟩

def thirtyBytes : Engine := ⟨{ scratchLimit := some 30 }, rfl, { limit := 30 }, .sequential⟩

def scanFive : AnyCall := ⟨.sequential, (.scan [1, 2, 3, 4, 5] .inclusive : Call UInt8)⟩

/-- Six lengths do not fit 30 bytes, whether or not five have been scanned before. -/
theorem answer_after_session_thirty_bytes :
    new { scratchLimit := some 30 } .sequential = .ok thirtyBytes ∧
      ((thirtyBytes.after [scanFive]).answer
          (.scan [1, 2, 3, 4, 5, 6] .inclusive : Call UInt8)).1.fault? =
        some (.scratchLimit 4 28 30) ∧
      ((thirtyBytes.after [scanFive]).answer
          (.scan [1, 2, 3, 4, 5, 6] .inclusive : Call UInt8)).1.blurred =
        (.sums (.error (.scratchLimit 0 0 30))) := by
  have h : new { scratchLimit := some 30 } .sequential = .ok thirtyBytes := by rfl
  have hc : thirtyBytes.Unrefused [scanFive] := ⟨rfl, trivial⟩
  have hg : ∀ ls, (.scan [1, 2, 3, 4, 5, 6] .inclusive : Call UInt8).Reaches ls →
      (thirtyBytes.on .sequential).Grants ls.length := by
    rintro ls ⟨⟨mode, hscanned⟩, -⟩
    cases hscanned
    exact granting_sequential.grants (by decide)
  have hanswer : (((thirtyBytes.after [scanFive]).on .sequential).answer
      (.scan [1, 2, 3, 4, 5, 6] .inclusive : Call UInt8)).1.blurred =
        ((thirtyBytes.on .sequential).answer _).1.blurred :=
    answer_after_session h hc ⟨rfl, rfl⟩ hg fun hgathers => nomatch hgathers
  exact ⟨h, by rfl, hanswer.trans rfl⟩

end Engine

end Ragged
