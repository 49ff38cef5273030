import Ragged.Proofs.Room
import Ragged.Proofs.Session.Accounts

/-!
# Running sums after a session

Without a scratch limit the lengths alone decide what a scan comes to: chunks, and what earlier
calls have left in the scratch, do not show. As long as the total fits in 64 bits with a sign,
a scan comes to what summing up the lengths one by one does: the sums are there when no length
is negative and the total is a length itself, and none of them is cut off; otherwise the first
negative length is named, and only without one the total. A total that does not fit has wrapped
when it is looked at.
-/

namespace Ragged

open Lengths

namespace Scan

variable {mode : ScanMode} {ls sums : List Int32}

/-- A scan has come to what summing up the lengths one by one does. -/
structure Faithful (mode : ScanMode) (ls : List Int32) (scanned : Except Fault (List Int32)) :
    Prop where
  accepted : (∃ sums, scanned = .ok sums) ↔ Nonneg ls ∧ fullTotal ls ≤ maxLength
  sums : ∀ sums, scanned = .ok sums →
    sums.length = ls.length ∧
      ∀ i (hi : i < sums.length), sums[i].toInt = fullTotal (ls.take (mode.summed i))
  /-- The first negative length is named, whatever the others sum to. -/
  negative : ¬ Nonneg ls → ∃ before l after, ls = before ++ l :: after ∧ Nonneg before ∧
    l.toInt < 0 ∧ scanned = .error (.negativeLength before.length l.toInt)
  overflow : Nonneg ls → maxLength < fullTotal ls →
    scanned = .error (.lengthsOverflow (fullTotal ls))

theorem faithful_of_negative (hneg : ¬ Nonneg ls) :
    Faithful mode ls (check ls >>= fun _ => outcome mode ls) := by
  obtain ⟨before, l, after, rfl, hbefore, hlast⟩ := exists_append_of_not_forall hneg
  have hl := Int.not_le.1 hlast
  rw [check_append hbefore hl]
  exact ⟨iff_of_false (fun ⟨_, hsums⟩ => nomatch hsums) fun h => hneg h.1,
    fun _ hsums => (nomatch hsums), fun _ => ⟨before, l, after, rfl, hbefore, hl, rfl⟩,
    fun hn => absurd hn hneg⟩

theorem faithful_of_fits (hn : Nonneg ls) (hfits : fullTotal ls < 0x8000000000000000) :
    Faithful mode ls (outcome mode ls) := by
  have htotal : (total ls).toInt = fullTotal ls := by
    rw [fullTotal_eq hn] at hfits ⊢
    exact toInt_total hn (Int.ofNat_lt.1 hfits)
  unfold outcome
  rw [htotal]
  split
  · rename_i hmax
    exact ⟨iff_of_false (fun ⟨_, hsums⟩ => nomatch hsums) fun h => absurd h.2 (Int.not_le.2 hmax),
      fun _ hsums => (nomatch hsums), fun hneg => absurd hn hneg, fun _ _ => rfl⟩
  · rename_i hmax
    have hmax := Int.not_lt.1 hmax
    refine ⟨iff_of_true ⟨_, rfl⟩ ⟨hn, hmax⟩, fun _ hsums => ?_, fun hneg => absurd hn hneg,
      fun _ hlt => absurd hmax (Int.not_le.2 hlt)⟩
    cases hsums
    exact ⟨length_serial mode ls, toInt_getElem_serial hn hmax⟩

/-- The number of a total in 64 bits is never one that does not fit in them. -/
theorem fits_of_faithful (hn : Nonneg ls) (h : Faithful mode ls (outcome mode ls)) :
    fullTotal ls < 0x8000000000000000 := by
  have hwrapped := (total ls).toInt_lt
  by_contra hlarge
  have hlarge := Int.not_lt.1 hlarge
  have hmax : (maxLength : Int) < fullTotal ls := Int.lt_of_lt_of_le (by decide) hlarge
  have herror := h.overflow hn hmax
  unfold outcome at herror
  split at herror
  · have hsame : (total ls).toInt = fullTotal ls :=
      Fault.lengthsOverflow.inj (Except.error.inj herror)
    omega
  · cases herror

end Scan

namespace Engine

open Scan

variable {e : Engine} {settings : Settings} {ls : List Int32} {mode : ScanMode}

theorem scan_of_outcome {r : Except Fault (List Int32)} (h : e.HasRoom ls.length)
    (hn : Nonneg ls) (hr : outcome mode ls = r) : (e.scan ls mode).1 = r := by
  rw [scan_of_room h, check_eq_ok.2 hn]
  exact hr

/-- Without a scratch limit and after any session, a scan comes to what summing up the lengths one
by one does, exactly when the total of lengths that are not negative fits in 64 bits with a
sign. -/
theorem scan_after_session {host host' : Host} (h : new settings host = .ok e)
    (hunset : settings.scratchLimit = none) (calls : List AnyCall) (mode : ScanMode)
    (hg : ((e.after calls).on host').Grants ls.length) :
    Faithful mode ls (((e.after calls).on host').scan ls mode).1 ↔
      (Nonneg ls → fullTotal ls < 0x8000000000000000) := by
  have hkeeps := ((keeps_of_new h).1.after calls).on host'
  rw [scan_of_room ((hkeeps.unlimited hunset).hasRoom hg)]
  by_cases hn : Nonneg ls
  · rw [check_eq_ok.2 hn]
    exact ⟨fun hfaithful _ => fits_of_faithful hn hfaithful,
      fun hfits => faithful_of_fits hn (hfits hn)⟩
  · exact iff_of_true (faithful_of_negative hn) fun h => absurd h hn

theorem scan_after_session_three_lengths :
    ∃ e, new { scanGrain := 2 } .sequential = .ok e ∧
      let m := e.after [⟨.sequential, (.scan [1, 1, 1, 1, 1] .inclusive : Call UInt8)⟩]
      (m.scan [3, 0, 4] .exclusive).1 = .ok [0, 3, 3] ∧
        (m.scan [3, -1, 4] .exclusive).1 = .error (.negativeLength 1 (-1)) ∧
        ∀ i (hi : i < ([0, 3, 3] : List Int32).length),
          ([0, 3, 3] : List Int32)[i].toInt = fullTotal (([3, 0, 4] : List Int32).take i) := by
  have h : new { scanGrain := 2 } .sequential =
      .ok ⟨{ scanGrain := 2 }, rfl, { limit := Settings.scratchBytes {} }, .sequential⟩ := by rfl
  have hg : ((after ⟨{ scanGrain := 2 }, rfl, { limit := Settings.scratchBytes {} }, .sequential⟩
      [⟨.sequential, (.scan [1, 1, 1, 1, 1] .inclusive : Call UInt8)⟩]).on .sequential).Grants
        ([3, 0, 4] : List Int32).length := granting_sequential.grants (by decide)
  have hfaithful := (scan_after_session h rfl
    [⟨.sequential, (.scan [1, 1, 1, 1, 1] .inclusive : Call UInt8)⟩] .exclusive hg).2
      fun _ => by decide
  exact ⟨_, h, by rfl, by rfl, (hfaithful.sums [0, 3, 3] rfl).2⟩

/-- A total one length too large for 64 bits wraps to a negative number and is let through, and
what comes back are sums that no longer fit a length. -/
theorem scan_truncates :
    fullTotal uncountable = 9223372039002259453 ∧
      (∃ sums, (standard.scan uncountable .inclusive).1 = .ok (2147483647 :: -2 :: sums)) ∧
      ∃ sums, (standard.scan uncountable .exclusive).1 = .ok (0 :: 2147483647 :: sums) := by
  have hscan := fun mode =>
    scan_of_outcome hasRoom_uncountable nonneg_uncountable (outcome_uncountable mode)
  have hinclusive := hscan .inclusive
  have hexclusive := hscan .exclusive
  obtain ⟨⟨ends, hends⟩, starts, hstarts⟩ := serial_uncountable
  rw [hends] at hinclusive
  rw [hstarts] at hexclusive
  exact ⟨fullTotal_uncountable, ⟨ends, hinclusive⟩, starts, hexclusive⟩

end Engine

end Ragged
