import Ragged.Fault
import Ragged.Word

/-!
# Settings

How many workers an engine has, how much work one task takes, and how much memory the
scan scratch may hold.
-/

namespace Ragged

structure Settings where
  /-- Workers; one for each core when not set. -/
  threads : Option Nat := none
  /-- Segments that one task takes. -/
  segmentGrain : Nat := 1
  /-- Elements that one task takes. -/
  elementGrain : Nat := 4096
  /-- Lengths in one chunk of a scan. -/
  scanGrain : Nat := 8192
  /-- Bytes of scan scratch. -/
  scratchLimit : Option Nat := none
  deriving DecidableEq

namespace Settings

def checkGrain (setting : GrainSetting) (grain : Nat) : Except Fault Unit :=
  if grain = 0 then .error (.zeroGrain setting) else .ok ()

/-- There is at least one worker, and no task is empty. -/
def check (s : Settings) : Except Fault Unit :=
  if s.threads = some 0 then .error .noThreads
  else do
    checkGrain .segment s.segmentGrain
    checkGrain .element s.elementGrain
    checkGrain .scan s.scanGrain

/-- Bytes the scratch may hold, when no limit is set as many as can be counted. -/
def scratchBytes (s : Settings) : Nat := s.scratchLimit.getD maxWord

theorem check_eq_ok {s : Settings} :
    s.check = .ok () ↔
      s.threads ≠ some 0 ∧ 0 < s.segmentGrain ∧ 0 < s.elementGrain ∧ 0 < s.scanGrain := by
  unfold check checkGrain
  by_cases ht : s.threads = some 0
  · simp [ht]
  · by_cases h1 : s.segmentGrain = 0
    · simp [ht, h1, bind, Except.bind]
    · by_cases h2 : s.elementGrain = 0
      · simp [ht, h1, h2, bind, Except.bind]
      · by_cases h3 : s.scanGrain = 0
        · simp [ht, h1, h2, h3, bind, Except.bind]
        · simp [ht, h1, h2, h3, bind, Except.bind]
          omega

end Settings

end Ragged
