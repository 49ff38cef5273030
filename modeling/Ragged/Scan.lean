import Ragged.Chunk
import Ragged.Lengths
import Ragged.Scratch

/-!
# Running sums of lengths

The lengths are cut into chunks. Every chunk is totalled, the totals are summed up one
after the other to a base for each chunk, and every chunk is then summed up from its
base. All of this is done in 64 bits, where sums wrap; a total that no length can hold is
refused before any sum is narrowed. Totals, bases and sums are all written to the scratch
and read from there.
-/

namespace Ragged

inductive ScanMode where
  /-- Entry `i` sums the lengths up to and with `i`. -/
  | inclusive
  /-- Entry `i` sums the lengths before `i`. -/
  | exclusive
  deriving DecidableEq

namespace Scan

/-- Running sums from `acc`, one after the other. -/
def runningSums {β : Type} [Add β] (mode : ScanMode) (acc : β) : List β → List β
  | [] => []
  | x :: xs =>
    (match mode with
      | .inclusive => acc + x
      | .exclusive => acc) :: runningSums mode (acc + x) xs

def parts (grain : Nat) (ls : List Int32) : List (List Int64) :=
  chunks grain (ls.map Int32.toInt64)

def writeTotals (grain : Nat) (ls : List Int32) (s : Scratch) : Scratch :=
  { s with heldPartials := (parts grain ls).map Lengths.sum }

/-- Sums the chunk totals up, each to the base of its chunk. -/
def writeBases (s : Scratch) : Scratch :=
  { s with heldPartials := runningSums .exclusive 0 s.heldPartials }

def writeSums (mode : ScanMode) (grain : Nat) (ls : List Int32) (s : Scratch) : Scratch :=
  let sums := (List.zipWith (runningSums mode) s.heldPartials (parts grain ls)).flatten
  { s with heldSums := sums.map Int64.toInt32 }

/-- Scans lengths in the given scratch. A negative length is refused first, and the scratch
grows before the total is looked at. -/
def run (h : Host) (mode : ScanMode) (grain : Nat) (ls : List Int32) (s : Scratch) :
    Except Fault (List Int32) × Scratch :=
  match Lengths.check ls with
  | .error f => (.error f, s)
  | .ok () =>
    if ls = [] then
      let s := { s with heldSums := [] }
      (.ok s.heldSums, s)
    else
      match s.reserve h ls.length (ceilDiv ls.length grain) with
      | (.error f, s) => (.error f, s)
      | (.ok (), s) =>
        let s := writeTotals grain ls s
        let total := Lengths.sum s.heldPartials
        let s := writeBases s
        if maxLength < total.toInt then (.error (.lengthsOverflow total.toInt), s)
        else
          let s := writeSums mode grain ls s
          (.ok s.heldSums, s)

end Scan

end Ragged
