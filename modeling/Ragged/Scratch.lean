import Ragged.Host

/-!
# Scratch memory

A scan keeps two buffers from call to call, one of 4-byte sums and one of 8-byte chunk
totals. They grow to the largest batch seen and never shrink. Growth is charged against
a limit, and only the growth; a refused charge changes nothing. A buffer that may grow is
emptied and asks for its memory, of which it gets exactly as much; when it gets none, the
charge is given back. What a scan has written stays in the buffers until the next one
writes over it or a buffer is emptied.
-/

namespace Ragged

structure Scratch where
  /-- Entries the buffer of sums can hold. -/
  sums : Nat := 0
  /-- Entries the buffer of chunk totals can hold. -/
  partials : Nat := 0
  /-- Bytes charged so far. -/
  used : Nat := 0
  /-- Bytes that may be charged in all. -/
  limit : Nat
  /-- What the buffer of sums holds. -/
  heldSums : List Int32 := []
  /-- What the buffer of chunk totals holds. -/
  heldPartials : List Int64 := []
  deriving DecidableEq

/-- The buffers of a scratch. -/
inductive Kept where
  | sums
  | partials

namespace Scratch

abbrev sumBytes : Nat := 4

abbrev partialBytes : Nat := 8

end Scratch

namespace Kept

def entryBytes : Kept → Nat
  | sums => Scratch.sumBytes
  | partials => Scratch.partialBytes

def need : Kept → Need
  | sums => .scanSums
  | partials => .scanTotals

end Kept

namespace Scratch

def available (s : Scratch) : Nat := s.limit - s.used

def charge (s : Scratch) (bytes : Nat) : Except Fault Scratch :=
  if s.used + bytes ≤ s.limit then .ok { s with used := s.used + bytes }
  else .error (.scratchLimit bytes s.used s.limit)

def capacity (s : Scratch) : Kept → Nat
  | .sums => s.sums
  | .partials => s.partials

def clear (s : Scratch) : Kept → Scratch
  | .sums => { s with heldSums := [] }
  | .partials => { s with heldPartials := [] }

/-- The scratch with a buffer that can hold `n` entries and holds none. -/
def resize (s : Scratch) (n : Nat) : Kept → Scratch
  | .sums => { s with sums := n, heldSums := [] }
  | .partials => { s with partials := n, heldPartials := [] }

/-- Room for `n` entries in a buffer. -/
def grow (s : Scratch) (h : Host) (buffer : Kept) (n : Nat) : Except Fault Unit × Scratch :=
  if n ≤ s.capacity buffer then (.ok (), s)
  else
    match s.charge (buffer.entryBytes * (n - s.capacity buffer)) with
    | .error f => (.error f, s)
    | .ok charged =>
      match h.memory buffer.need (buffer.entryBytes * n) with
      | .error f => (.error f, s.clear buffer)
      | .ok () => (.ok (), charged.resize n buffer)

/-- Room for `n` sums and then for `m` chunk totals. When only the second is refused, the
first has already grown. -/
def reserve (s : Scratch) (h : Host) (n m : Nat) : Except Fault Unit × Scratch :=
  match s.grow h .sums n with
  | (.error f, s) => (.error f, s)
  | (.ok (), s) => s.grow h .partials m

end Scratch

end Ragged
