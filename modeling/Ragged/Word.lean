/-!
# Machine counts

Counts are natural numbers. A count is held in 64 bits and a segment length in 32,
so the operations that can leave those ranges say what they do there: `mul?` refuses,
`satAdd` and `satMul` stop at the largest count, and `wrapProduct` and `ofInt` keep the
low 64 bits. Plain arithmetic is that of an optimised build throughout: it wraps, and
nothing stops for it.
-/

namespace Ragged

/-- How many different 64-bit counts there are. -/
abbrev wordCount : Nat := 0x10000000000000000

/-- The largest 64-bit count. -/
abbrev maxWord : Nat := 0xffffffffffffffff

/-- The largest length a segment can have. -/
abbrev maxLength : Nat := 0x7fffffff

namespace Word

/-- Product, refused when it does not fit. -/
def mul? (a b : Nat) : Option Nat :=
  if a * b < wordCount then some (a * b) else none

def satAdd (a b : Nat) : Nat := min (a + b) maxWord

def satMul (a b : Nat) : Nat := min (a * b) maxWord

/-- The count with the low 64 bits of a signed number. -/
def ofInt (z : Int) : Nat := (z % wordCount).toNat

/-- Left-to-right product from `acc`, refused at the first step that does not fit. -/
def productFrom? (acc : Nat) : List Nat → Option Nat
  | [] => some acc
  | d :: ds => (mul? acc d).bind fun acc => productFrom? acc ds

def product? (ds : List Nat) : Option Nat := productFrom? 1 ds

/-- Left-to-right product that keeps the low 64 bits at every step. -/
def wrapProduct (ds : List Nat) : Nat :=
  ds.foldl (fun acc d => acc * d % wordCount) 1

theorem mul?_eq_some {a b c : Nat} : mul? a b = some c ↔ a * b < wordCount ∧ a * b = c := by
  unfold mul?
  split <;> rename_i h <;> simp [h]

theorem ofInt_natCast {n : Nat} (h : n < wordCount) : ofInt n = n := by
  unfold ofInt wordCount at *
  omega

theorem satAdd_eq {a b : Nat} (h : a + b ≤ maxWord) : satAdd a b = a + b :=
  Nat.min_eq_left h

theorem satMul_eq {a b : Nat} (h : a * b ≤ maxWord) : satMul a b = a * b :=
  Nat.min_eq_left h

end Word

end Ragged
