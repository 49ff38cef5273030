/-!
# Fixed places

Quotients rounded to the nearest, a tie going to the even neighbour: as integers, as
binary numbers of a given precision, and as decimal text with a fixed number of places.
-/

namespace Ragged.Decimal

/-- `n / d` rounded to the nearest integer, a tie to the even one. -/
def roundDiv (n d : Nat) : Nat :=
  let q := n / d
  let r := n % d
  if 2 * r < d then q
  else if d < 2 * r then q + 1
  else q + q % 2

/-- The nearest number of `precision` binary digits, a tie to the even one. -/
def roundBinary (precision n : Nat) : Nat :=
  let unit := Nat.pow 2 (n.log2 + 1 - precision)
  roundDiv n unit * unit

def padDigits (width n : Nat) : String :=
  let digits := toString n
  String.ofList (List.replicate (width - digits.length) '0') ++ digits

/-- `n / d` with `places` digits after the point. -/
def fixed (places n d : Nat) : String :=
  let unit := Nat.pow 10 places
  let q := roundDiv (n * unit) d
  toString (q / unit) ++ "." ++ padDigits places (q % unit)

/-- The result is within half a unit. -/
theorem roundDiv_near {n d : Nat} (hd : 0 < d) :
    2 * n ≤ 2 * (roundDiv n d * d) + d ∧ 2 * (roundDiv n d * d) ≤ 2 * n + d := by
  have h := Nat.div_add_mod n d
  have hm := Nat.mod_lt n hd
  rw [Nat.mul_comm] at h
  unfold roundDiv
  simp only
  split
  · omega
  · split
    · rw [Nat.add_mul]; omega
    · rcases Nat.mod_two_eq_zero_or_one (n / d) with h2 | h2
      · rw [h2, Nat.add_zero]; omega
      · rw [h2, Nat.add_mul]; omega

theorem roundDiv_tie {n d : Nat} (h : 2 * (n % d) = d) : roundDiv n d % 2 = 0 := by
  unfold roundDiv
  simp only
  rw [if_neg (by omega), if_neg (by omega)]
  omega

end Ragged.Decimal
