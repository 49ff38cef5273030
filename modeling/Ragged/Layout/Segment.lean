/-!
# Segments and tasks

Where one segment lies, in blocks, and how a list of segments is cut into tasks. Tasks
come to partial results, which are put together two by two.
-/

namespace Ragged

structure Segment where
  inStart : Nat
  outStart : Nat
  len : Nat
  deriving DecidableEq

/-- How segments are cut into tasks and the results of tasks are put together. -/
inductive Cut where
  | task (segments : List Segment)
  | join (left right : Cut)

namespace Cut

def segments : Cut → List Segment
  | .task segs => segs
  | .join left right => left.segments ++ right.segments

/-- Segments are only divided so that there are some on either side. -/
def Divides : Cut → Prop
  | .task _ => True
  | .join left right =>
    left.segments ≠ [] ∧ right.segments ≠ [] ∧ left.Divides ∧ right.Divides

theorem eq_task_of_single {c : Cut} {seg : Segment} (h : c.Divides) (hs : c.segments = [seg]) :
    c = .task [seg] := by
  cases c with
  | task segs => exact congrArg task hs
  | join left right =>
    obtain ⟨hl, hr, -, -⟩ := h
    have hlen : left.segments.length + right.segments.length = 1 := by
      rw [← List.length_append]
      exact congrArg List.length hs
    have := List.length_pos_iff.2 hl
    have := List.length_pos_iff.2 hr
    omega

end Cut

end Ragged
