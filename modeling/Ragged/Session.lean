import Ragged.Engine

/-!
# Sessions

A session is a list of calls that one engine answers in order, each on a host of its own.
Every call has an answer, refused or not, and the engine goes on.
-/

namespace Ragged

inductive Call (α : Type) where
  | scan (lengths : List Int32) (mode : ScanMode)
  | plan (lengths : Option (List Int32)) (mode : ScanMode) (planner : Planner) (outer : Nat)
  | planAdd (shape : Shape) (lengths : Option (List Int32)) (padding : Padding α)
  | planRemove (shape : Shape) (lengths : Option (List Int32)) (widths : Widths)
  | planGather (shape : Shape) (lengths : Option (List Int32)) (widths : Widths)
  | add (input : Batch α) (lengths : Option (List Int32)) (padding : Padding α)
  | remove (input : Batch α) (lengths : Option (List Int32)) (widths : Widths)
  | gather (input : Batch α) (lengths : Option (List Int32)) (widths : Widths)
      (mode : GatherMode)
  | addInto (input : Batch α) (lengths : Option (List Int32)) (padding : Padding α)
      (buffers : Buffers α)
  | removeInto (input : Batch α) (lengths : Option (List Int32)) (widths : Widths)
      (buffers : Buffers α)
  | gatherInto (input : Batch α) (lengths : Option (List Int32)) (widths : Widths)
      (target : Gathered α)
  | launchAdd (table : Table) (padding : Padding α) (input : List α) (buffers : Buffers α)
  | launchRemove (table : Table) (input : List α) (buffers : Buffers α)
  | launchGather (table : Table) (input : List α) (target : Gathered α)

/-- A call on batches of elements of some type, and the host it runs on. A session need not
keep to one type. -/
structure AnyCall where
  {α : Type}
  [element : Element α]
  host : Host
  call : Call α

attribute [instance] AnyCall.element

/-- What a call comes back with. Calls on the caller's buffers also show these after the
call, unless the run has stopped in it: what has been written by then is not told. -/
inductive Answer (α : Type) where
  | sums (result : Except Fault (List Int32))
  | table (result : Except Fault Table)
  | segmented (result : Except Fault (Segmented α))
  | gathered (result : Except Fault (Gathered α))
  | rewrote (result : Except Fault Unit) (buffers : Buffers α)
  | summed (result : Except Fault Unit) (target : Gathered α)
  | aborted

namespace Answer

variable {α : Type}

def fault? : Answer α → Option Fault
  | sums (.error f) | table (.error f) | segmented (.error f) | gathered (.error f)
  | rewrote (.error f) _ | summed (.error f) _ => some f
  | aborted => some .outOfRange
  | _ => none

def ofRewrite : Except Fault Unit × Buffers α → Answer α
  | (.error .outOfRange, _) => aborted
  | (result, buffers) => rewrote result buffers

def ofGather : Except Fault Unit × Gathered α → Answer α
  | (.error .outOfRange, _) => aborted
  | (result, target) => summed result target

end Answer

namespace Engine

variable {α : Type} [Element α]

/-- Answers one call. -/
def answer (e : Engine) : Call α → Answer α × Engine
  | .scan lengths mode =>
    let (r, e) := e.scan lengths mode
    (.sums r, e)
  | .plan lengths mode planner outer =>
    let (r, e) := e.plan lengths mode planner outer
    (.table r, e)
  | .planAdd shape lengths padding =>
    let (r, e) := e.planAdd shape lengths padding
    (.table r, e)
  | .planRemove shape lengths widths =>
    let (r, e) := e.planRemove shape lengths widths
    (.table r, e)
  | .planGather shape lengths widths =>
    let (r, e) := e.planGather shape lengths widths
    (.table r, e)
  | .add input lengths padding =>
    let (r, e) := e.add input lengths padding
    (.segmented r, e)
  | .remove input lengths widths =>
    let (r, e) := e.remove input lengths widths
    (.segmented r, e)
  | .gather input lengths widths mode =>
    let (r, e) := e.gather input lengths widths mode
    (.gathered r, e)
  | .addInto input lengths padding buffers =>
    let (r, e) := e.addInto input lengths padding buffers
    (.ofRewrite r, e)
  | .removeInto input lengths widths buffers =>
    let (r, e) := e.removeInto input lengths widths buffers
    (.ofRewrite r, e)
  | .gatherInto input lengths widths target =>
    let (r, e) := e.gatherInto input lengths widths target
    (.ofGather r, e)
  | .launchAdd table padding input buffers =>
    (.ofRewrite (e.launchAdd table padding input buffers), e)
  | .launchRemove table input buffers =>
    (.ofRewrite (e.launchRemove table input buffers), e)
  | .launchGather table input target =>
    (.ofGather (e.launchGather table input target), e)

/-- The engine that a session leaves. -/
def after (e : Engine) : List AnyCall → Engine
  | [] => e
  | c :: calls => ((e.on c.host).answer c.call).2.after calls

end Engine

end Ragged
