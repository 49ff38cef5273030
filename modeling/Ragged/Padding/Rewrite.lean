import Ragged.Buffer
import Ragged.Layout.Table
import Ragged.Region

/-!
# Rewriting a batch

Adding and removing padding both write the output region by region and then the new
lengths. A launch is a program on the buffers it is given: what it has written stays
written when a later step is refused or stops.
-/

namespace Ragged

/-- A program that writes to buffers `σ` and may stop at any step. -/
abbrev Launch (σ : Type) := ExceptT Fault (StateM σ)

namespace Launch

variable {σ β γ : Type}

/-- What a launch comes to, and the buffers after it. -/
def on (l : Launch σ β) (s : σ) : Except Fault β × σ := (l.run.run s).run

@[simp] theorem on_pure (b : β) (s : σ) : (pure b : Launch σ β).on s = (.ok b, s) := rfl

@[simp] theorem on_get (s : σ) : (get : Launch σ σ).on s = (.ok s, s) := rfl

@[simp] theorem on_modify (f : σ → σ) (s : σ) :
    (modify f : Launch σ Unit).on s = (.ok (), f s) := rfl

/-- A step that looks at nothing but its arguments writes nothing. -/
@[simp] theorem on_liftExcept (x : Except Fault β) (s : σ) :
    (liftExcept x : Launch σ β).on s = (x, s) := by
  cases x <;> rfl

theorem on_bind (l : Launch σ β) (k : β → Launch σ γ) (s : σ) :
    (l >>= k).on s =
      match l.on s with
      | (.ok b, s) => (k b).on s
      | (.error f, s) => (.error f, s) := by
  unfold on
  rw [ExceptT.run_bind, StateT.run_bind, Id.run_bind]
  obtain ⟨r, s⟩ := (l.run.run s).run
  cases r <;> rfl

end Launch

/-- What a caller hands over to be written. -/
structure Buffers (α : Type) where
  out : List α
  /-- One entry per segment, when the caller asks for the lengths. -/
  lengths : Option (List Int32)
  deriving DecidableEq

namespace Buffers

variable {α : Type}

def checkInput (t : Table) (held : Nat) : Except Fault Unit :=
  if held = t.inElements then .ok () else .error (.inputSize held t.inElements)

def checkOut (t : Table) (held : Nat) : Except Fault Unit :=
  if held = t.outElements then .ok () else .error (.outputSize held t.outElements)

def checkLengths (t : Table) : Option (List Int32) → Except Fault Unit
  | none => .ok ()
  | some ls =>
    if ls.length = t.numSegments then .ok ()
    else .error (.lengthsOutputSize ls.length t.numSegments)

def check (t : Table) (input : List α) (b : Buffers α) : Except Fault Unit := do
  checkInput t input.length
  checkOut t b.out.length
  checkLengths t b.lengths

/-- The new lengths, when they are asked for. -/
def newLengths (t : Table) (h : Host) : Option (List Int32) → Except Fault (Option (List Int32))
  | none => .ok none
  | some _ => (t.newLengths h).map some

/-- Has the regions of a carving written, and the output with them. -/
def writeRegions {β : Type} (write : β → List α → Except Fault (List α)) (owners : List β)
    (c : Carving α) : Launch (Buffers α) Unit := do
  let (result, c) := c.rewrite write owners
  modify fun b => { b with out := c.join }
  liftExcept result

/-- Checks the sizes, works out the new lengths, carves the output, writes its regions and
then the lengths. -/
def rewrite (t : Table) (h : Host) (write : Segment → List α → Except Fault (List α))
    (input : List α) : Launch (Buffers α) Unit := do
  let b ← get
  liftExcept (b.check t input)
  let lengths ← liftExcept (newLengths t h b.lengths)
  let carving ← liftExcept (Carving.carve h b.out t.outRegions)
  writeRegions write t.segments carving
  modify fun b => { b with lengths }

end Buffers

end Ragged
