import Ragged.Batch
import Ragged.Host
import Ragged.Layout.Planner
import Ragged.Padding.Add
import Ragged.Padding.Gather
import Ragged.Padding.Remove
import Ragged.Scan
import Ragged.Settings

/-!
# Engines

An engine owns the settings and the scan scratch, and serves one call at a time on a
host. A call first plans, which is the only part that touches the scratch, and then
launches on the planned table. Calls come in three forms: planned and launched in one go
with new buffers, the same with the caller's buffers, and the two phases apart.
-/

namespace Ragged

structure Engine where
  settings : Settings
  valid : settings.check = .ok ()
  scratch : Scratch
  /-- What the machine does in the next call. -/
  host : Host

/-- A batch and the lengths of its segments. -/
structure Segmented (α : Type) where
  batch : Batch α
  lengths : List Int32
  deriving DecidableEq

namespace Engine

variable {α : Type}

def new (settings : Settings) (host : Host) : Except Fault Engine :=
  match valid : settings.check with
  | .ok () => .ok { settings, valid, scratch := { limit := settings.scratchBytes }, host }
  | .error f => .error f

/-- The engine as it is, its next call on another host. -/
def on (e : Engine) (host : Host) : Engine := { e with host }

def scratchBytes (e : Engine) : Nat := e.scratch.used

def scratchAvailable (e : Engine) : Nat := e.scratch.available

/-! ## Plans -/

def scan (e : Engine) (lengths : List Int32) (mode : ScanMode) :
    Except Fault (List Int32) × Engine :=
  let (sums, scratch) := Scan.run e.host mode e.settings.scanGrain lengths e.scratch
  (sums, { e with scratch })

/-- The bounds that running sums of lengths describe. -/
def boundsOf (mode : ScanMode) (lengths sums : List Int32) : Bounds :=
  match mode with
  | .inclusive => .inclusive sums
  | .exclusive => .exclusive sums lengths

/-- The table for segments of the given lengths, or for one segment when there are none. -/
def plan (e : Engine) (lengths : Option (List Int32)) (mode : ScanMode) (p : Planner)
    (outer : Nat) : Except Fault Table × Engine :=
  match lengths with
  | none => (p.plan e.host (.whole 1) outer, e)
  | some lengths =>
    match e.scan lengths mode with
    | (.error f, e) => (.error f, e)
    | (.ok sums, e) => (p.plan e.host (boundsOf mode lengths sums) outer, e)

def planAdd (e : Engine) (shape : Shape) (lengths : Option (List Int32)) (p : Padding α) :
    Except Fault Table × Engine :=
  match p.checkFills shape.blockSize with
  | .error f => (.error f, e)
  | .ok () => e.plan lengths .inclusive ⟨.insert, p.widths, shape.blockSize⟩ shape.outer

/-- Lengths of a padded batch in the padded basis; they must not be negative in either. -/
def paddedLengths (h : Host) (lengths : List Int32) (outer : Nat) (w : Widths) :
    Except Fault (List Int32) := do
  Lengths.check lengths
  Lengths.padded h lengths outer w

def planStrip (e : Engine) (mode : ScanMode) (shape : Shape) (lengths : Option (List Int32))
    (w : Widths) : Except Fault Table × Engine :=
  match lengths with
  | none => e.plan none mode ⟨.strip, w, shape.blockSize⟩ shape.outer
  | some lengths =>
    match paddedLengths e.host lengths shape.outer w with
    | .error f => (.error f, e)
    | .ok lengths => e.plan (some lengths) mode ⟨.strip, w, shape.blockSize⟩ shape.outer

def planRemove (e : Engine) : Shape → Option (List Int32) → Widths → Except Fault Table × Engine :=
  e.planStrip .inclusive

def planGather (e : Engine) : Shape → Option (List Int32) → Widths → Except Fault Table × Engine :=
  e.planStrip .exclusive

/-! ## Launches -/

section Launch

variable [Element α]

def launchAdd (e : Engine) (t : Table) (p : Padding α) (input : List α) (b : Buffers α) :
    Except Fault Unit × Buffers α :=
  (p.launchAdd t e.host e.settings.elementGrain input).on b

def launchRemove (e : Engine) (t : Table) (input : List α) (b : Buffers α) :
    Except Fault Unit × Buffers α :=
  (Padding.launchRemove t e.host e.settings.elementGrain input).on b

def launchGather (e : Engine) (t : Table) (input : List α) (target : Gathered α) :
    Except Fault Unit × Gathered α :=
  (Padding.launchGather t (e.host.cut e.settings.segmentGrain t.segments) input).on target

end Launch

/-! ## New buffers -/

section New

variable [Element α]

/-- A new batch of the given blocks, with the buffers that a launch leaves. -/
def rewriteNew (h : Host) (shape : Shape) (t : Table)
    (launch : Buffers α → Except Fault Unit × Buffers α) : Except Fault (Segmented α) := do
  let out ← zeroed α h .output t.outElements
  let lengths ← zeroed Int32 h .lengths t.numSegments
  match launch ⟨out, some lengths⟩ with
  | (.error f, _) => .error f
  | (.ok (), b) =>
    let shape ← shape.withOuter t.outBlocks
    let batch ← Batch.ofShape shape b.out
    return ⟨batch, b.lengths.getD []⟩

def gatherNew (h : Host) (t : Table) (mode : GatherMode)
    (launch : Gathered α → Except Fault Unit × Gathered α) : Except Fault (Gathered α) := do
  let target ← Gathered.zeroed h t.blockSize mode
  match launch target with
  | (.error f, _) => .error f
  | (.ok (), target) => return target

def add (e : Engine) (input : Batch α) (lengths : Option (List Int32)) (p : Padding α) :
    Except Fault (Segmented α) × Engine :=
  match e.planAdd input.shape lengths p with
  | (.error f, e) => (.error f, e)
  | (.ok t, e) => (rewriteNew e.host input.shape t (e.launchAdd t p input.data), e)

def remove (e : Engine) (input : Batch α) (lengths : Option (List Int32)) (w : Widths) :
    Except Fault (Segmented α) × Engine :=
  match e.planRemove input.shape lengths w with
  | (.error f, e) => (.error f, e)
  | (.ok t, e) => (rewriteNew e.host input.shape t (e.launchRemove t input.data), e)

def gather (e : Engine) (input : Batch α) (lengths : Option (List Int32)) (w : Widths)
    (mode : GatherMode) : Except Fault (Gathered α) × Engine :=
  match e.planGather input.shape lengths w with
  | (.error f, e) => (.error f, e)
  | (.ok t, e) => (gatherNew e.host t mode (e.launchGather t input.data), e)

end New

/-! ## The caller's buffers -/

section Into

variable [Element α]

def addInto (e : Engine) (input : Batch α) (lengths : Option (List Int32)) (p : Padding α)
    (b : Buffers α) : (Except Fault Unit × Buffers α) × Engine :=
  match e.planAdd input.shape lengths p with
  | (.error f, e) => ((.error f, b), e)
  | (.ok t, e) => (e.launchAdd t p input.data b, e)

def removeInto (e : Engine) (input : Batch α) (lengths : Option (List Int32)) (w : Widths)
    (b : Buffers α) : (Except Fault Unit × Buffers α) × Engine :=
  match e.planRemove input.shape lengths w with
  | (.error f, e) => ((.error f, b), e)
  | (.ok t, e) => (e.launchRemove t input.data b, e)

def gatherInto (e : Engine) (input : Batch α) (lengths : Option (List Int32)) (w : Widths)
    (target : Gathered α) : (Except Fault Unit × Gathered α) × Engine :=
  match e.planGather input.shape lengths w with
  | (.error f, e) => ((.error f, target), e)
  | (.ok t, e) => (e.launchGather t input.data target, e)

end Into

end Engine

end Ragged
