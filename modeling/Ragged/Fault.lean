/-!
# Faults

Every way a call can be refused, by cause, with the values its text names. `message`
is the text, `kind` the family it belongs to. `outOfRange` alone is no refusal: the
run itself stops at an access outside a buffer.
-/

namespace Ragged

/-- The end of a segment that a pad sits on. -/
inductive Side where
  | start
  | stop
  deriving DecidableEq

inductive SumBuffer where
  | start
  | stop
  | merged
  deriving DecidableEq

/-- The settings that say how much work one task takes. -/
inductive GrainSetting where
  | segment
  | element
  | scan
  deriving DecidableEq

inductive Fault where
  | noDimensions
  | negativeDimension (dim : Int) (dims : List Int)
  | leadingTooLong (dim : Int)
  | shapeOverflow (dims : List Int)
  | leadingPastSigned (outer : Nat)
  | dataSize (held : Nat) (dims : List Nat) (needed : Nat)
  | partialElement (bytes elementBytes : Nat)
  | negativeLength (segment : Nat) (length : Int)
  | lengthsOverflow (total : Int)
  | widthsOverflow (start stop : Nat)
  | widenedOverflow (length padding : Int)
  | paddingOverflow (segments padding : Nat)
  | elementOverflow (blocks blockSize : Nat)
  | paddedOverflow (blocks padding : Nat)
  | notOneSegment (segments : Nat)
  | totalMismatch (total blocks : Nat)
  | startsMismatch (starts lengths : Nat)
  | negativeBlocks (segment : Nat) (value : Int)
  | segmentPastInput (segment first last blocks : Nat)
  | segmentTooShort (segment blocks padding : Nat)
  | startBeforePadding (segment start padding : Nat)
  | paddingPastInput (padding blocks : Nat)
  | newLengthOverflow (blocks : Nat)
  | fillSize (side : Side) (held needed : Nat)
  | inputSize (held needed : Nat)
  | outputSize (held needed : Nat)
  | lengthsOutputSize (held segments : Nat)
  | sumSize (buffer : SumBuffer) (held needed : Nat)
  | regionOverlap (region start previous : Nat)
  | regionPastBuffer (region start stop size : Nat)
  | scratchLimit (requested used limit : Nat)
  | allocationTooLarge
  | allocationRefused
  | noThreads
  | zeroGrain (setting : GrainSetting)
  | outOfRange
  deriving DecidableEq

/-- The families of faults. -/
inductive FaultKind where
  | contract
  | resource
  | settings
  | abort
  deriving DecidableEq

namespace Fault

def kind : Fault → FaultKind
  | scratchLimit .. | allocationTooLarge | allocationRefused => .resource
  | noThreads | zeroGrain _ => .settings
  | outOfRange => .abort
  | _ => .contract

/-- A list of numbers in brackets. -/
def listText {α : Type} [ToString α] (xs : List α) : String :=
  "[" ++ ", ".intercalate (xs.map toString) ++ "]"

def sideText : Side → String
  | .start => "start"
  | .stop => "end"

def sumBufferText : SumBuffer → String
  | .start => "start"
  | .stop => "end"
  | .merged => "merged"

def grainText : GrainSetting → String
  | .segment => "segment_grain"
  | .element => "element_grain"
  | .scan => "scan_grain"

/-- The text of a fault without its family. -/
def detail : Fault → String
  | noDimensions => "Batch dimensions cannot be empty"
  | negativeDimension d dims =>
    s!"Batch dimensions must be non-negative, got {d} in {listText dims}"
  | leadingTooLong d => s!"Leading dimension {d} does not fit in a 32-bit length"
  | shapeOverflow dims => s!"Batch dimensions {listText dims} overflow the element count"
  | leadingPastSigned n => s!"Leading dimension {n} does not fit in i64"
  | dataSize held dims needed =>
    s!"Batch data holds {held} elements but dims {listText dims} need {needed}"
  | partialElement n size => s!"{n} bytes is not a whole number of {size}-byte elements"
  | negativeLength e l => s!"segment {e} has negative length {l}"
  | lengthsOverflow total =>
    s!"lengths total {total} blocks, which overflows a 32-bit prefix sum"
  | widthsOverflow a b => s!"padding widths {a} + {b} do not fit in a 32-bit length"
  | widenedOverflow l pad => s!"length {l} plus {pad} padding blocks overflows 32 bits"
  | paddingOverflow n pad => s!"{n} segments of {pad} padding blocks overflow the block count"
  | elementOverflow blocks size =>
    s!"{blocks} blocks of {size} elements overflow the element count"
  | paddedOverflow blocks padding =>
    s!"{blocks} blocks plus {padding} padding blocks do not fit in a 32-bit length"
  | notOneSegment n =>
    s!"lengths were omitted but {n} segments were requested; exactly one is implied"
  | totalMismatch total blocks =>
    s!"lengths sum to {total} blocks but the input holds {blocks}"
  | startsMismatch starts lengths => s!"{starts} segment starts for {lengths} lengths"
  | negativeBlocks e v => s!"segment {e} has a negative block count {v} in its prefix"
  | segmentPastInput e a b blocks =>
    s!"segment {e} spans blocks {a}..{b} past the {blocks} input blocks"
  | segmentTooShort e blocks padding =>
    s!"segment {e} holds {blocks} blocks, fewer than the {padding} padding blocks to remove"
  | startBeforePadding e start padding =>
    s!"segment {e} starts at block {start} but {padding} padding blocks precede it"
  | paddingPastInput padding blocks =>
    s!"{padding} padding blocks to remove exceed the {blocks} input blocks"
  | newLengthOverflow blocks =>
    s!"segment length {blocks} plus padding does not fit in a 32-bit length"
  | fillSize side held needed =>
    s!"{sideText side} fill has {held} elements but blocks hold {needed}"
  | inputSize held needed => s!"input holds {held} elements but the layout covers {needed}"
  | outputSize held needed =>
    s!"output buffer holds {held} elements but the layout needs {needed}"
  | lengthsOutputSize held n => s!"lengths output holds {held} entries for {n} segments"
  | sumSize buffer held needed =>
    s!"{sumBufferText buffer} sum buffer holds {held} elements but blocks hold {needed}"
  | regionOverlap i start previous =>
    s!"output region {i} starts at {start} inside the previous region ending at {previous}"
  | regionPastBuffer i start stop size =>
    s!"output region {i} ({start}..{stop}) runs past the {size}-element buffer"
  | scratchLimit requested used limit =>
    s!"Scratch limit exceeded: tried to allocate {requested} bytes when {used} of {limit} bytes are used"
  | allocationTooLarge =>
    "allocation failed: memory allocation failed because the computed capacity exceeded the collection's maximum"
  | allocationRefused =>
    "allocation failed: memory allocation failed because the memory allocator returned an error"
  | noThreads => "num_threads must be at least 1 when set"
  | zeroGrain setting => s!"{grainText setting} must be at least 1"
  | outOfRange => "an index lies outside its buffer"

def label : FaultKind → String
  | .contract => "Contract violation"
  | .resource => "Resource exhaustion"
  | .settings => "Config error"
  | .abort => "Aborted"

def message (f : Fault) : String := label f.kind ++ ": " ++ f.detail

end Fault

/-! ## Outcomes -/

variable {ε α β : Type}

theorem bind_eq_ok {x : Except ε α} {f : α → Except ε β} {b : β} :
    (x >>= f) = .ok b ↔ ∃ a, x = .ok a ∧ f a = .ok b := by
  cases x <;> simp [bind, Except.bind]

theorem foldlM_eq_ok_foldl {f : β → α → Except ε β} {g : β → α → β} {xs : List α}
    (h : ∀ x ∈ xs, ∀ b, f b x = .ok (g b x)) (b : β) : xs.foldlM f b = .ok (xs.foldl g b) := by
  induction xs generalizing b with
  | nil => rfl
  | cons x xs ih =>
    rw [List.foldlM_cons, h x List.mem_cons_self]
    exact ih (fun y hy => h y (List.mem_cons_of_mem x hy)) (g b x)

end Ragged
