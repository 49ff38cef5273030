import Ragged.Host

/-!
# Carving a buffer

A buffer is carved into regions given by offset and length, in ascending order and
without overlap. What lies between regions is kept beside them, so the carving put
together again is the buffer. Regions are written one after the other; each owner looks
up all it needs before it writes its own, and when it cannot, the regions before have
been written and stay so.
-/

namespace Ragged

/-- A region and the elements between it and the region before it. -/
structure Piece (α : Type) where
  gap : List α
  region : List α

structure Carving (α : Type) where
  pieces : List (Piece α)
  /-- The elements past the last region. -/
  rest : List α

namespace Carving

variable {α : Type}

/-- Carves `rest`, which starts at element `cursor` of the buffer, into the regions from
number `i` on. -/
def carveFrom (i cursor : Nat) (rest : List α) :
    List (Nat × Nat) → Except Fault (Carving α)
  | [] => .ok ⟨[], rest⟩
  | (start, len) :: regions =>
    if start < cursor then .error (.regionOverlap i start cursor)
    else if rest.length < start - cursor + len then
      .error (.regionPastBuffer i start (start + len) (cursor + rest.length))
    else do
      let later ← carveFrom (i + 1) (start + len) (rest.drop (start - cursor + len)) regions
      return ⟨⟨rest.take (start - cursor), (rest.drop (start - cursor)).take len⟩ :: later.pieces,
        later.rest⟩

/-- Bytes that the list of regions takes for each of them. -/
abbrev regionBytes : Nat := 16

def carve (h : Host) (buffer : List α) (regions : List (Nat × Nat)) :
    Except Fault (Carving α) := do
  h.memory .regions (regions.length * regionBytes)
  carveFrom 0 0 buffer regions

def joinPieces : List (Piece α) → List α → List α
  | [], rest => rest
  | p :: ps, rest => p.gap ++ p.region ++ joinPieces ps rest

def join (c : Carving α) : List α := joinPieces c.pieces c.rest

/-- Each owner gives its region new contents, up to the first that stops. -/
def rewritePieces {β : Type} (write : β → List α → Except Fault (List α)) :
    List β → List (Piece α) → Except Fault Unit × List (Piece α)
  | owner :: owners, p :: ps =>
    match write owner p.region with
    | .error f => (.error f, p :: ps)
    | .ok region =>
      let (result, ps) := rewritePieces write owners ps
      (result, { p with region } :: ps)
  | _, ps => (.ok (), ps)

def rewrite {β : Type} (write : β → List α → Except Fault (List α)) (owners : List β)
    (c : Carving α) : Except Fault Unit × Carving α :=
  let (result, pieces) := rewritePieces write owners c.pieces
  (result, { c with pieces })

theorem join_carveFrom {i cursor : Nat} {rest : List α} {regions : List (Nat × Nat)}
    {c : Carving α} (h : carveFrom i cursor rest regions = .ok c) : c.join = rest := by
  induction regions generalizing i cursor rest c with
  | nil => cases h; rfl
  | cons r regions ih =>
    obtain ⟨start, len⟩ := r
    rw [carveFrom] at h
    split at h
    · cases h
    · split at h
      · cases h
      · simp only [bind, Except.bind] at h
        split at h
        · cases h
        · rename_i later hl
          cases h
          rw [join, joinPieces, ← join, ih hl, ← List.drop_drop, List.append_assoc,
            List.take_append_drop, List.take_append_drop]

end Carving

end Ragged
