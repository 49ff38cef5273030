import Ragged.Chunk
import Ragged.Element

/-!
# Filling and copying

Both go chunk by chunk. A chunk to be filled holds whole templates, so the template
starts anew at every chunk; elements that no whole template covers keep their value.
-/

namespace Ragged

variable {α : Type}

/-- Writes whole templates from the start of a chunk on. -/
def fillChunk (template chunk : List α) : List α :=
  ((chunks template.length chunk).map fun row =>
    if row.length = template.length then template else row).flatten

/-- Elements of a chunk: about `grain`, and a whole number of templates. -/
def fillStride (template : List α) (grain : Nat) : Nat :=
  max (grain / template.length) 1 * template.length

/-- Fills a buffer with copies of a template, or with zeros when there is none. -/
def fill [Element α] (template : Option (List α)) (grain : Nat) (buffer : List α) : List α :=
  match template with
  | none => ((chunks grain buffer).map (List.map fun _ => Element.zero)).flatten
  | some [] => buffer
  | some (x :: xs) =>
    ((chunks (fillStride (x :: xs) grain) buffer).map (fillChunk (x :: xs))).flatten

def copy (grain : Nat) (buffer source : List α) : List α :=
  (List.zipWith (fun _ new => new) (chunks grain buffer) (chunks grain source)).flatten

theorem copy_eq {grain : Nat} (hg : 0 < grain) {buffer source : List α}
    (h : buffer.length = source.length) : copy grain buffer source = source := by
  have hz : ∀ (xs ys : List (List α)), xs.length = ys.length →
      List.zipWith (fun _ new => new) xs ys = ys := by
    intro xs ys hxy
    induction xs generalizing ys with
    | nil => cases ys <;> simp_all
    | cons x xs ih => cases ys <;> simp_all
  rw [copy, hz _ _ (by rw [length_chunks, length_chunks, h]), flatten_chunks hg]

end Ragged
