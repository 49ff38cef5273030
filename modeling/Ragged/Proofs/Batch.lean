import Ragged.Batch
import Ragged.Proofs.Bytes
import Ragged.Proofs.Shape

/-!
# Batches as bytes

Bytes are cut into elements by index where they can be read in place, and one element after the
other elsewhere. The cuts are the same. Whole elements are written as the bytes they were read
from and read as the elements they were written from, so bytes are read as a batch exactly if they
are that batch written out.
-/

namespace Ragged

namespace Batch

variable {α : Type}

theorem ofShape_eq_ok {shape : Shape} {data : List α} {b : Batch α} :
    ofShape shape data = .ok b ↔ b.shape = shape ∧ b.data = data := by
  unfold ofShape
  split
  · refine ⟨?_, ?_⟩
    · rintro ⟨⟩
      exact ⟨rfl, rfl⟩
    · obtain ⟨shape, data, _⟩ := b
      rintro ⟨rfl, rfl⟩
      rfl
  · rename_i hsize
    simp only [reduceCtorEq, false_iff]
    rintro ⟨rfl, rfl⟩
    exact hsize b.size_eq

variable [Element α]

theorem readAligned_eq (bytes : List UInt8) :
    (readAligned bytes : List α) = readUnaligned bytes := by
  unfold readAligned readUnaligned
  rw [takeChunks_eq_map, List.map_map]
  rfl

/-! ## Elements and their bytes -/

theorem length_flatMap_toBytes (data : List α) :
    (data.flatMap Element.toBytes).length = data.length * Element.size α := by
  rw [List.length_flatMap]
  simp only [Element.length_toBytes, List.map_const', List.sum_replicate_nat]

theorem flatMap_toBytes_readUnaligned {bytes : List UInt8} (h : bytes.length % Element.size α = 0) :
    (readUnaligned bytes : List α).flatMap Element.toBytes = bytes := by
  have hlen : bytes.length / Element.size α * Element.size α = bytes.length :=
    Nat.div_mul_cancel (Nat.dvd_of_mod_eq_zero h)
  have hchunk : ∀ chunk ∈ takeChunks (Element.size α) (bytes.length / Element.size α) bytes,
      Element.toBytes (Element.ofBytes chunk : α) = chunk := fun chunk hc =>
    Element.toBytes_ofBytes (length_of_mem_takeChunks (Nat.le_of_eq hlen) hc)
  unfold readUnaligned
  rw [List.flatMap_map, List.flatMap_def, (List.map_congr_left hchunk).trans (List.map_id' _),
    flatten_takeChunks, hlen, List.take_length]

theorem readUnaligned_flatMap_toBytes (data : List α) :
    readUnaligned (data.flatMap Element.toBytes) = data := by
  have hparts : ∀ part ∈ data.map Element.toBytes, part.length = Element.size α := by
    simp
  have hchunks := takeChunks_flatten hparts
  rw [List.length_map] at hchunks
  unfold readUnaligned
  rw [length_flatMap_toBytes, Nat.mul_div_cancel _ Element.size_pos, List.flatMap_def, hchunks,
    List.map_map]
  exact (List.map_congr_left fun a _ => Element.ofBytes_toBytes a).trans (List.map_id data)

/-! ## Batches and their bytes -/

theorem length_toBytes (b : Batch α) :
    b.toBytes.length = b.shape.numElements * Element.size α := by
  rw [toBytes, length_flatMap_toBytes, b.size_eq]

/-- Bytes are read as a batch exactly if they are its bytes and the dimensions are its own. -/
theorem ofBytes_eq_ok {dims : List Int} {bytes : List UInt8} {aligned : Bool} {b : Batch α} :
    ofBytes dims bytes aligned = .ok b ↔ Shape.ofDims dims = .ok b.shape ∧ b.toBytes = bytes := by
  have hread : (if aligned then readAligned bytes else readUnaligned bytes : List α) =
      readUnaligned bytes := by
    rw [readAligned_eq, ite_self]
  rw [ofBytes, hread]
  split
  · rename_i hwhole
    simp only [ofDims, bind_eq_ok, ofShape_eq_ok]
    refine ⟨?_, ?_⟩
    · rintro ⟨_, hs, rfl, hdata⟩
      rw [toBytes, hdata]
      exact ⟨hs, flatMap_toBytes_readUnaligned hwhole⟩
    · rintro ⟨hs, rfl⟩
      exact ⟨_, hs, rfl, (readUnaligned_flatMap_toBytes b.data).symm⟩
  · rename_i hwhole
    simp only [reduceCtorEq, false_iff]
    rintro ⟨-, rfl⟩
    exact hwhole (by rw [length_toBytes, Nat.mul_mod_left])

theorem exists_ofBytes_iff {dims : List Int} {bytes : List UInt8} {aligned : Bool} :
    (∃ b : Batch α, ofBytes dims bytes aligned = .ok b) ↔
      ∃ s, Shape.ofDims dims = .ok s ∧ bytes.length = s.numElements * Element.size α := by
  simp only [ofBytes_eq_ok]
  refine ⟨?_, ?_⟩
  · rintro ⟨b, hs, rfl⟩
    exact ⟨b.shape, hs, b.length_toBytes⟩
  · rintro ⟨s, hs, hlen⟩
    have hwhole : bytes.length % Element.size α = 0 := by rw [hlen, Nat.mul_mod_left]
    have hbytes := flatMap_toBytes_readUnaligned (α := α) hwhole
    have hsize : (readUnaligned bytes : List α).length = s.numElements := by
      rw [readUnaligned, List.length_map, length_takeChunks, hlen,
        Nat.mul_div_cancel _ Element.size_pos]
    exact ⟨⟨s, readUnaligned bytes, hsize⟩, hs, hbytes⟩

variable (α) in
/-- Bytes are those of a batch exactly if its dimensions are accepted and there are as many as its
elements take. They are written as they were read, whichever way, and read as they were written. -/
theorem bytes_round_trip (dims : List Int) (bytes : List UInt8) :
    (∀ aligned, (∃ b : Batch α, ofBytes dims bytes aligned = .ok b) ↔
        ∃ s, Shape.ofDims dims = .ok s ∧ bytes.length = s.numElements * Element.size α) ∧
      (∀ aligned (b : Batch α), ofBytes dims bytes aligned = .ok b → b.toBytes = bytes) ∧
      (readAligned bytes : List α) = readUnaligned bytes ∧
      ∀ aligned (b : Batch α), ofBytes (b.shape.dims.map Int.ofNat) b.toBytes aligned = .ok b :=
  ⟨fun _ => exists_ofBytes_iff, fun _ _ h => (ofBytes_eq_ok.1 h).2, readAligned_eq bytes,
    fun _ b => ofBytes_eq_ok.2 ⟨b.shape.ofDims_dims, rfl⟩⟩

/-- Two words, the second with its highest bit set. -/
def twoWords : Batch Int32 := ⟨⟨2, [1], by decide, by decide⟩, [0x01020304, -2], by decide⟩

theorem bytes_round_trip_two_words :
    (∃ b : Batch Int32, ofBytes [2, 1] [4, 3, 2, 1, 254, 255, 255, 255] false = .ok b ∧
        b.toBytes = [4, 3, 2, 1, 254, 255, 255, 255]) ∧
      ofBytes [2, 1] [4, 3, 2, 1, 254, 255, 255, 255] true = .ok twoWords := by
  have hs : Shape.ofDims [2, 1] = .ok twoWords.shape := by rfl
  obtain ⟨haccepted, hwritten, -, hread⟩ :=
    bytes_round_trip Int32 [2, 1] [4, 3, 2, 1, 254, 255, 255, 255]
  obtain ⟨b, hb⟩ := (haccepted false).2 ⟨_, hs, by rfl⟩
  exact ⟨⟨b, hb, hwritten false b hb⟩, hread true twoWords⟩

end Batch

end Ragged
