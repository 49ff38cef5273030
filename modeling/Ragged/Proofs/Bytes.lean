import Mathlib.Algebra.Ring.Nat
import Ragged.Element

/-!
# Reading bytes inverts writing them

A number below `256 ^ n` comes back from its lowest `n` bytes, and every list of bytes is
written by the number it is read as. Elements are as many bytes as their size says, so the
same holds of them.
-/

namespace Ragged

namespace Bytes

theorem decode_lt (bs : List UInt8) : decode bs < 256 ^ bs.length := by
  induction bs with
  | nil => simp [decode]
  | cons b bs ih =>
    have hb := b.toNat_lt
    rw [decode, List.length_cons, Nat.pow_succ]
    omega

theorem decode_encode {n v : Nat} (h : v < 256 ^ n) : decode (encode n v) = v := by
  induction n generalizing v with
  | zero => simp only [Nat.pow_zero] at h; rw [encode, decode]; omega
  | succ n ih =>
    have hv : v / 256 < 256 ^ n := by
      rw [Nat.pow_succ] at h
      exact Nat.div_lt_of_lt_mul (by omega)
    rw [encode, decode, ih hv, UInt8.toNat_ofNat']
    omega

theorem encode_decode (bs : List UInt8) : encode bs.length (decode bs) = bs := by
  induction bs with
  | nil => rfl
  | cons b bs ih =>
    have hb := b.toNat_lt
    rw [List.length_cons, decode, encode]
    rw [show (b.toNat + 256 * decode bs) % 256 = b.toNat by omega,
      show (b.toNat + 256 * decode bs) / 256 = decode bs by omega, ih, UInt8.ofNat_toNat]

end Bytes

namespace Element

theorem ofBytes_toBytes {α : Type} [Element α] (a : α) : ofBytes (toBytes a) = a := by
  have h : (bits a).toNat < 256 ^ size α := by
    have := (bits a).isLt
    rwa [Nat.pow_mul] at this
  rw [ofBytes, toBytes, Bytes.decode_encode h, BitVec.ofNat_toNat, BitVec.setWidth_eq,
    ofBits_bits]

theorem toBytes_ofBytes {α : Type} [Element α] {bs : List UInt8} (h : bs.length = size α) :
    toBytes (ofBytes bs : α) = bs := by
  have hlt : Bytes.decode bs < 2 ^ (8 * size α) := by
    rw [Nat.pow_mul, ← h]
    exact Bytes.decode_lt bs
  rw [toBytes, ofBytes, bits_ofBits, BitVec.toNat_ofNat, Nat.mod_eq_of_lt hlt, ← h]
  exact Bytes.encode_decode bs

end Element

end Ragged
