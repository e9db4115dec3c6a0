import Mathlib.Algebra.Group.Int.Defs
import Mathlib.Algebra.Group.Nat.Defs
import Unwinding.Memory

/-!
# Numbers and their bytes

Writing a number in some bytes and reading them back gives the number modulo
what those bytes can hold, whichever end comes first.
-/

namespace Unwinding

namespace Bytes

theorem toNat_lt (bs : List UInt8) : toNat bs < 256 ^ bs.length := by
  induction bs with
  | nil => simp [toNat]
  | cons b bs ih =>
    have hb : b.toNat < 256 := b.toNat_lt
    simp only [toNat, List.length_cons, Nat.pow_succ]
    omega

theorem toNat_ofNat (count n : Nat) : toNat (ofNat count n) = n % 256 ^ count := by
  induction count generalizing n with
  | zero => simp [ofNat, toNat, Nat.mod_one]
  | succ count ih =>
    have hb : (UInt8.ofNat n).toNat = n % 256 := by simp
    rw [ofNat, toNat, ih, hb, Nat.pow_succ', Nat.mod_mul]

theorem ofNat_toNat (bs : List UInt8) : ofNat bs.length (toNat bs) = bs := by
  induction bs with
  | nil => rfl
  | cons b bs ih =>
    have hb : b.toNat < 256 := b.toNat_lt
    have hhead : UInt8.ofNat (b.toNat + 256 * toNat bs) = b := by
      apply UInt8.toNat_inj.mp
      rw [UInt8.toNat_ofNat']
      omega
    have htail : (b.toNat + 256 * toNat bs) / 256 = toNat bs := by omega
    rw [List.length_cons, toNat, ofNat, hhead, htail, ih]

end Bytes

theorem Endian.decode_encode (e : Endian) (count n : Nat) :
    e.decode (e.encode count n) = n % 256 ^ count := by
  cases e <;> simp [decode, encode, Bytes.toNat_ofNat]

theorem Endian.encode_decode (e : Endian) (bs : List UInt8) :
    e.encode bs.length (e.decode bs) = bs := by
  cases e with
  | little => exact Bytes.ofNat_toNat bs
  | big =>
    have hrev := Bytes.ofNat_toNat bs.reverse
    rw [List.length_reverse] at hrev
    rw [decode, encode, hrev, List.reverse_reverse]

theorem Endian.encode_mod (e : Endian) (count n : Nat) :
    e.encode count (n % 256 ^ count) = e.encode count n := by
  have hround := e.encode_decode (e.encode count n)
  rwa [encode_length, decode_encode] at hround

theorem Endian.decode_lt (e : Endian) (bs : List UInt8) : e.decode bs < 256 ^ bs.length := by
  cases e with
  | little => exact Bytes.toNat_lt bs
  | big => simpa [decode] using Bytes.toNat_lt bs.reverse

end Unwinding
