import Mathlib
import DwarfLines.Bytes.Order

/-!
# What fixed-width numbers stand for

A list of bytes stands for a number below the power of 256 of its length, and `value_bytes` says
that a number which fits its width is read back as it was written.
-/

namespace DwarfLines
namespace ByteOrder

theorem littleValue_lt (bs : List UInt8) : littleValue bs < 256 ^ bs.length := by
  induction bs with
  | nil => simp [littleValue]
  | cons b bs ih =>
    have hb : b.toNat < 256 := b.toNat_lt
    simp only [littleValue, List.length_cons, Nat.pow_succ]
    omega

theorem littleValue_littleBytes (width n : Nat) :
    littleValue (littleBytes width n) = n % 256 ^ width := by
  induction width generalizing n with
  | zero => simp [littleBytes, littleValue, Nat.mod_one]
  | succ width ih =>
    simp only [littleBytes, littleValue, ih, UInt8.toNat_ofNat', Nat.reducePow]
    rw [Nat.pow_succ, Nat.mul_comm (256 ^ width) 256, Nat.mod_mul]

theorem value_lt (order : ByteOrder) (bs : List UInt8) : order.value bs < 256 ^ bs.length := by
  cases order
  · exact littleValue_lt bs
  · simpa [value] using littleValue_lt bs.reverse

theorem value_bytes_mod (order : ByteOrder) (width n : Nat) :
    order.value (order.bytes width n) = n % 256 ^ width := by
  cases order <;> simp [value, bytes, littleValue_littleBytes]

theorem littleBytes_littleValue (bs : List UInt8) :
    littleBytes bs.length (littleValue bs) = bs := by
  induction bs with
  | nil => rfl
  | cons b bs ih =>
    have hb : b.toNat < 256 := b.toNat_lt
    have hrest : (b.toNat + 256 * littleValue bs) / 256 = littleValue bs := by omega
    have hfirst : UInt8.ofNat (b.toNat + 256 * littleValue bs) = b := by
      apply UInt8.toNat_inj.mp
      simp only [UInt8.toNat_ofNat', Nat.reducePow]
      omega
    rw [List.length_cons, littleValue, littleBytes, hrest, hfirst, ih]

theorem bytes_value (order : ByteOrder) (bs : List UInt8) :
    order.bytes bs.length (order.value bs) = bs := by
  cases order with
  | little => exact littleBytes_littleValue bs
  | big =>
    have hreverse := littleBytes_littleValue bs.reverse
    rw [List.length_reverse] at hreverse
    rw [bytes, value, hreverse, List.reverse_reverse]

/-- A number that fits its width is read back. -/
theorem value_bytes (order : ByteOrder) {width n : Nat} (h : n < 256 ^ width) :
    order.value (order.bytes width n) = n := by
  rw [value_bytes_mod, Nat.mod_eq_of_lt h]

end ByteOrder
end DwarfLines
