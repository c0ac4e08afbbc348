import Mathlib
import DwarfLines.Bytes.Leb128

/-!
# Shortest writings are read back

The shortest writing of a number, signed or not, is read as that number and nothing after it is
touched. The statements about `unsignedFrom` and `signedFrom` speak of a number whose first byte
has some weight, so that they can be proved byte by byte.
-/

namespace DwarfLines

namespace Leb128

theorem unsignedFrom_bytes {n s : Nat} (offset : Nat) (rest : List UInt8)
    (h7 : 7 ∣ s) (hn : n * 2 ^ s < 2 ^ 64) (hs : s ≤ 63) :
    unsignedFrom s offset (unsignedBytes n ++ rest) =
      .ok (n, ⟨offset + (unsignedBytes n).length, rest⟩) := by
  induction n using Nat.strongRecOn generalizing s offset with
  | ind n ih =>
    rw [unsignedBytes]
    split
    case isTrue hlt =>
      have hb : (UInt8.ofNat n).toNat = n := by simp; omega
      have hok : ¬ (s = 63 ∧ UInt8.ofNat n ≠ 0 ∧ UInt8.ofNat n ≠ 1) := by
        rintro ⟨rfl, h0, h1⟩
        have : n = 0 ∨ n = 1 := by omega
        rcases this with rfl | rfl <;> simp_all
      simp only [List.cons_append, List.nil_append, unsignedFrom, hok, hb, hlt, if_true, if_false,
        List.length_singleton]
    case isFalse hge =>
      have hb : (UInt8.ofNat (n % 128 + 128)).toNat = n % 128 + 128 := by simp; omega
      have hp : 2 ^ (s + 7) < 2 ^ 64 := by
        refine Nat.lt_of_le_of_lt ?_ hn
        rw [Nat.pow_add, Nat.mul_comm]
        exact Nat.mul_le_mul_right _ (by omega)
      have hs7 : s + 7 < 64 := (Nat.pow_lt_pow_iff_right (by decide)).1 hp
      have hrec := ih (n / 128) (by omega) (s := s + 7) (offset + 1) (by omega)
        (by
          refine Nat.lt_of_le_of_lt ?_ hn
          rw [Nat.pow_add, Nat.mul_comm (2 ^ s), ← Nat.mul_assoc]
          exact Nat.mul_le_mul_right _ (by omega))
        (by omega)
      have hshift : ¬ (s = 63 ∧ UInt8.ofNat (n % 128 + 128) ≠ 0 ∧
          UInt8.ofNat (n % 128 + 128) ≠ 1) := by omega
      have hbig : ¬ n % 128 + 128 < 128 := by omega
      simp only [List.cons_append, unsignedFrom, hshift, hb, hbig, if_false, hrec,
        List.length_cons]
      congr 2
      · omega
      · congr 1; omega

private theorem signed_shift_lt {n : Int} {s : Nat} (hn : ¬(-64 ≤ n ∧ n < 64))
    (hlow : -2 ^ 63 ≤ n * 2 ^ s) (hhigh : n * 2 ^ s < 2 ^ 63) : s < 57 := by
  have hpos : (0 : Int) < 2 ^ s := Int.pow_pos (by decide)
  have h64 : (64 : Int) * 2 ^ s < 2 ^ 63 := by
    by_cases h : 64 ≤ n
    · exact Int.lt_of_le_of_lt (Int.mul_le_mul_of_nonneg_right h (Int.le_of_lt hpos)) hhigh
    · have h65 : 65 * 2 ^ s ≤ -n * 2 ^ s :=
        Int.mul_le_mul_of_nonneg_right (by omega) (Int.le_of_lt hpos)
      rw [Int.neg_mul] at h65
      omega
  have hp : (2 : Int) ^ (6 + s) < 2 ^ 63 := by
    rw [Int.pow_add]
    exact h64
  have hnat : 2 ^ (6 + s) < 2 ^ 63 := by
    exact_mod_cast hp
  have := (Nat.pow_lt_pow_iff_right (by decide : 1 < 2)).1 hnat
  omega

theorem signedFrom_bytes {n : Int} {s : Nat} (offset : Nat) (rest : List UInt8)
    (h7 : 7 ∣ s) (hlow : -2 ^ 63 ≤ n * 2 ^ s) (hhigh : n * 2 ^ s < 2 ^ 63)
    (hs : s ≤ 63) :
    signedFrom s offset (signedBytes n ++ rest) =
      .ok (n, ⟨offset + (signedBytes n).length, rest⟩) := by
  generalize hk : n.natAbs = k
  induction k using Nat.strongRecOn generalizing n s offset with
  | ind k ih =>
    rw [signedBytes]
    split
    case isTrue hsmall =>
      have hb : (UInt8.ofNat (n % 128).toNat).toNat = (n % 128).toNat := by simp; omega
      have hok : ¬ (s = 63 ∧ UInt8.ofNat (n % 128).toNat ≠ 0 ∧
          UInt8.ofNat (n % 128).toNat ≠ 0x7f) := by
        rintro ⟨rfl, h0, h1⟩
        have : n = 0 ∨ n = -1 := by omega
        rcases this with rfl | rfl
        · exact h0 (by decide)
        · exact h1 (by decide)
      have hlt : (n % 128).toNat < 128 := by omega
      simp only [List.cons_append, List.nil_append, signedFrom, hok, hb, hlt, if_true, if_false,
        List.length_singleton]
      congr 2
      split <;> omega
    case isFalse hbig =>
      have hshift := signed_shift_lt hbig hlow hhigh
      have hb : (UInt8.ofNat ((n % 128).toNat + 128)).toNat = (n % 128).toNat + 128 := by
        simp; omega
      have hpos : (0 : Int) < 2 ^ s := Int.pow_pos (by decide)
      have hmul : n / 128 * 2 ^ (s + 7) = (128 * (n / 128)) * 2 ^ s := by
        rw [Int.pow_add, Int.mul_comm (2 ^ s), ← Int.mul_assoc, Int.mul_comm (n / 128)]
        rfl
      have htop : (2 : Int) ^ 63 = 128 * 2 ^ (56 - s) * 2 ^ s := by
        rw [Int.mul_assoc, ← Int.pow_add, show 56 - s + s = 56 by omega]
        decide
      have hfloor : -2 ^ (56 - s) ≤ n / 128 := by
        have : -(128 * 2 ^ (56 - s)) ≤ n := by
          refine Int.le_of_mul_le_mul_right ?_ hpos
          rw [Int.neg_mul, ← htop]
          exact hlow
        omega
      have hrec := ih (n / 128).natAbs (by omega) (n := n / 128) (s := s + 7) (offset + 1)
        (by omega)
        (by
          rw [hmul, htop, ← Int.neg_mul]
          exact Int.mul_le_mul_of_nonneg_right (by omega) (Int.le_of_lt hpos))
        (by
          rw [hmul]
          exact Int.lt_of_le_of_lt
            (Int.mul_le_mul_of_nonneg_right (by omega) (Int.le_of_lt hpos)) hhigh)
        (by omega) rfl
      have hnot : ¬ (s = 63 ∧ UInt8.ofNat ((n % 128).toNat + 128) ≠ 0 ∧
          UInt8.ofNat ((n % 128).toNat + 128) ≠ 0x7f) := by omega
      have hge : ¬ (n % 128).toNat + 128 < 128 := by omega
      simp only [List.cons_append, signedFrom, hnot, hb, hge, if_false, hrec, List.length_cons]
      congr 2
      · omega
      · congr 1; omega

end Leb128

namespace Reader

/-- The shortest writing of a number is read back. -/
theorem uleb128_unsignedBytes (n : UInt64) (offset : Nat) (rest : List UInt8) :
    uleb128 ⟨offset, Leb128.unsignedBytes n.toNat ++ rest⟩ =
      .ok (n, ⟨offset + (Leb128.unsignedBytes n.toNat).length, rest⟩) := by
  have h := Leb128.unsignedFrom_bytes (n := n.toNat) (s := 0) offset rest (by simp)
    (by simpa using n.toNat_lt) (by simp)
  simp [uleb128, h]

theorem sleb128_signedBytes (n : Int64) (offset : Nat) (rest : List UInt8) :
    sleb128 ⟨offset, Leb128.signedBytes n.toInt ++ rest⟩ =
      .ok (n, ⟨offset + (Leb128.signedBytes n.toInt).length, rest⟩) := by
  have h := Leb128.signedFrom_bytes (n := n.toInt) (s := 0) offset rest (by simp)
    (by simpa using n.le_toInt) (by simpa using n.toInt_lt) (by simp)
  simp [sleb128, h]

end Reader
end DwarfLines
