/-
  File:      TinyOS64/Lib/WordFields.lean
  Subject:   Machine words put together from fields by shifts and ORs.

  A field that lies below bit `k` has no bit in common with what is shifted there, so the OR of
  the two is their sum. Masks bound a field, and read it out again.
-/
import Mathlib.Algebra.Ring.Nat

namespace WordFields

variable {w k : Nat} {x y : BitVec w}

theorem and_toNat_le (x mask : BitVec w) : (x &&& mask).toNat ≤ mask.toNat := by
  rw [BitVec.toNat_and]
  exact Nat.and_le_right

theorem and_toNat_lt {mask : BitVec w} {n : Nat} (x : BitVec w) (h : mask.toNat < n) :
    (x &&& mask).toNat < n := Nat.lt_of_le_of_lt (and_toNat_le x mask) h

theorem or_toNat_lt (hx : x.toNat < 2 ^ k) (hy : y.toNat < 2 ^ k) : (x ||| y).toNat < 2 ^ k := by
  rw [BitVec.toNat_or]
  exact Nat.or_lt_two_pow hx hy

/-- A number that fits a word is its value. -/
theorem toNat_ofNat_of_lt {n : Nat} (h : n < 2 ^ w) : (BitVec.ofNat w n).toNat = n := by
  rw [BitVec.toNat_ofNat, Nat.mod_eq_of_lt h]

theorem ofNat_lt {n : Nat} (h : n < y.toNat) : BitVec.ofNat w n < y := by
  rw [BitVec.lt_def, BitVec.toNat_ofNat]
  exact Nat.lt_of_le_of_lt (Nat.mod_le _ _) h

/-- A shift that drops no bit is a product. -/
theorem toNat_shiftLeft_of_lt (h : x.toNat * 2 ^ k < 2 ^ w) :
    (x <<< k).toNat = x.toNat * 2 ^ k := by
  rw [BitVec.toNat_shiftLeft, Nat.shiftLeft_eq, Nat.mod_eq_of_lt h]

/-- A mask of low bits is a remainder. -/
theorem toNat_and_low (x : BitVec w) {m : BitVec w} {j : Nat} (h : m.toNat = 2 ^ j - 1) :
    (x &&& m).toNat = x.toNat % 2 ^ j := by
  rw [BitVec.toNat_and, h, Nat.and_two_pow_sub_one_eq_mod]

/-- **A field of a word**, shifted down and masked. -/
theorem toNat_field (x : BitVec w) (k : Nat) {m : BitVec w} {j : Nat}
    (h : m.toNat = 2 ^ j - 1) : ((x >>> k) &&& m).toNat = x.toNat / 2 ^ k % 2 ^ j := by
  rw [toNat_and_low _ h, BitVec.toNat_ushiftRight, Nat.shiftRight_eq_div_pow]

/-- A field holds the number found in its bits. -/
theorem field_eq (k : Nat) {m : BitVec w} {j : Nat} (hm : m.toNat = 2 ^ j - 1)
    (h : x.toNat / 2 ^ k % 2 ^ j = y.toNat) : (x >>> k) &&& m = y := by
  refine BitVec.eq_of_toNat_eq ?_
  rw [toNat_field x k hm, h]

/-- A mask of high bits clears the low ones. -/
theorem toNat_and_high (x : BitVec w) {m : BitVec w} {k : Nat} (h : m = BitVec.allOnes w <<< k) :
    (x &&& m).toNat = x.toNat / 2 ^ k * 2 ^ k := by
  have hx := x.isLt
  have hshift : x &&& m = (x >>> k) <<< k := by
    subst h
    refine BitVec.eq_of_getLsbD_eq fun i hi => ?_
    simp only [BitVec.getLsbD_and, BitVec.getLsbD_shiftLeft, BitVec.getLsbD_ushiftRight,
      BitVec.getLsbD_allOnes]
    by_cases hik : i < k
    · simp [hik]
    · have hlt : i - k < w := by omega
      have hback : k + (i - k) = i := by omega
      simp [hi, hik, hlt, hback]
  have hle : x.toNat / 2 ^ k * 2 ^ k < 2 ^ w := Nat.lt_of_le_of_lt (Nat.div_mul_le_self _ _) hx
  rw [hshift, toNat_shiftLeft_of_lt, BitVec.toNat_ushiftRight, Nat.shiftRight_eq_div_pow]
  rw [BitVec.toNat_ushiftRight, Nat.shiftRight_eq_div_pow]
  exact hle

/-- What lies below bit `k` has no bit in common with what is shifted there. -/
theorem shiftLeft_and (x : BitVec w) (hy : y.toNat < 2 ^ k) : (x <<< k) &&& y = 0 := by
  refine BitVec.eq_of_getLsbD_eq fun i hi => ?_
  rw [BitVec.getLsbD_and, BitVec.getLsbD_shiftLeft]
  by_cases hik : i < k
  · simp [hik]
  · have hpow : 2 ^ k ≤ 2 ^ i := Nat.pow_le_pow_right (by decide) (by omega)
    have hbit : y.getLsbD i = false := Nat.testBit_lt_two_pow (Nat.lt_of_lt_of_le hy hpow)
    simp [hbit]

/-- **Fields without a common bit**: the OR is the sum. -/
theorem toNat_or_of_and (h : x &&& y = 0) : (x ||| y).toNat = (x.toNat + y.toNat) % 2 ^ w := by
  rw [← BitVec.add_eq_or_of_and_eq_zero x y h, BitVec.toNat_add]

/-- **A shifted field and one below it**, modulo the word. -/
theorem toNat_shiftLeft_or (x : BitVec w) (hy : y.toNat < 2 ^ k) :
    ((x <<< k) ||| y).toNat = (x.toNat * 2 ^ k + y.toNat) % 2 ^ w := by
  rw [toNat_or_of_and (shiftLeft_and x hy), BitVec.toNat_shiftLeft, Nat.shiftLeft_eq,
    Nat.mod_add_mod]

/-- **A field put above a word of known value**, where all of it fits. -/
theorem toNat_field_above {n : Nat} (x : BitVec w) (hy : y.toNat = n) (hn : n < 2 ^ k)
    (hfit : x.toNat * 2 ^ k + n < 2 ^ w) : ((x <<< k) ||| y).toNat = x.toNat * 2 ^ k + n := by
  rw [toNat_shiftLeft_or x (hy ▸ hn), hy, Nat.mod_eq_of_lt hfit]

end WordFields
