/-
  File:      TinyOS64/Print/Numbers.lean
  Subject:   toHex, toHex32 and toUDec put the numerals of the reference rendering.

  * `toHex_eq`, `toHex32_eq` -- the digit loop puts the fixed-width hex digits;
  * `UDecInv`, `toUDecRounds_inv` -- the invariant of the shift-and-adjust loop: after `s` rounds
    the ten digits denote `val / 2 ^ (32 - s)`; `doubleDigits_eq` reads the byte loop as the
    doubling of a digit list;
  * `toUDecRounds_exact` -- with it, no round carries anything out of the tenth digit;
  * `toUDec_eq` -- the digits put are the canonical decimal numeral.
-/
import TinyOS64.Lib.Digits
import TinyOS64.Lib.WordFields
import TinyOS64.Print.Reference
import Mathlib.Tactic.IntervalCases

namespace TinyOS64

open WordFields

/-! ## 1. Hex digits -/

/-- The character the digit loop computes is the hex digit. -/
theorem hexDigit_eq {digit : BitVec 32} (h : digit.toNat < 16) :
    (if digit ≤ 9 then ((0x30 + digit).setWidth 16 : WChar)
      else (0x41 + digit - 10).setWidth 16) = hexDigit digit.toNat := by
  have all : ∀ d : Fin 16, (if BitVec.ofNat 32 d ≤ 9 then
      ((0x30 + BitVec.ofNat 32 d).setWidth 16 : WChar)
      else (0x41 + BitVec.ofNat 32 d - 10).setWidth 16) = hexDigit d := by decide
  have := all ⟨digit.toNat, h⟩
  simpa using this

/-- The nibble taken in turn `i`. -/
theorem nibble_toNat {w : Nat} (hw : 4 ≤ w) (val : BitVec w) (k : Nat) :
    (((val >>> (k * 4)) &&& BitVec.ofNat w 0x0F).setWidth 32).toNat = val.toNat / 16 ^ k % 16 := by
  have h15 : (BitVec.ofNat w 0x0F).toNat = 2 ^ 4 - 1 :=
    toNat_ofNat_of_lt (Nat.lt_of_lt_of_le (by decide) (Nat.pow_le_pow_right (by decide) hw))
  rw [BitVec.toNat_setWidth, toNat_field _ _ h15, Nat.mul_comm, Nat.pow_mul]
  have := Nat.mod_lt (val.toNat / (2 ^ 4) ^ k) (show 0 < 2 ^ 4 by decide)
  exact Nat.mod_eq_of_lt (by omega)

theorem putHex_eq {w : Nat} (hw : 4 ≤ w) (digits : Nat) (output : PutLimitedString)
    (val : BitVec w) : putHex digits output val = output.putAll (fixedHex digits val.toNat) := by
  unfold putHex fixedHex PutLimitedString.putAll
  rw [List.foldl_map]
  congr 1
  funext output i
  have hn := nibble_toNat hw val (digits - i - 1)
  have e : digits - 1 - i = digits - i - 1 := by omega
  rw [e, ← hn, ← hexDigit_eq (by rw [hn]; exact Nat.mod_lt _ (by decide))]
  exact (apply_ite output.putc _ _ _).symm

theorem toHex_eq (output : PutLimitedString) (val : BitVec 64) :
    toHex output val = output.putAll (fixedHex 16 val.toNat) := putHex_eq (by decide) 16 output val

theorem toHex32_eq (output : PutLimitedString) (val : BitVec 32) :
    toHex32 output val = output.putAll (fixedHex 8 val.toNat) := putHex_eq (by decide) 8 output val

/-! ## 2. The shift-and-adjust loop -/

/-- One digit shifted, with the carry in the freed bit. -/
theorem shiftDigit_toNat {d overflow : BitVec 8} (hd : d.toNat < 10) (ho : overflow.toNat ≤ 1) :
    ((d <<< 1) ||| overflow).toNat = 2 * d.toNat + overflow.toNat := by
  have all : ∀ d : Fin 10, ∀ o : Fin 2,
      ((BitVec.ofNat 8 d <<< 1) ||| BitVec.ofNat 8 o).toNat = 2 * d.val + o.val := by decide
  have := all ⟨d.toNat, hd⟩ ⟨overflow.toNat, by omega⟩
  simpa using this

/-- **The byte loop is the doubling of a digit list.** -/
theorem doubleDigits_eq {overflow : BitVec 8} {ds : List (BitVec 8)}
    (ho : overflow.toNat ≤ 1) (h : ∀ d ∈ ds, d.toNat < 10) :
    (doubleDigits overflow ds).1.map BitVec.toNat =
        (Digits.double 10 overflow.toNat (ds.map BitVec.toNat)).1 ∧
      (doubleDigits overflow ds).2.toNat =
        (Digits.double 10 overflow.toNat (ds.map BitVec.toNat)).2 := by
  induction ds generalizing overflow with
  | nil => exact ⟨rfl, rfl⟩
  | cons d ds ih =>
      have hd : d.toNat < 10 := h d List.mem_cons_self
      have hds : ∀ e ∈ ds, e.toNat < 10 := fun e he => h e (List.mem_cons_of_mem _ he)
      have hs := shiftDigit_toNat hd ho
      have hle : (10 : BitVec 8) ≤ (d <<< 1) ||| overflow ↔
          10 ≤ 2 * d.toNat + overflow.toNat := by rw [BitVec.le_def, hs]; rfl
      rw [doubleDigits, List.map_cons, Digits.double]
      by_cases hc : 10 ≤ 2 * d.toNat + overflow.toNat
      · obtain ⟨h₁, h₂⟩ := @ih 1 (by decide) hds
        have hsub : (((d <<< 1) ||| overflow) - 10).toNat = 2 * d.toNat + overflow.toNat - 10 := by
          rw [BitVec.toNat_sub_of_le (hle.mpr hc), hs]; rfl
        simp only [hle, hc, if_true, List.map_cons, hsub]
        exact ⟨by rw [h₁]; rfl, h₂⟩
      · obtain ⟨h₁, h₂⟩ := @ih 0 (by decide) hds
        simp only [hle, hc, if_false, List.map_cons, hs]
        exact ⟨by rw [h₁]; rfl, h₂⟩

/-- The digits' value; the first digit counts the units. -/
def digitsValue (ds : List (BitVec 8)) : Nat := Nat.ofDigits 10 (ds.map BitVec.toNat)

theorem toNat_small {ds : List (BitVec 8)} (h : ∀ d ∈ ds, d.toNat < 10) :
    ∀ n ∈ ds.map BitVec.toNat, n < 10 := by
  intro n hn
  obtain ⟨d, hd, rfl⟩ := List.mem_map.mp hn
  exact h d hd

section DoubleDigits

variable {overflow : BitVec 8} {ds : List (BitVec 8)}

theorem doubleDigits_length (ho : overflow.toNat ≤ 1) (h : ∀ d ∈ ds, d.toNat < 10) :
    (doubleDigits overflow ds).1.length = ds.length := by
  have hlen := congrArg List.length (doubleDigits_eq ho h).1
  rwa [List.length_map, Digits.double_length, List.length_map] at hlen

theorem doubleDigits_small (ho : overflow.toNat ≤ 1) (h : ∀ d ∈ ds, d.toNat < 10) :
    ∀ d ∈ (doubleDigits overflow ds).1, d.toNat < 10 := by
  intro d hd
  have hm : d.toNat ∈ (doubleDigits overflow ds).1.map BitVec.toNat := List.mem_map_of_mem hd
  rw [(doubleDigits_eq ho h).1] at hm
  exact Digits.double_lt ho (toNat_small h) _ hm

/-- **The inner loop is exact**: the new digits and the carry out denote twice the old value plus
    the carry in. -/
theorem doubleDigits_value (ho : overflow.toNat ≤ 1) (h : ∀ d ∈ ds, d.toNat < 10) :
    digitsValue (doubleDigits overflow ds).1 +
        10 ^ ds.length * (doubleDigits overflow ds).2.toNat =
      2 * digitsValue ds + overflow.toNat := by
  obtain ⟨h₁, h₂⟩ := doubleDigits_eq ho h
  have hdouble := Digits.double_value 10 overflow.toNat (ds.map BitVec.toNat)
  rwa [← h₁, ← h₂, List.length_map] at hdouble

/-- A doubled value that fits the digits leaves no carry. -/
theorem doubleDigits_carry (ho : overflow.toNat ≤ 1) (h : ∀ d ∈ ds, d.toNat < 10)
    (hfits : 2 * digitsValue ds + overflow.toNat < 10 ^ ds.length) :
    (doubleDigits overflow ds).2 = 0 := by
  have hcarry : (Digits.double 10 overflow.toNat (ds.map BitVec.toNat)).2 = 0 := by
    refine Digits.double_carry_zero ?_
    rw [List.length_map]
    exact hfits
  refine BitVec.eq_of_toNat_eq ?_
  rw [(doubleDigits_eq ho h).2, hcarry]
  rfl

end DoubleDigits

/-- **The invariant of the outer loop of `toUDec`** after `s` rounds. -/
structure UDecInv (val : BitVec 32) (s : Nat) (st : BitVec 32 × List (BitVec 8)) : Prop where
  length : st.2.length = 10
  small : ∀ d ∈ st.2, d.toNat < 10
  value : digitsValue st.2 = val.toNat / 2 ^ (32 - s)
  rest : st.1 = val <<< s

/-- The bit that leaves `val` in a round. -/
def overflowBit (v : BitVec 32) : BitVec 8 := if v &&& 0x80000000 ≠ 0 then 1 else 0

theorem topBit_iff (v : BitVec 32) : v &&& 0x80000000 ≠ 0 ↔ v.getLsbD 31 = true := by
  have e : (0x80000000 : BitVec 32) = BitVec.twoPow 32 31 := by decide
  rw [e, BitVec.and_twoPow]
  cases v.getLsbD 31 <;> decide

theorem overflowBit_shift (val : BitVec 32) {s : Nat} (hs : s < 32) :
    (overflowBit (val <<< s)).toNat = val.toNat / 2 ^ (31 - s) % 2 := by
  have hbit : (val <<< s).getLsbD 31 = val.getLsbD (31 - s) := by
    rw [BitVec.getLsbD_shiftLeft]
    simp [show ¬ 31 < s by omega]
  rw [overflowBit]
  simp only [topBit_iff, hbit]
  rw [BitVec.getLsbD, Nat.testBit, Nat.shiftRight_eq_div_pow, Nat.one_and_eq_mod_two]
  rcases Nat.mod_two_eq_zero_or_one (val.toNat / 2 ^ (31 - s)) with h | h <;> simp [h]

theorem digitsValue_lt_of_div {val : BitVec 32} {s : Nat} (hs : s < 32) :
    2 * (val.toNat / 2 ^ (32 - s)) + val.toNat / 2 ^ (31 - s) % 2 = val.toNat / 2 ^ (31 - s) := by
  have e : 32 - s = (31 - s) + 1 := by omega
  rw [e, pow_succ, ← Nat.div_div_eq_div_mul]
  omega

/-- What the tenth digit carries out in a round; `toUDec` does not look at it. -/
def carryOut (st : BitVec 32 × List (BitVec 8)) : BitVec 8 :=
  (doubleDigits (overflowBit st.1) st.2).2

/-- **One round**: the invariant moves on by one, and the tenth digit carries nothing out. -/
theorem UDecInv.round {val : BitVec 32} {s : Nat} {st : BitVec 32 × List (BitVec 8)}
    (hs : s < 32) (h : UDecInv val s st) :
    UDecInv val (s + 1) (toUDecRound st) ∧ carryOut st = 0 := by
  have hbit := overflowBit_shift val hs
  rw [← h.rest] at hbit
  have ho : (overflowBit st.1).toNat ≤ 1 := by rw [hbit]; omega
  have hval : 2 * digitsValue st.2 + (overflowBit st.1).toNat = val.toNat / 2 ^ (31 - s) := by
    rw [h.value, hbit]; exact digitsValue_lt_of_div hs
  -- ten digits are enough for every 32-bit number
  have hfits : val.toNat / 2 ^ (31 - s) < 10 ^ 10 :=
    Nat.lt_of_le_of_lt (Nat.div_le_self _ _) (Nat.lt_trans val.isLt (by decide))
  have hcarry : carryOut st = 0 :=
    doubleDigits_carry ho h.small (by rw [hval, h.length]; exact hfits)
  have hdouble := doubleDigits_value ho h.small
  rw [← carryOut, hcarry, show (0 : BitVec 8).toNat = 0 from rfl, Nat.mul_zero, Nat.add_zero,
    hval] at hdouble
  refine ⟨⟨?_, doubleDigits_small ho h.small, ?_, ?_⟩, hcarry⟩
  · exact (doubleDigits_length ho h.small).trans h.length
  · have e : 32 - (s + 1) = 31 - s := by omega
    rw [e]
    exact hdouble
  · show st.1 <<< 1 = val <<< (s + 1)
    rw [h.rest, ← BitVec.shiftLeft_add]

theorem toUDecRounds_inv (val : BitVec 32) {s : Nat} (hs : s ≤ 32) :
    UDecInv val s (toUDecRounds s val) := by
  induction s with
  | zero =>
      have hdigits : (toUDecRounds 0 val).2 = List.replicate 10 0 := rfl
      refine ⟨by rw [hdigits]; rfl, by rw [hdigits]; decide, ?_, by simp [toUDecRounds]⟩
      rw [hdigits, Nat.div_eq_of_lt val.isLt]
      decide
  | succ s ih =>
      rw [toUDecRounds, Function.iterate_succ_apply']
      exact ((ih (by omega)).round (by omega)).1

/-- **No digit is lost**: after `s` rounds the ten digits denote `val / 2 ^ (32 - s)`, and none of
    the rounds has carried anything out of the tenth. -/
theorem toUDecRounds_exact (val : BitVec 32) {s : Nat} (hs : s ≤ 32) :
    UDecInv val s (toUDecRounds s val) ∧ ∀ r < s, carryOut (toUDecRounds r val) = 0 := by
  refine ⟨toUDecRounds_inv val hs, fun r hr => ?_⟩
  have hr32 : r < 32 := Nat.lt_of_lt_of_le hr hs
  exact ((toUDecRounds_inv val (Nat.le_of_lt hr32)).round hr32).2

/-- The largest number after all rounds. -/
theorem toUDecRounds_exact_largest :
    UDecInv 0xFFFFFFFF 32 (toUDecRounds 32 0xFFFFFFFF) ∧
      digitsValue (toUDecRounds 32 0xFFFFFFFF).2 = 4294967295 ∧
      ∀ r < 32, carryOut (toUDecRounds r 0xFFFFFFFF) = 0 := by
  obtain ⟨hinv, hcarry⟩ := toUDecRounds_exact 0xFFFFFFFF (Nat.le_refl 32)
  exact ⟨hinv, hinv.value, hcarry⟩

/-! ## 3. The printing loop -/

/-- The character put for a digit. -/
def digitUnit (d : BitVec 8) : WChar := d.setWidth 16 + wchr '0'

theorem digitUnit_eq {d : BitVec 8} (h : d.toNat < 10) : digitUnit d = wchr d.toNat.digitChar := by
  have all : ∀ d : Fin 10, digitUnit (BitVec.ofNat 8 d) = wchr (Nat.digitChar d) := by decide
  have := all ⟨d.toNat, h⟩
  simpa using this

/-- Past the leading zeros every digit is put. -/
theorem putDigits_rest (output : PutLimitedString) (chars : Nat) (l : List (BitVec 8)) :
    (l.foldl putDigit ⟨output, chars, false⟩).output = output.putAll (l.map digitUnit) ∧
      (l.foldl putDigit ⟨output, chars, false⟩).leadingZero = false := by
  induction l generalizing output chars with
  | nil => exact ⟨rfl, rfl⟩
  | cons d l ih =>
      rw [List.foldl_cons, putDigit, if_neg (by simp)]
      exact ih _ _

/-- **The printing loop puts the digits without their leading zeros.** -/
theorem putDigits_eq (output : PutLimitedString) (chars : Nat) (l : List (BitVec 8)) :
    (l.foldl putDigit ⟨output, chars, true⟩).output =
        output.putAll ((l.dropWhile (· == 0#8)).map digitUnit) ∧
      (l.foldl putDigit ⟨output, chars, true⟩).leadingZero = (l.dropWhile (· == 0#8)).isEmpty := by
  induction l generalizing chars with
  | nil => exact ⟨rfl, rfl⟩
  | cons d l ih =>
      rw [List.foldl_cons, putDigit]
      by_cases hd : d = 0#8
      · rw [if_pos ⟨hd, rfl⟩, List.dropWhile_cons_of_pos (by simpa using hd)]
        exact ih _
      · rw [if_neg (fun h => hd h.1), List.dropWhile_cons_of_neg (by simpa using hd)]
        exact putDigits_rest _ _ _

theorem map_dropWhile_zero (l : List (BitVec 8)) :
    (l.dropWhile (· == 0#8)).map BitVec.toNat = (l.map BitVec.toNat).dropWhile (· == 0) := by
  induction l with
  | nil => rfl
  | cons d l ih =>
      by_cases hd : d = 0#8
      · subst hd
        exact ih
      · have hn : d.toNat ≠ 0 := fun e => hd (BitVec.eq_of_toNat_eq e)
        rw [List.dropWhile_cons_of_neg (by simpa using hd), List.map_cons,
          List.dropWhile_cons_of_neg (by simpa using hn)]

section Stripped

variable {val : BitVec 32} {st : BitVec 32 × List (BitVec 8)}

/-- After the last round the digits without their leading zeros are those of `val`. -/
theorem UDecInv.stripped (h : UDecInv val 32 st) :
    (st.2.reverse.dropWhile (· == 0#8)).map BitVec.toNat = (Nat.digits 10 val.toNat).reverse := by
  have hvalue : Nat.ofDigits 10 (st.2.map BitVec.toNat) = val.toNat := by
    have hdiv := h.value
    rwa [Nat.sub_self, pow_zero, Nat.div_one] at hdiv
  rw [map_dropWhile_zero, List.map_reverse,
    Digits.reverse_digits_ofDigits (by decide) (toNat_small h.small), hvalue]

/-- Nothing is left of them exactly for 0. -/
theorem UDecInv.stripped_nil (h : UDecInv val 32 st) :
    st.2.reverse.dropWhile (· == 0#8) = [] ↔ val.toNat = 0 := by
  rw [← List.map_eq_nil_iff, h.stripped, List.reverse_eq_nil_iff, Nat.digits_eq_nil_iff_eq_zero]

/-- Their characters are the numeral. -/
theorem UDecInv.units (h : UDecInv val 32 st) (h0 : val.toNat ≠ 0) :
    (st.2.reverse.dropWhile (· == 0#8)).map digitUnit = decimal val.toNat := by
  rw [decimal, Digits.toDigits_eq_digits (by decide) (Nat.pos_of_ne_zero h0), ← h.stripped,
    List.map_map, List.map_map]
  refine List.map_congr_left fun d hd => ?_
  have hm : d ∈ st.2 := List.mem_reverse.mp ((List.dropWhile_sublist _).subset hd)
  exact digitUnit_eq (h.small d hm)

end Stripped

/-- **`toUDec` puts the canonical decimal numeral.** -/
theorem toUDec_eq (output : PutLimitedString) (val : BitVec 32) :
    (toUDec output val).1 = output.putAll (decimal val.toNat) := by
  have inv := toUDecRounds_inv val (Nat.le_refl 32)
  obtain ⟨hout, hlead⟩ := putDigits_eq output 0 (toUDecRounds 32 val).2.reverse
  unfold toUDec
  by_cases h0 : val.toNat = 0
  · -- all digits are zero: nothing has been put and the single 0 follows
    have hempty := inv.stripped_nil.mpr h0
    simp only [hlead, hempty, List.isEmpty_nil, if_true, hout, h0]
    rfl
  · have hne := List.isEmpty_eq_false_iff.mpr (mt inv.stripped_nil.mp h0)
    simp only [hlead, hne, hout, inv.units h0]
    rfl

end TinyOS64
