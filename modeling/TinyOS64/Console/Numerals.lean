/-
  File:      TinyOS64/Console/Numerals.lean
  Subject:   Which numbers valueFromStr reads from which parameters (commands.cpp).

  * `numeral` -- the number a text denotes: a non-empty run of decimal digits, or `$` and a
    non-empty run of hexadecimal ones;
  * `valueLoop_digits` -- the two accumulation loops are one loop over digits in base 10 or 16,
    modulo 2^64;
  * `valueFromStr_eq` -- what is read: the number modulo 2^64, and 0 for a `$` without digits;
  * `valueFromStr_exact_iff` -- when that is the number the text denotes.
-/
import TinyOS64.Console.Line
import TinyOS64.Lib.Digits
import TinyOS64.Lib.WordFields

namespace TinyOS64

open WordFields

/-! ## 1. What a text denotes -/

/-- The value of a character as a digit. -/
def digitOf (c : Byte) : Option Nat :=
  if chr '0' ≤ c ∧ c ≤ chr '9' then some (c.toNat - (chr '0').toNat)
  else if chr 'a' ≤ c ∧ c ≤ chr 'f' then some (c.toNat - (chr 'a').toNat + 10)
  else if chr 'A' ≤ c ∧ c ≤ chr 'F' then some (c.toNat - (chr 'A').toNat + 10)
  else none

/-- A digit of base `b`. -/
def digitIn (b : Nat) (c : Byte) : Option Nat := (digitOf c).filter (· < b)

/-- The digits of a text in base `b`, when it consists of such digits. -/
def digitsOf (b : Nat) (text : List Byte) : Option (List Nat) := text.mapM (digitIn b)

/-- The value of a non-empty run of digits in base `b`. -/
def denotes (b : Nat) (text : List Byte) : Option Nat :=
  if text = [] then none else (digitsOf b text).map fun ds => Nat.ofDigits b ds.reverse

/-- **The number a text denotes.** -/
def numeral : List Byte → Option Nat
  | [] => none
  | c :: cs => if c = chr '$' then denotes 16 cs else denotes 10 (c :: cs)

/-- The 64-bit value a text denotes: none for a number of 2^64 or more. -/
def exactValue (text : List Byte) : Option (BitVec 64) :=
  ((numeral text).filter (· < 2 ^ 64)).map (BitVec.ofNat 64)

/-- The number `valueFromStr` takes a text for: to it a `$` without digits is 0. -/
def takenFor (text : List Byte) : Option Nat := if text = [chr '$'] then some 0 else numeral text

theorem digitsOf_cons (b : Nat) (c : Byte) (cs : List Byte) :
    digitsOf b (c :: cs) = (digitIn b c).bind fun d => (digitsOf b cs).map (d :: ·) := by
  rw [digitsOf, List.mapM_cons]
  cases digitIn b c with
  | none => rfl
  | some d =>
      unfold digitsOf
      cases List.mapM (digitIn b) cs <;> rfl

/-! ## 2. The loops -/

/-- **The accumulation loop over digits of base `b`**, modulo 2^64. -/
theorem valueLoop_digits (b : Nat) (isDigit : Byte → Bool)
    (shiftIn : BitVec 64 → Byte → BitVec 64) (hdigit : ∀ c, isDigit c = (digitIn b c).isSome)
    (hshift : ∀ v c d, digitIn b c = some d →
      shiftIn (BitVec.ofNat 64 v) c = BitVec.ofNat 64 (b * v + d))
    {n : Nat} {cs : List Byte} (hn : n ≤ cs.length) (v : Nat) :
    valueLoop isDigit shiftIn n cs (BitVec.ofNat 64 v) =
      .ok ((digitsOf b (cs.take n)).map fun ds =>
        BitVec.ofNat 64 (ds.foldl (fun v d => b * v + d) v)) := by
  induction n generalizing cs v with
  | zero =>
      rw [List.take_zero]
      cases cs <;> rfl
  | succ n ih =>
      cases cs with
      | nil => exact absurd hn (by simp)
      | cons c cs =>
          rw [valueLoop, List.take_succ_cons, digitsOf_cons, hdigit]
          cases hc : digitIn b c with
          | none => rfl
          | some d =>
              rw [if_pos Option.isSome_some, hshift v c d hc, ih (Nat.le_of_succ_le_succ hn),
                Option.bind_some, Option.map_map]
              rfl

/-! ## 3. The two readers -/

/-- `valueFromDecStr` multiplies by ten and adds the digit. -/
theorem shiftIn_ten (v : Nat) (c : Byte) (d : Nat) (h : digitIn 10 c = some d) :
    BitVec.ofNat 64 v * 10 + (c - chr '0').setWidth 64 = BitVec.ofNat 64 (10 * v + d) := by
  have all : ∀ c : Byte, ∀ d ∈ digitIn 10 c, (c - chr '0').setWidth 64 = BitVec.ofNat 64 d := by
    decide +kernel
  rw [all c d h, Nat.mul_comm, BitVec.ofNat_add, BitVec.ofNat_mul]
  rfl

/-- `valueFromHexStr` shifts by four and ORs the digit in. -/
theorem shiftIn_sixteen (v : Nat) (c : Byte) (d : Nat) (h : digitIn 16 c = some d) :
    (BitVec.ofNat 64 v <<< 4) ||| (hexchar2value c).setWidth 64 = BitVec.ofNat 64 (16 * v + d) := by
  have all : ∀ c : Byte, ∀ d ∈ digitIn 16 c,
      d < 2 ^ 4 ∧ ((hexchar2value c).setWidth 64).toNat = d := by
    decide +kernel
  obtain ⟨hlt, hd⟩ := all c d h
  have hor := toNat_shiftLeft_or (BitVec.ofNat 64 v) (hd.trans_lt hlt)
  refine BitVec.eq_of_toNat_eq ?_
  rw [hor, hd, BitVec.toNat_ofNat, BitVec.toNat_ofNat]
  omega

theorem isNumeric_eq (c : Byte) : isNumeric c = (digitIn 10 c).isSome := by
  have all : ∀ c : Byte, isNumeric c = (digitIn 10 c).isSome := by decide +kernel
  exact all c

theorem isHex_eq (c : Byte) : isHex c = (digitIn 16 c).isSome := by
  have all : ∀ c : Byte, isHex c = (digitIn 16 c).isSome := by decide +kernel
  exact all c

section Readers

variable {line rest : List Byte} {n : Nat}

theorem valueFromDecStr_eq {cs : List Byte} (hn : n ≤ cs.length) (hlt : n < 2 ^ 32) :
    valueFromDecStr n cs =
      .ok ((digitsOf 10 (cs.take n)).map fun ds =>
        BitVec.ofNat 64 (Nat.ofDigits 10 ds.reverse)) := by
  have hmin : min n (2 ^ 32) = n := by omega
  have hloop := valueLoop_digits 10 isNumeric
    (fun value c => value * 10 + (c - chr '0').setWidth 64) isNumeric_eq shiftIn_ten hn 0
  simp only [Digits.foldl_eq_ofDigits, Nat.mul_zero, Nat.zero_add] at hloop
  unfold valueFromDecStr
  rw [hmin, show (0 : BitVec 64) = BitVec.ofNat 64 0 from rfl, hloop, Fault.ok_bind,
    if_neg (fun h => absurd h.2 (by omega))]
  rfl

theorem valueFromHexStr_eq {cs : List Byte} (hn : n ≤ cs.length) (hlt : n + 1 < 2 ^ 32) :
    valueFromHexStr (n + 1) cs =
      .ok ((digitsOf 16 (cs.take n)).map fun ds =>
        BitVec.ofNat 64 (Nat.ofDigits 16 ds.reverse)) := by
  have hmin : min (n + 1) (2 ^ 32) - 1 = n := by omega
  have hloop := valueLoop_digits 16 isHex
    (fun value c => (value <<< 4) ||| (hexchar2value c).setWidth 64) isHex_eq shiftIn_sixteen hn 0
  simp only [Digits.foldl_eq_ofDigits, Nat.mul_zero, Nat.zero_add] at hloop
  unfold valueFromHexStr
  rw [hmin, show (0 : BitVec 64) = BitVec.ofNat 64 0 from rfl, hloop, Fault.ok_bind, if_pos hlt]
  rfl

/-- **What valueFromStr reads**: the number it takes the text for, modulo 2^64. -/
theorem valueFromStr_eq (h : rest <:+ line) (hn : n ≤ rest.length) (hlt : n < 2 ^ 32) :
    valueFromStr (lineMemory line) (View.ofSuffix line rest n) =
      .ok ((takenFor (rest.take n)).map (BitVec.ofNat 64)) := by
  unfold valueFromStr
  rw [ofSuffix_chars h, ofSuffix_size, Fault.ok_bind]
  cases n with
  | zero => rfl
  | succ n =>
      rw [if_neg (Nat.succ_ne_zero n)]
      cases rest with
      | nil => exact absurd hn (by simp)
      | cons c cs =>
          have hn : n ≤ cs.length := Nat.le_of_succ_le_succ hn
          have hcs : (cs ++ [0#8]).take n = cs.take n := List.take_append_of_le_length hn
          have hle : n ≤ (cs ++ [0#8]).length := by rw [List.length_append]; omega
          rw [List.take_succ_cons, List.cons_append]
          dsimp only
          by_cases hc : c = chr '$'
          · rw [if_pos hc, valueFromHexStr_eq hle hlt, hcs, takenFor, numeral, if_pos hc, denotes]
            by_cases hnil : cs.take n = []
            · rw [hnil, hc]
              rfl
            · rw [if_neg hnil, if_neg (fun h => hnil (List.cons.inj h).2), Option.map_map]
              rfl
          · have hle' : n + 1 ≤ (c :: (cs ++ [0#8])).length := Nat.succ_le_succ hle
            rw [if_neg hc, valueFromDecStr_eq hle' hlt, List.take_succ_cons, hcs, takenFor, numeral,
              if_neg hc, denotes, if_neg (List.cons_ne_nil _ _),
              if_neg (fun h => hc (List.cons.inj h).1), Option.map_map]
            rfl

/-- **A parameter is read as the number it denotes exactly when it is not a bare `$` and its
    number is below 2^64**: then the value read is that number, and there is none for a text that
    is no numeral. -/
theorem valueFromStr_exact_iff (h : rest <:+ line) (hn : n ≤ rest.length) (hlt : n < 2 ^ 32) :
    valueFromStr (lineMemory line) (View.ofSuffix line rest n) = .ok (exactValue (rest.take n)) ↔
      rest.take n ≠ [chr '$'] ∧ ∀ v, numeral (rest.take n) = some v → v < 2 ^ 64 := by
  rw [valueFromStr_eq h hn hlt]
  generalize rest.take n = text
  refine ⟨fun he => ?_, fun hexact => ?_⟩
  · have he := Except.ok.inj he
    have hne : text ≠ [chr '$'] := by
      intro ht
      rw [ht] at he
      cases he
    refine ⟨hne, fun v hv => ?_⟩
    by_contra hge
    rw [takenFor, if_neg hne, exactValue, hv, Option.filter_some, decide_eq_false hge] at he
    cases he
  · obtain ⟨hne, hall⟩ := hexact
    rw [takenFor, if_neg hne, exactValue]
    cases hv : numeral text with
    | none => rfl
    | some v => rw [Option.filter_some, decide_eq_true (hall v hv), if_pos rfl]

theorem valueFromStr_exact_iff_hex :
    valueFromStr (lineMemory (bytes "node $2a 7"))
          (.ofSuffix (bytes "node $2a 7") (bytes "$2a 7") 3) =
        .ok (exactValue ((bytes "$2a 7").take 3)) ↔
      (bytes "$2a 7").take 3 ≠ [chr '$'] ∧
        ∀ v, numeral ((bytes "$2a 7").take 3) = some v → v < 2 ^ 64 :=
  valueFromStr_exact_iff ⟨bytes "node ", by decide⟩ (by decide) (by decide)

/-- A `$` without digits is read as 0, and so is 2^64. -/
theorem valueFromStr_inexact :
    valueFromStr (lineMemory (bytes "$")) (.ofSuffix (bytes "$") (bytes "$") 1) ≠
        .ok (exactValue (bytes "$")) ∧
      valueFromStr (lineMemory (bytes "18446744073709551616"))
          (.ofSuffix (bytes "18446744073709551616") (bytes "18446744073709551616") 20) ≠
        .ok (exactValue (bytes "18446744073709551616")) := by
  decide +kernel

end Readers

end TinyOS64
