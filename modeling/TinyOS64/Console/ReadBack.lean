/-
  File:      TinyOS64/Console/ReadBack.lean
  Subject:   Numbers printed by myprint.cpp and read back by valueFromStr.

  The writers put digits one by one, the decimal one by shift-and-adjust; the reader multiplies
  and accumulates. Both are about the same digit list, so a number that was printed whole is read
  back as itself (`print_read_back`).
-/
import TinyOS64.Console.Numerals
import TinyOS64.Print.Numbers

namespace TinyOS64

/-! ## 1. What has been put -/

/-- The characters put from the state `o` on. -/
def written (o o' : PutLimitedString) : List WChar :=
  (List.range (o'.m_idx - o.m_idx)).map fun k => o'.m_buffer.cell (o.m_idx + k)

/-- A wide text as the characters a command line holds. -/
def narrow (text : List WChar) : List Byte := text.map (·.setWidth 8)

/-- A text that fits is put whole. -/
theorem written_putAll (o : PutLimitedString) {text : List WChar}
    (h : o.m_idx + text.length ≤ o.m_maxIdx) : written o (o.putAll text) = text := by
  have htake : text.take (o.m_maxIdx - o.m_idx) = text := List.take_of_length_le (by omega)
  have hlen : o.m_idx + min (o.m_maxIdx - o.m_idx) text.length - o.m_idx = text.length := by omega
  rw [PutLimitedString.putAll_eq, htake]
  simp only [written, hlen]
  refine List.ext_getElem (by simp) fun k hk hk' => ?_
  rw [List.getElem_map, List.getElem_range]
  exact WideBuffer.storeAll_inside hk'

/-! ## 2. Numerals of the writers -/

theorem digitsOf_map (b : Nat) (unit : Nat → Byte) (hunit : ∀ d < b, digitIn b (unit d) = some d)
    {ds : List Nat} (hds : ∀ d ∈ ds, d < b) : digitsOf b (ds.map unit) = some ds := by
  induction ds with
  | nil => rfl
  | cons d ds ih =>
      rw [List.map_cons, digitsOf_cons, hunit d (hds d List.mem_cons_self),
        ih fun e he => hds e (List.mem_cons_of_mem _ he)]
      rfl

/-- The characters of a decimal numeral. -/
theorem digitIn_digitChar : ∀ d < 10, digitIn 10 ((wchr d.digitChar).setWidth 8) = some d := by
  decide

/-- The characters of a hexadecimal one. -/
theorem digitIn_hexDigit : ∀ d < 16, digitIn 16 ((hexDigit d).setWidth 8) = some d := by
  decide

theorem denotes_map (b : Nat) (unit : Nat → Byte) (hunit : ∀ d < b, digitIn b (unit d) = some d)
    {ds : List Nat} (hne : ds ≠ []) (hds : ∀ d ∈ ds, d < b) :
    denotes b (ds.map unit) = some (Nat.ofDigits b ds.reverse) := by
  rw [denotes, if_neg (fun h => hne (List.map_eq_nil_iff.mp h)), digitsOf_map b unit hunit hds]
  rfl

/-- **The decimal numeral of a number denotes it.** -/
theorem numeral_decimal (n : Nat) : numeral (narrow (decimal n)) = some n := by
  rcases Nat.eq_zero_or_pos n with rfl | hpos
  · decide
  · have hne : (Nat.digits 10 n).reverse ≠ [] := by
      rw [ne_eq, List.reverse_eq_nil_iff, Nat.digits_eq_nil_iff_eq_zero]
      omega
    have hlt : ∀ d ∈ (Nat.digits 10 n).reverse, d < 10 := fun d hd =>
      Nat.digits_lt_base (by decide) (List.mem_reverse.mp hd)
    have htext : narrow (decimal n) =
        (Nat.digits 10 n).reverse.map fun d => (wchr d.digitChar).setWidth 8 := by
      rw [narrow, decimal, Digits.toDigits_eq_digits (by decide) hpos, List.map_map, List.map_map]
      rfl
    have hden := denotes_map 10 _ digitIn_digitChar hne hlt
    rw [← htext, List.reverse_reverse, Nat.ofDigits_digits] at hden
    cases ht : narrow (decimal n) with
    | nil => rw [ht] at hden; cases hden
    | cons c cs =>
        have hc : c ≠ chr '$' := by
          intro hc
          rw [ht, hc, denotes, if_neg (List.cons_ne_nil _ _), digitsOf_cons] at hden
          cases hden
        rw [numeral, if_neg hc, ← ht, hden]

/-- **So many hexadecimal digits denote what they hold of the number.** -/
theorem numeral_fixedHex {w : Nat} (hw : w ≠ 0) (n : Nat) :
    numeral (chr '$' :: narrow (fixedHex w n)) = some (n % 16 ^ w) := by
  have hdigits : narrow (fixedHex w n) =
      ((List.range w).map fun i => n / 16 ^ (w - 1 - i) % 16).map
        fun d => (hexDigit d).setWidth 8 := by
    rw [narrow, fixedHex, List.map_map, List.map_map]
    rfl
  have hreverse : ((List.range w).map fun i => n / 16 ^ (w - 1 - i) % 16).reverse =
      (List.range w).map fun i => n / 16 ^ i % 16 := by
    refine List.ext_getElem (by simp) fun i hi hi' => ?_
    have hlt : i < w := by simpa using hi'
    have e : w - 1 - (w - 1 - i) = i := by omega
    simp [e]
  rw [numeral, if_pos rfl, hdigits, denotes_map 16 _ digitIn_hexDigit (by simpa using hw) ?_,
    hreverse, Digits.ofDigits_range]
  intro d hd
  obtain ⟨i, _, rfl⟩ := List.mem_map.mp hd
  exact Nat.mod_lt _ (by decide)

/-! ## 3. Reading back -/

/-- `valueFromStr` on a text of its own. -/
def parse (text : List Byte) : Except Fault (Option (BitVec 64)) :=
  valueFromStr (lineMemory text) ⟨some 0, text.length⟩

theorem parse_numeral {text : List Byte} {n : Nat} (hlen : text.length < 2 ^ 32)
    (h : numeral text = some n) : parse text = .ok (some (BitVec.ofNat 64 n)) := by
  have hview : (⟨some 0, text.length⟩ : View) = .ofSuffix text text text.length := by
    simp [View.ofSuffix]
  have hne : text ≠ [chr '$'] := by
    intro ht
    rw [ht] at h
    cases h
  rw [parse, hview, valueFromStr_eq List.suffix_rfl (Nat.le_refl _) hlen, List.take_length,
    takenFor, if_neg hne, h]
  rfl

/-- **What `put` prints is read back**: for a sink with room for all `chars` characters, the text
    put for a number, behind `mark`, is read as the number; different numbers print differently. -/
structure ReadsBack {w : Nat} (put : PutLimitedString → BitVec w → PutLimitedString)
    (mark : List Byte) (chars : BitVec w → Nat) : Prop where
  value : ∀ (output : PutLimitedString) (val : BitVec w),
    output.m_idx + chars val ≤ output.m_maxIdx →
    parse (mark ++ narrow (written output (put output val))) = .ok (some (val.setWidth 64))
  distinct : ∀ (output output' : PutLimitedString) (val val' : BitVec w),
    output.m_idx + chars val ≤ output.m_maxIdx → output'.m_idx + chars val' ≤ output'.m_maxIdx →
    written output (put output val) = written output' (put output' val') → val = val'

/-- A writer with a text for each number is read back when each text denotes its number. -/
theorem readsBack_of_text {w : Nat} {put : PutLimitedString → BitVec w → PutLimitedString}
    {mark : List Byte} {chars : BitVec w → Nat} (text : BitVec w → List WChar)
    (hput : ∀ output val, put output val = output.putAll (text val))
    (hchars : ∀ val, (text val).length = chars val)
    (hlen : ∀ val, (mark ++ narrow (text val)).length < 2 ^ 32)
    (hnum : ∀ val, numeral (mark ++ narrow (text val)) = some val.toNat) :
    ReadsBack put mark chars where
  value output val hroom := by
    rw [← hchars] at hroom
    rw [hput, written_putAll output hroom, parse_numeral (hlen val) (hnum val),
      BitVec.ofNat_toNat]
  distinct output output' val val' hroom hroom' h := by
    rw [← hchars] at hroom hroom'
    rw [hput, hput, written_putAll output hroom, written_putAll output' hroom'] at h
    have hnat : some val.toNat = some val'.toNat := by rw [← hnum val, h, hnum val']
    exact BitVec.eq_of_toNat_eq (Option.some.inj hnat)

/-- **What the program prints it can read back**: decimal, and behind a `$` both hexadecimal
    numerals, for every number. -/
theorem print_read_back :
    ReadsBack (fun output val => (toUDec output val).1) []
        (fun val => (Nat.toDigits 10 val.toNat).length) ∧
      ReadsBack toHex32 [chr '$'] (fun _ => 8) ∧ ReadsBack toHex [chr '$'] (fun _ => 16) := by
  have hlen : ∀ val : BitVec 32, ([] ++ narrow (decimal val.toNat)).length < 2 ^ 32 := by
    intro val
    have hten : (Nat.toDigits 10 val.toNat).length ≤ 10 :=
      Nat.toDigits_length 10 val.toNat 10 (by decide) (by omega)
    simp only [List.nil_append, narrow, decimal, List.length_map]
    omega
  refine ⟨?_, ?_, ?_⟩
  · exact readsBack_of_text (fun val => decimal val.toNat) toUDec_eq
      (fun val => List.length_map wchr) hlen fun val => numeral_decimal val.toNat
  · refine readsBack_of_text (fun val => fixedHex 8 val.toNat) toHex32_eq (fun val => rfl)
      (fun val => by simp [narrow, fixedHex]) fun val => ?_
    have hlt : val.toNat < 16 ^ 8 := val.isLt
    rw [List.singleton_append, numeral_fixedHex (by decide), Nat.mod_eq_of_lt hlt]
  · refine readsBack_of_text (fun val => fixedHex 16 val.toNat) toHex_eq (fun val => rfl)
      (fun val => by simp [narrow, fixedHex]) fun val => ?_
    have hlt : val.toNat < 16 ^ 16 := val.isLt
    rw [List.singleton_append, numeral_fixedHex (by decide), Nat.mod_eq_of_lt hlt]

end TinyOS64
