/-
  File:      TinyOS64/Print/Rendering.lean
  Subject:   The formatter against the reference rendering.

  * `format_eq` -- on a matched format string the formatter puts, character by character, the
    rendering that reads a `char` as signed (`widen`); one induction along the string;
  * `snprintf_eq` -- so `snprintf` stores the first `n - 1` code units of it and a 0 behind them;
  * `render_widen` -- for ASCII that rendering is the reference.
-/
import TinyOS64.Print.Numbers

namespace TinyOS64

/-! ## 1. The directives -/

theorem putString_eq (output : PutLimitedString) (s : List Byte) :
    putString output s = output.putAll ((cString s).map widen) := by
  induction s generalizing output with
  | nil => rfl
  | cons c s ih =>
      rw [putString, cString]
      by_cases hc : c = 0#8
      · rw [if_pos hc, List.takeWhile_cons_of_neg (by simpa using hc)]
        rfl
      · rw [if_neg hc, List.takeWhile_cons_of_pos (by simpa using hc), List.map_cons,
          PutLimitedString.putAll_cons]
        exact ih _

/-- Two's complement: the sign is the top bit, and the negation is the absolute value. -/
theorem negated_toNat {v : BitVec 32} (h : v.getLsbD 31 = true) :
    v.toInt < 0 ∧ (~~~v + 1).toNat = v.toInt.natAbs := by
  have h31 : 2 ^ 31 ≤ v.toNat := Nat.ge_two_pow_of_testBit h
  have hint : v.toInt = (v.toNat : Int) - 2 ^ 32 := by
    rw [BitVec.toInt_eq_toNat_cond, if_neg (by omega)]; rfl
  have hlt := v.isLt
  refine ⟨by omega, ?_⟩
  have h1 : (1 : BitVec 32).toNat = 1 := rfl
  rw [BitVec.toNat_add, BitVec.toNat_not, hint, h1]
  omega

theorem nonneg_toInt {v : BitVec 32} (h : v.getLsbD 31 = false) :
    ¬ v.toInt < 0 ∧ v.toNat = v.toInt.natAbs := by
  have h31 : v.toNat < 2 ^ 31 := by
    refine Nat.lt_pow_two_of_testBit _ fun i hi => ?_
    by_cases e : i = 31
    · rw [e]; exact h
    · exact Nat.testBit_lt_two_pow (Nat.lt_of_lt_of_le v.isLt
        (Nat.pow_le_pow_right (by decide) (by omega)))
  have hint : v.toInt = (v.toNat : Int) := by
    rw [BitVec.toInt_eq_toNat_cond, if_pos (by omega)]
  rw [hint]
  exact ⟨by omega, rfl⟩

theorem putSigned_eq (output : PutLimitedString) (v : BitVec 32) :
    putSigned output v = output.putAll (signedDecimal v.toInt) := by
  rw [putSigned, signedDecimal]
  simp only [topBit_iff]
  cases h : v.getLsbD 31 with
  | true =>
      obtain ⟨hneg, habs⟩ := negated_toNat h
      rw [if_pos rfl, if_pos hneg, toUDec_eq, habs, PutLimitedString.putAll_cons]
  | false =>
      obtain ⟨hneg, habs⟩ := nonneg_toInt h
      rw [if_neg (by decide), if_neg hneg, toUDec_eq, habs]

/-- **A matched directive puts what it denotes.** -/
theorem directive_eq (output : PutLimitedString) {ch : Byte} {va : List Arg}
    (h : DirectiveMatches ch va) :
    directive output ch va =
      some (output.putAll (renderDirective widen ch va).1, (renderDirective widen ch va).2) := by
  unfold directive renderDirective
  unfold DirectiveMatches at h
  split
  · rename_i hX
    rw [if_pos hX] at h
    obtain ⟨⟨v, rest⟩, hv⟩ := Option.isSome_iff_exists.mp h
    simp [hv, toHex_eq]
  rename_i hX
  rw [if_neg hX] at h
  split
  · rename_i hx
    rw [if_pos (Or.inl hx)] at h
    obtain ⟨⟨v, rest⟩, hv⟩ := Option.isSome_iff_exists.mp h
    simp [hv, toHex32_eq]
  rename_i hx
  split
  · rename_i hu
    rw [if_pos (Or.inr (Or.inl hu))] at h
    obtain ⟨⟨v, rest⟩, hv⟩ := Option.isSome_iff_exists.mp h
    simp [hv, toUDec_eq]
  rename_i hu
  split
  · rename_i hd
    rw [if_pos (Or.inr (Or.inr (Or.inl hd)))] at h
    obtain ⟨⟨v, rest⟩, hv⟩ := Option.isSome_iff_exists.mp h
    simp [hv, putSigned_eq]
  rename_i hd
  split
  · rename_i hc
    rw [if_pos (Or.inr (Or.inr (Or.inr hc)))] at h
    obtain ⟨⟨v, rest⟩, hv⟩ := Option.isSome_iff_exists.mp h
    simp [hv]
  rename_i hc
  rw [if_neg (by simp [hx, hu, hd, hc])] at h
  split
  · rename_i hs
    rw [if_pos hs] at h
    obtain ⟨⟨s, rest⟩, hv⟩ := Option.isSome_iff_exists.mp h
    simp [hv, putString_eq]
  split
  · rfl
  · rfl

/-! ## 2. The format string -/

/-- **The formatter puts the signed-`char` rendering**, for every matched format string. -/
theorem format_eq (output : PutLimitedString) {fmt : List Byte} {va : List Arg}
    (h : Matches fmt va) : format output fmt va = some (output.putAll (render widen fmt va)) := by
  induction fmt, va using format_induction generalizing output with
  | hnil va => exact absurd h not_matches_nil
  | hzero fmt va => rw [format_zero, render_zero, PutLimitedString.putAll_nil]
  | hplain ch fmt va h0 hp ih =>
      rw [format_plain h0 hp, render_plain h0 hp]
      exact ih _ ((matches_plain h0 hp).mp h)
  | hdangling va => exact absurd h not_matches_dangling
  | hdirective ch fmt va ih =>
      obtain ⟨hd, hm⟩ := matches_percent.mp h
      rw [format_percent, directive_eq output hd, Option.bind_some,
        renderDirective_rest widen charCode, ih _ hm, render_percent,
        PutLimitedString.putAll_append, renderDirective_rest widen charCode]

/-- What `snprintf` leaves in the buffer for a text. -/
def stored (s : WideBuffer) (n : BitVec 64) (text : List WChar) : WideBuffer :=
  (s.storeAll 0 (text.take (n - 1).toNat)).store (min (n - 1).toNat text.length) 0

/-- **`snprintf` stores the text's first `n - 1` code units and a 0**, and returns their number. -/
theorem snprintf_eq (s : WideBuffer) (n : BitVec 64) {fmt : List Byte} {va : List Arg}
    (h : Matches fmt va) :
    snprintf s n fmt va =
      some (stored s n (render widen fmt va), min (n - 1).toNat (render widen fmt va).length) := by
  rw [snprintf, format_eq _ h, PutLimitedString.putAll_eq]
  simp [PutLimitedString.make, PutLimitedString.terminate, PutLimitedString.getLength, stored]

section Stored

variable {s : WideBuffer} {n : BitVec 64} {text : List WChar}

theorem stored_text {i : Nat} (hi : i < min (n - 1).toNat text.length) :
    (stored s n text).cell i = text[i] := by
  have hi' : i < (text.take (n - 1).toNat).length := by rw [List.length_take]; exact hi
  have h := WideBuffer.storeAll_inside (b := s) (i := 0) hi'
  rw [Nat.zero_add, List.getElem_take] at h
  rw [← h]
  exact if_neg (by omega)

theorem stored_terminator : (stored s n text).cell (min (n - 1).toNat text.length) = 0 :=
  if_pos rfl

/-- The indices stored to are those of the text kept and the one of the terminator. -/
theorem mem_touched_stored {i : Nat} : i ∈ (stored s n text).touched ↔
    i ∈ s.touched ∨ i ≤ min (n - 1).toNat text.length := by
  rw [stored, WideBuffer.store, List.mem_cons, WideBuffer.mem_touched_storeAll, List.length_take]
  refine ⟨fun h₀ => ?_, fun h₀ => ?_⟩
  · rcases h₀ with h | h | h
    · exact Or.inr (by omega)
    · exact Or.inl h
    · exact Or.inr (by omega)
  · rcases h₀ with h | h
    · exact Or.inr (Or.inl h)
    · rcases Nat.lt_or_eq_of_le h with h | h
      · exact Or.inr (Or.inr (by omega))
      · exact Or.inl h

end Stored

/-! ## 3. ASCII -/

/-- The directive `ch` is given ASCII: its character or the characters of its string. -/
def DirectiveAscii (ch : Byte) (va : List Arg) : Prop :=
  (ch = chr 'c' → ∀ p ∈ vaArg32 va, p.1.toNat < 128) ∧
    (ch = chr 's' → ∀ p ∈ vaArgStr va, ∀ c ∈ p.1, c.toNat < 128)

instance (ch : Byte) (va : List Arg) : Decidable (DirectiveAscii ch va) :=
  inferInstanceAs (Decidable (_ ∧ _))

/-- Every `%c` and `%s` of the format string is given ASCII. -/
def AsciiArgs : List Byte → List Arg → Prop
  | [], _ => True
  | ch :: fmt, va =>
    if ch = 0#8 then True
    else if ch ≠ chr '%' then AsciiArgs fmt va
    else
      match fmt with
      | [] => True
      | ch :: fmt => DirectiveAscii ch va ∧ AsciiArgs fmt (renderDirective charCode ch va).2

theorem asciiArgs_plain {ch : Byte} {fmt : List Byte} {va : List Arg} (h0 : ch ≠ 0#8)
    (h : ch ≠ chr '%') : AsciiArgs (ch :: fmt) va ↔ AsciiArgs fmt va := by
  rw [AsciiArgs.eq_def]
  simp [h0, h]

theorem asciiArgs_percent {ch : Byte} {fmt : List Byte} {va : List Arg} :
    AsciiArgs (chr '%' :: ch :: fmt) va ↔
      DirectiveAscii ch va ∧ AsciiArgs fmt (renderDirective charCode ch va).2 := Iff.rfl

/-- An ASCII `char` is not negative: widening it keeps its code. -/
theorem widen_ascii {c : Byte} (h : c.toNat < 128) : widen c = charCode c := by
  refine BitVec.signExtend_eq_setWidth_of_msb_false ?_
  rw [BitVec.msb_eq_decide]
  exact decide_eq_false (by omega)

theorem renderDirective_ascii {ch : Byte} {va : List Arg} (h : DirectiveAscii ch va) :
    (renderDirective widen ch va).1 = (renderDirective charCode ch va).1 := by
  obtain ⟨hc, hs⟩ := h
  unfold renderDirective
  by_cases h₁ : ch = chr 'c'
  · subst h₁
    cases hv : vaArg32 va with
    | none => rfl
    | some p =>
        obtain ⟨v, rest⟩ := p
        have hlt : v.toNat < 128 := hc rfl (v, rest) hv
        have hw : widen (v.setWidth 8) = charCode (v.setWidth 8) := by
          refine widen_ascii ?_
          rw [BitVec.toNat_setWidth]
          omega
        show [widen (v.setWidth 8)] = [charCode (v.setWidth 8)]
        rw [hw]
  · by_cases h₂ : ch = chr 's'
    · subst h₂
      cases hv : vaArgStr va with
      | none => rfl
      | some p =>
          obtain ⟨s, rest⟩ := p
          show (cString s).map widen = (cString s).map charCode
          refine List.map_congr_left fun c hcs => widen_ascii ?_
          exact hs rfl (s, rest) hv c ((List.takeWhile_sublist _).subset hcs)
    · simp only [h₁, h₂, if_false]

/-- **For ASCII the formatter's text is the reference rendering.** -/
theorem render_widen {fmt : List Byte} {va : List Arg} (hf : ∀ c ∈ fmt, c.toNat < 128)
    (ha : AsciiArgs fmt va) : render widen fmt va = reference fmt va := by
  unfold reference
  induction fmt, va using format_induction with
  | hnil va => rfl
  | hzero fmt va => simp
  | hplain ch fmt va h0 hp ih =>
      rw [render_plain h0 hp, render_plain h0 hp, widen_ascii (hf ch List.mem_cons_self),
        ih (fun c hc => hf c (List.mem_cons_of_mem _ hc)) ((asciiArgs_plain h0 hp).mp ha)]
  | hdangling va => rfl
  | hdirective ch fmt va ih =>
      obtain ⟨hd, ha⟩ := asciiArgs_percent.mp ha
      rw [render_percent, render_percent, renderDirective_ascii hd,
        renderDirective_rest widen charCode,
        ih (fun c hc => hf c (List.mem_cons_of_mem _ (List.mem_cons_of_mem _ hc))) ha]

end TinyOS64
