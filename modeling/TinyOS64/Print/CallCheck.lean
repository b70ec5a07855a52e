/-
  File:      TinyOS64/Print/CallCheck.lean
  Subject:   A check of print calls that looks at the kinds of the arguments only.

  `textBound` reads a format string against the kinds of its arguments, as a compiler would: it
  fails where a directive finds no argument of its kind, and otherwise says how long the text can
  get. `textBound_sound` is what it promises for every argument of these kinds; `print_safe` is
  what that means for the buffer of `print`.
-/
import TinyOS64.Print.Snprintf
import TinyOS64.Lib.Digits

namespace TinyOS64

/-! ## 1. The check -/

/-- What the check knows of an argument; of a string its length. -/
inductive ArgKind where
  | word | long | text (length : Nat)
  deriving DecidableEq, Repr

@[simp] def Arg.kind : Arg → ArgKind
  | u32 _ => .word
  | u64 _ => .long
  | str s => .text (cString s).length

/-- An integer argument, whose directive puts at most `digits` characters. -/
def integerBound (digits : Nat) : List ArgKind → Option (Nat × List ArgKind)
  | .word :: kinds | .long :: kinds => some (digits, kinds)
  | _ => none

/-- The most one directive puts, and the kinds it leaves. -/
def directiveBound (ch : Byte) (kinds : List ArgKind) : Option (Nat × List ArgKind) :=
  if ch = chr 'X' then
    match kinds with
    | .long :: kinds => some (16, kinds)
    | _ => none
  else if ch = chr 'x' then integerBound 8 kinds
  else if ch = chr 'u' then integerBound 10 kinds
  else if ch = chr 'd' then integerBound 11 kinds
  else if ch = chr 'c' then integerBound 1 kinds
  else if ch = chr 's' then
    match kinds with
    | .text length :: kinds => some (length, kinds)
    | _ => none
  else some (1, kinds)

/-- The most a format string puts for arguments of these kinds. -/
def textBound : List Byte → List ArgKind → Option Nat
  | [], _ => some 0
  | ch :: fmt, kinds =>
    if ch = 0#8 then none
    else if ch ≠ chr '%' then (textBound fmt kinds).map (· + 1)
    else
      match fmt with
      | [] => none
      | ch :: fmt =>
        (directiveBound ch kinds).bind fun r => (textBound fmt r.2).map (r.1 + ·)

/-- The call passes the check with a text that fits the buffer of `print`. -/
def CallFits (fmt : String) (kinds : List ArgKind) : Prop :=
  ∃ n ∈ textBound (bytes fmt) kinds, n < printBufferLen

instance (fmt : String) (kinds : List ArgKind) : Decidable (CallFits fmt kinds) :=
  decidable_of_iff ((textBound (bytes fmt) kinds).any (· < printBufferLen) = true) (by
    unfold CallFits
    cases textBound (bytes fmt) kinds <;> simp)

/-! ## 2. What it promises -/

theorem decimal_length {n k : Nat} (hk : 0 < k) (h : n < 10 ^ k) : (decimal n).length ≤ k := by
  unfold decimal
  rw [List.length_map]
  exact Nat.toDigits_length 10 n k hk h

theorem signedDecimal_length (v : BitVec 32) : (signedDecimal v.toInt).length ≤ 11 := by
  have habs : v.toInt.natAbs < 10 ^ 10 := by
    have hlow := v.le_toInt
    have hhigh := v.toInt_lt
    omega
  have hlen := decimal_length (by decide) habs
  unfold signedDecimal
  split
  · exact Nat.succ_le_succ hlen
  · omega

theorem fixedHex_length (w n : Nat) : (fixedHex w n).length = w := by
  rw [fixedHex, List.length_map, List.length_range]

/-- An integer argument is found, and what is left is what the check goes on with. -/
theorem integerBound_sound {digits n : Nat} {va : List Arg} {kinds : List ArgKind}
    (h : integerBound digits (va.map Arg.kind) = some (n, kinds)) :
    n = digits ∧ ∃ v va', vaArg32 va = some (v, va') ∧ kinds = va'.map Arg.kind := by
  cases va with
  | nil => cases h
  | cons a va =>
      cases a with
      | str => cases h
      | u32 | u64 =>
          cases h
          exact ⟨rfl, _, va, rfl, rfl⟩

/-- What the check says of a directive is so: it finds its argument, puts no more than `n`
    characters, and leaves arguments of these kinds. -/
def DirectiveKeeps (ch : Byte) (va : List Arg) (n : Nat) (kinds : List ArgKind) : Prop :=
  DirectiveMatches ch va ∧ (renderDirective charCode ch va).1.length ≤ n ∧
    kinds = (renderDirective charCode ch va).2.map Arg.kind

section Directive

variable {ch : Byte} {va : List Arg} {n : Nat} {kinds : List ArgKind}

/-- A directive for an integer, which shows it as `shown`. -/
theorem directiveKeeps_integer {digits : Nat} (shown : BitVec 32 → List WChar)
    (h : integerBound digits (va.map Arg.kind) = some (n, kinds))
    (hlen : ∀ v, (shown v).length ≤ digits)
    (hch : ∀ v va', vaArg32 va = some (v, va') →
      DirectiveMatches ch va ∧ renderDirective charCode ch va = (shown v, va')) :
    DirectiveKeeps ch va n kinds := by
  obtain ⟨rfl, v, va', hv, rfl⟩ := integerBound_sound h
  obtain ⟨hmatch, hrender⟩ := hch v va' hv
  refine ⟨hmatch, ?_, ?_⟩
  · rw [hrender]
    exact hlen v
  · rw [hrender]

theorem directiveKeeps_long (h : directiveBound (chr 'X') (va.map Arg.kind) = some (n, kinds)) :
    DirectiveKeeps (chr 'X') va n kinds := by
  cases va with
  | nil => cases h
  | cons a va =>
      cases a with
      | u64 v =>
          cases h
          exact ⟨rfl, (fixedHex_length 16 _).le, rfl⟩
      | u32 | str => cases h

theorem directiveKeeps_string (h : directiveBound (chr 's') (va.map Arg.kind) = some (n, kinds)) :
    DirectiveKeeps (chr 's') va n kinds := by
  cases va with
  | nil => cases h
  | cons a va =>
      cases a with
      | str s =>
          cases h
          exact ⟨rfl, (List.length_map _).le, rfl⟩
      | u32 | u64 => cases h

/-- **One directive**: what the check says of it is so. -/
theorem directiveBound_sound (h : directiveBound ch (va.map Arg.kind) = some (n, kinds)) :
    DirectiveKeeps ch va n kinds := by
  by_cases hX : ch = chr 'X'
  · subst hX
    exact directiveKeeps_long h
  by_cases hs : ch = chr 's'
  · subst hs
    exact directiveKeeps_string h
  by_cases hx : ch = chr 'x'
  · subst hx
    refine directiveKeeps_integer (fun v => fixedHex 8 v.toNat) h
      (fun v => (fixedHex_length 8 _).le) fun v va' hv => ?_
    simp [DirectiveMatches, renderDirective, hv, chr]
  by_cases hu : ch = chr 'u'
  · subst hu
    refine directiveKeeps_integer (fun v => decimal v.toNat) h
      (fun v => decimal_length (by decide) (by have := v.isLt; omega)) fun v va' hv => ?_
    simp [DirectiveMatches, renderDirective, hv, chr]
  by_cases hd : ch = chr 'd'
  · subst hd
    refine directiveKeeps_integer (fun v => signedDecimal v.toInt) h
      signedDecimal_length fun v va' hv => ?_
    simp [DirectiveMatches, renderDirective, hv, chr]
  by_cases hc : ch = chr 'c'
  · subst hc
    refine directiveKeeps_integer (fun v => [charCode (v.setWidth 8)]) h
      (fun _ => Nat.le_refl 1) fun v va' hv => ?_
    simp [DirectiveMatches, renderDirective, hv, chr]
  · -- `%%` and every other character take no argument
    simp only [directiveBound, if_neg hX, if_neg hx, if_neg hu, if_neg hd, if_neg hc,
      if_neg hs] at h
    cases h
    simp only [DirectiveKeeps, DirectiveMatches, renderDirective, hX, hx, hu, hd, hc, hs, or_self,
      if_false]
    split <;> exact ⟨rfl, Nat.le_refl 1, rfl⟩

end Directive

/-- **The check is sound**: a call that passes it has matching arguments, and its text is no
    longer than the check says. -/
theorem textBound_sound {fmt : List Byte} {va : List Arg} {n : Nat}
    (h : textBound fmt (va.map Arg.kind) = some n) :
    Matches (fmt ++ [0#8]) va ∧ (reference fmt va).length ≤ n := by
  induction fmt, va using format_induction generalizing n with
  | hnil va => exact ⟨matches_zero, Nat.zero_le n⟩
  | hzero fmt va =>
      rw [textBound.eq_def] at h
      simp at h
  | hplain ch fmt va h0 hp ih =>
      rw [textBound.eq_def] at h
      simp only [h0, hp, if_false, ne_eq, not_false_eq_true, if_true] at h
      obtain ⟨m, hm, rfl⟩ := Option.map_eq_some_iff.mp h
      obtain ⟨hmatches, hlen⟩ := ih hm
      rw [List.cons_append, matches_plain h0 hp, reference, render_plain h0 hp]
      exact ⟨hmatches, Nat.succ_le_succ hlen⟩
  | hdangling va =>
      rw [textBound.eq_def] at h
      simp [chr] at h
  | hdirective ch fmt va ih =>
      have hpercent : chr '%' ≠ 0#8 := by decide
      rw [textBound.eq_def] at h
      simp only [hpercent, if_false, ne_eq, not_true_eq_false] at h
      obtain ⟨⟨m, kinds⟩, hdir, h⟩ := Option.bind_eq_some_iff.mp h
      obtain ⟨k, hk, rfl⟩ := Option.map_eq_some_iff.mp h
      obtain ⟨hmatches, hlen, rfl⟩ := directiveBound_sound hdir
      obtain ⟨hrest, hlens⟩ := ih hk
      refine ⟨⟨hmatches, hrest⟩, ?_⟩
      rw [reference, render_percent, List.length_append]
      exact Nat.add_le_add hlen hlens

/-! ## 3. The buffer of print -/

/-- A matching call whose text is too long for the buffer stores behind it. -/
theorem not_staysInside {cell : Nat → WChar} {fmt : List Byte} {va : List Arg}
    (hm : Matches fmt va) (hlong : printBufferLen ≤ (reference fmt va).length) :
    ¬ PrintStaysInside cell fmt va := by
  obtain ⟨buffer, hp, ht, _⟩ := print_eq cell hm
  intro h
  rcases h with ⟨b, count, hb, hin, _⟩
  rw [hp] at hb
  cases hb
  have hlen : 256 ≤ (reference fmt va).length := hlong
  exact absurd (hin 256 ((ht 256).mpr (by omega))) (Nat.lt_irrefl 256)

/-- **A call that passes the check keeps `print` inside its buffer.** -/
theorem CallFits.staysInside {fmt : String} {va : List Arg} (h : CallFits fmt (va.map Arg.kind))
    (cell : Nat → WChar) : PrintStaysInside cell (bytes fmt ++ [0#8]) va := by
  obtain ⟨n, hn, hlt⟩ := h
  obtain ⟨hm, hlen⟩ := textBound_sound hn
  have htext : reference (bytes fmt ++ [0#8]) va = reference (bytes fmt) va :=
    render_terminated charCode [] hm
  obtain ⟨buffer, hp, ht, h0⟩ := print_eq cell hm
  rw [htext] at hp ht h0
  have hlt : n < 256 := hlt
  refine ⟨buffer, _, hp, fun i hi => ?_, ?_, h0⟩
  · have := (ht i).mp hi
    show i < 256
    omega
  · show min 511 (reference (bytes fmt) va).length < 256
    omega

end TinyOS64
