/-
  File:      TinyOS64/Print/FormatString.lean
  Subject:   How far `format` reads its format string (myprint.cpp).

  The loop tests each character it takes for the terminator, except the one behind a `%`. So a
  string is read once and not beyond its terminator exactly when the number of `%` at its end is
  even (`readsOnce_iff`); whether directives are known makes no difference.
-/
import TinyOS64.Print.Reference
import Mathlib.Data.List.DropRight

namespace TinyOS64

/-! ## 1. Reading once -/

/-- A part of a format string. A `%` by itself may show anything. -/
inductive Token where
  | plain (ch : Byte)
  | directive (ch : Byte)
  | lone (shown : List WChar)

/-- The characters of the part. -/
def Token.chars : Token → List Byte
  | plain ch => [ch]
  | directive ch => [chr '%', ch]
  | lone _ => [chr '%']

/-- The parts put one after the other, the directives with their arguments. -/
def putTokens : PutLimitedString → List Token → List Arg → Option PutLimitedString
  | output, [], _ => some output
  | output, .plain ch :: tokens, va => putTokens (output.putc (widen ch)) tokens va
  | output, .lone shown :: tokens, va => putTokens (output.putAll shown) tokens va
  | output, .directive ch :: tokens, va =>
    (TinyOS64.directive output ch va).bind fun r => putTokens r.1 tokens r.2

/-- **What `format` owes a format string**: it puts the parts the string consists of, each once,
    and stops, whatever lies behind the terminator, also where memory ends there. -/
def ReadsOnce (fmt : List Byte) : Prop :=
  ∃ tokens : List Token, tokens.flatMap Token.chars = fmt ∧
    ∀ output beyond va, format output (fmt ++ 0#8 :: beyond) va = putTokens output tokens va

/-- The number of `%` at the end of a string. -/
def trailingPercents (fmt : List Byte) : Nat := (fmt.rtakeWhile (· == chr '%')).length

/-! ## 2. The end of the string -/

section Trailing

variable {ch : Byte} {fmt : List Byte}

/-- How many `%` end a string that begins with `ch`. -/
theorem trailingPercents_cons : trailingPercents (ch :: fmt) =
    if trailingPercents fmt = fmt.length then
      if ch = chr '%' then fmt.length + 1 else fmt.length
    else trailingPercents fmt := by
  simp only [trailingPercents, List.rtakeWhile, List.length_reverse, List.reverse_cons,
    List.takeWhile_append]
  split
  · rename_i h
    by_cases hch : ch = chr '%'
    · simp [hch]
    · simp [hch]
  · rfl

theorem trailingPercents_le : trailingPercents fmt ≤ fmt.length :=
  (List.rtakeWhile_suffix _ _).length_le

/-- An ordinary character at the front does not count. -/
theorem trailingPercents_plain (h : ch ≠ chr '%') :
    trailingPercents (ch :: fmt) = trailingPercents fmt := by
  rw [trailingPercents_cons, if_neg h]
  split
  · rename_i hall
    exact hall.symm
  · rfl

/-- A directive at the front does not change the parity. -/
theorem trailingPercents_percent :
    trailingPercents (chr '%' :: ch :: fmt) % 2 = trailingPercents fmt % 2 := by
  have hle := @trailingPercents_le fmt
  rw [trailingPercents_cons, if_pos rfl, trailingPercents_cons, List.length_cons]
  by_cases hall : trailingPercents fmt = fmt.length
  · rw [if_pos hall]
    by_cases hch : ch = chr '%'
    · rw [if_pos hch, if_pos rfl]
      omega
    · rw [if_neg hch, if_neg (by omega)]
      omega
  · rw [if_neg hall, if_neg (by omega)]

end Trailing

/-! ## 3. Which strings are read once -/

/-- **An even number of `%` at the end**: the string falls into parts, and the formatter puts
    them. -/
theorem readsOnce_of_even {fmt : List Byte} (h0 : 0#8 ∉ fmt) (h : trailingPercents fmt % 2 = 0) :
    ReadsOnce fmt := by
  induction fmt, ([] : List Arg) using format_induction with
  | hnil va => exact ⟨[], rfl, fun output beyond va => format_zero⟩
  | hzero fmt va => exact absurd List.mem_cons_self h0
  | hplain ch fmt va hne hp ih =>
      rw [List.mem_cons, not_or] at h0
      rw [trailingPercents_plain hp] at h
      obtain ⟨tokens, hchars, hput⟩ := ih h0.2 h
      refine ⟨.plain ch :: tokens, ?_, fun output beyond va => ?_⟩
      · rw [List.flatMap_cons, hchars]
        rfl
      · rw [List.cons_append, format_plain hne hp, hput]
        rfl
  | hdangling va => exact absurd h (by decide)
  | hdirective ch fmt va ih =>
      rw [List.mem_cons, not_or, List.mem_cons, not_or] at h0
      rw [trailingPercents_percent] at h
      obtain ⟨tokens, hchars, hput⟩ := ih h0.2.2 h
      refine ⟨.directive ch :: tokens, ?_, fun output beyond va => ?_⟩
      · rw [List.flatMap_cons, hchars]
        rfl
      · rw [List.cons_append, List.cons_append, format_percent, putTokens]
        simp only [hput]

/-- **An odd number**: the last `%` takes the terminator, and the formatter goes on behind it. -/
theorem format_none_of_odd {fmt : List Byte} (h0 : 0#8 ∉ fmt)
    (h : trailingPercents fmt % 2 = 1) (output : PutLimitedString) (va : List Arg) :
    format output (fmt ++ [0#8]) va = none := by
  induction fmt, ([] : List Arg) using format_induction generalizing output va with
  | hnil va => exact absurd h (by decide)
  | hzero fmt va => exact absurd List.mem_cons_self h0
  | hplain ch fmt _ hne hp ih =>
      rw [List.mem_cons, not_or] at h0
      rw [trailingPercents_plain hp] at h
      rw [List.cons_append, format_plain hne hp]
      exact ih h0.2 h _ _
  | hdangling _ =>
      rw [List.singleton_append, format_percent]
      exact Option.bind_eq_none_iff.mpr fun r _ => by rw [format]
  | hdirective ch fmt _ ih =>
      rw [List.mem_cons, not_or, List.mem_cons, not_or] at h0
      rw [trailingPercents_percent] at h
      rw [List.cons_append, List.cons_append, format_percent]
      exact Option.bind_eq_none_iff.mpr fun r _ => ih h0.2.2 h _ _

/-- An argument for a directive, if it takes one. -/
def argFor (ch : Byte) : List Arg :=
  if ch = chr 's' then [.str []]
  else if ch = chr 'X' ∨ ch = chr 'x' ∨ ch = chr 'u' ∨ ch = chr 'd' ∨ ch = chr 'c' then [.u64 0]
  else []

theorem directive_argFor (output : PutLimitedString) (ch : Byte) :
    ∃ output', ∀ va, TinyOS64.directive output ch (argFor ch ++ va) = some (output', va) := by
  by_cases hs : ch = chr 's'
  · subst hs
    exact ⟨_, fun va => rfl⟩
  by_cases hn : ch = chr 'X' ∨ ch = chr 'x' ∨ ch = chr 'u' ∨ ch = chr 'd' ∨ ch = chr 'c'
  · rcases hn with rfl | rfl | rfl | rfl | rfl
    all_goals exact ⟨_, fun va => rfl⟩
  · have hnone : argFor ch = [] := (if_neg hs).trans (if_neg hn)
    simp only [not_or] at hn
    obtain ⟨hX, hx, hu, hd, hc⟩ := hn
    unfold TinyOS64.directive
    simp only [hnone, List.nil_append, if_neg hX, if_neg hx, if_neg hu, if_neg hd, if_neg hc,
      if_neg hs]
    by_cases hp : ch = chr '%'
    · exact ⟨_, fun va => if_pos hp⟩
    · exact ⟨_, fun va => if_neg hp⟩

/-- Some arguments suit any parts. -/
theorem exists_args (tokens : List Token) (output : PutLimitedString) :
    ∃ va, (putTokens output tokens va).isSome := by
  induction tokens generalizing output with
  | nil => exact ⟨[], rfl⟩
  | cons token tokens ih =>
      cases token with
      | plain ch => exact ih _
      | lone shown => exact ih _
      | directive ch =>
          obtain ⟨output', hput⟩ := directive_argFor output ch
          obtain ⟨va, hva⟩ := ih output'
          refine ⟨argFor ch ++ va, ?_⟩
          rw [putTokens, hput]
          exact hva

/-- A string that ends in an odd number of `%` is read beyond its terminator. -/
theorem not_readsOnce_of_odd {fmt : List Byte} (h0 : 0#8 ∉ fmt)
    (hodd : trailingPercents fmt % 2 = 1) : ¬ ReadsOnce fmt := by
  intro h
  obtain ⟨tokens, _, hput⟩ := h
  obtain ⟨va, hva⟩ := exists_args tokens ⟨.fresh fun _ => 0, 0, 0⟩
  -- the parts can be put, but memory that ends at the terminator is left
  rw [← hput _ [] va, format_none_of_odd h0 hodd] at hva
  exact absurd hva (by decide)

/-- **A format string is read once, and not beyond its terminator, exactly when** the number of `%`
    at its end is even. For every string without a 0. -/
theorem readsOnce_iff {fmt : List Byte} (h0 : 0#8 ∉ fmt) :
    ReadsOnce fmt ↔ trailingPercents fmt % 2 = 0 := by
  refine ⟨fun h => ?_, readsOnce_of_even h0⟩
  by_contra hodd
  exact not_readsOnce_of_odd h0 (Nat.mod_two_ne_zero.mp hodd) h

theorem readsOnce_iff_unknown :
    ReadsOnce (bytes "100%% %q") ↔ trailingPercents (bytes "100%% %q") % 2 = 0 :=
  readsOnce_iff (by decide)

/-- The shortest such string: its terminator is taken as a directive. -/
theorem readsOnce_percent : ¬ ReadsOnce (bytes "%") :=
  not_readsOnce_of_odd (by decide) (by decide)

end TinyOS64
