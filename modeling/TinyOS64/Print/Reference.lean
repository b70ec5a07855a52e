/-
  File:      TinyOS64/Print/Reference.lean
  Subject:   What a format string and its arguments SAY: the reference rendering.

  Independent of the formatter's loops: numbers are core's numerals (`Nat.toDigits`) or fixed-width
  hex digits, strings and characters are themselves. `render` takes the reading of a character as
  a code unit as a parameter; `reference` reads it as the character's own code, which is what the
  text means for ASCII.
-/
import TinyOS64.Print.Format
import Mathlib.Algebra.Ring.Nat

namespace TinyOS64

/-- The canonical decimal numeral of `n`. -/
def decimal (n : Nat) : List WChar := (Nat.toDigits 10 n).map wchr

/-- The canonical signed decimal numeral of `z`. -/
def signedDecimal (z : Int) : List WChar :=
  if z < 0 then wchr '-' :: decimal z.natAbs else decimal z.natAbs

/-- The upper-case hex digit of value `d`. -/
def hexDigit (d : Nat) : WChar := wchr ("0123456789ABCDEF".toList.getD d '?')

/-- Exactly `w` hex digits of `n`, the most significant first. -/
def fixedHex (w n : Nat) : List WChar :=
  (List.range w).map fun i => hexDigit (n / 16 ^ (w - 1 - i) % 16)

/-- A character's code as a code unit. -/
def charCode (c : Byte) : WChar := c.setWidth 16

/-- The characters of a C string: those before the first 0. -/
def cString (s : List Byte) : List Byte := s.takeWhile (· ≠ 0#8)

/-- What one directive shows of the arguments, and the arguments it leaves. `unit` reads a
    character as a code unit. -/
def renderDirective (unit : Byte → WChar) (ch : Byte) (va : List Arg) : List WChar × List Arg :=
  if ch = chr 'X' then
    match vaArg64 va with
    | some (v, va) => (fixedHex 16 v.toNat, va)
    | none => ([], va)
  else if ch = chr 'x' then
    match vaArg32 va with
    | some (v, va) => (fixedHex 8 v.toNat, va)
    | none => ([], va)
  else if ch = chr 'u' then
    match vaArg32 va with
    | some (v, va) => (decimal v.toNat, va)
    | none => ([], va)
  else if ch = chr 'd' then
    match vaArg32 va with
    | some (v, va) => (signedDecimal v.toInt, va)
    | none => ([], va)
  else if ch = chr 'c' then
    match vaArg32 va with
    | some (v, va) => ([unit (v.setWidth 8)], va)
    | none => ([], va)
  else if ch = chr 's' then
    match vaArgStr va with
    | some (s, va) => ((cString s).map unit, va)
    | none => ([], va)
  else if ch = chr '%' then ([wchr '%'], va)
  else ([wchr '?'], va)

/-- The text a format string and its arguments denote. -/
def render (unit : Byte → WChar) : List Byte → List Arg → List WChar
  | [], _ => []
  | ch :: fmt, va =>
    if ch = 0#8 then []
    else if ch ≠ chr '%' then unit ch :: render unit fmt va
    else
      match fmt with
      | [] => []
      | ch :: fmt =>
        (renderDirective unit ch va).1 ++ render unit fmt (renderDirective unit ch va).2

/-- The reference rendering. -/
def reference (fmt : List Byte) (va : List Arg) : List WChar := render charCode fmt va

/-- The directive `ch` finds an argument of its kind. -/
def DirectiveMatches (ch : Byte) (va : List Arg) : Prop :=
  if ch = chr 'X' then (vaArg64 va).isSome
  else if ch = chr 'x' ∨ ch = chr 'u' ∨ ch = chr 'd' ∨ ch = chr 'c' then (vaArg32 va).isSome
  else if ch = chr 's' then (vaArgStr va).isSome
  else True

instance (ch : Byte) (va : List Arg) : Decidable (DirectiveMatches ch va) := by
  unfold DirectiveMatches; infer_instance

/-- Read from this memory the format string ends at a 0, every `%` before it is followed by its
    directive, and every directive finds its argument. For `fmt ++ [0]` with no 0 in `fmt` this
    says that each `%` of `fmt` is followed by a character and the arguments match. -/
def Matches : List Byte → List Arg → Prop
  | [], _ => False
  | ch :: fmt, va =>
    if ch = 0#8 then True
    else if ch ≠ chr '%' then Matches fmt va
    else
      match fmt with
      | [] => False
      | ch :: fmt => DirectiveMatches ch va ∧ Matches fmt (renderDirective charCode ch va).2

/-! ## 1. One character, one directive -/

section Equations

variable {unit : Byte → WChar} {ch : Byte} {fmt : List Byte} {va : List Arg}

@[simp] theorem render_zero : render unit (0#8 :: fmt) va = [] := by
  cases fmt <;> simp [render]

theorem render_plain (h0 : ch ≠ 0#8) (h : ch ≠ chr '%') :
    render unit (ch :: fmt) va = unit ch :: render unit fmt va := by
  cases fmt <;> simp [render, h0, h]

theorem render_percent : render unit (chr '%' :: ch :: fmt) va =
    (renderDirective unit ch va).1 ++ render unit fmt (renderDirective unit ch va).2 := rfl

@[simp] theorem matches_zero : Matches (0#8 :: fmt) va := by
  cases fmt <;> simp [Matches]

theorem matches_plain (h0 : ch ≠ 0#8) (h : ch ≠ chr '%') :
    Matches (ch :: fmt) va ↔ Matches fmt va := by
  cases fmt <;> simp [Matches, h0, h]

theorem matches_percent : Matches (chr '%' :: ch :: fmt) va ↔
    DirectiveMatches ch va ∧ Matches fmt (renderDirective charCode ch va).2 := Iff.rfl

theorem not_matches_nil : ¬ Matches [] va := id

theorem not_matches_dangling : ¬ Matches [chr '%'] va := id

end Equations

instance decidableMatches : (fmt : List Byte) → (va : List Arg) → Decidable (Matches fmt va)
  | [], _ => .isFalse not_matches_nil
  | ch :: fmt, va =>
    if h0 : ch = 0#8 then .isTrue (h0 ▸ matches_zero)
    else if h : ch ≠ chr '%' then
      have := decidableMatches fmt va
      decidable_of_iff _ (matches_plain h0 h).symm
    else
      match fmt with
      | [] => .isFalse (of_not_not h ▸ not_matches_dangling)
      | d :: fmt =>
        have := decidableMatches fmt (renderDirective charCode d va).2
        decidable_of_iff
          (DirectiveMatches d va ∧ Matches fmt (renderDirective charCode d va).2)
          (by rw [of_not_not h]; exact matches_percent.symm)

/-- **Induction along a format string**: its end, a terminator, an ordinary character, a `%` with
    nothing behind it, a directive. -/
theorem format_induction {P : List Byte → List Arg → Prop} (hnil : ∀ va, P [] va)
    (hzero : ∀ fmt va, P (0#8 :: fmt) va)
    (hplain : ∀ ch fmt va, ch ≠ 0#8 → ch ≠ chr '%' → P fmt va → P (ch :: fmt) va)
    (hdangling : ∀ va, P [chr '%'] va)
    (hdirective : ∀ ch fmt va, P fmt (renderDirective charCode ch va).2 →
      P (chr '%' :: ch :: fmt) va) (fmt : List Byte) (va : List Arg) : P fmt va := by
  induction fmt, va using render.induct charCode with
  | case1 va => exact hnil va
  | case2 fmt va => exact hzero fmt va
  | case3 ch fmt va h0 h ih => exact hplain ch fmt va h0 h ih
  | case4 ch va h0 h =>
      rw [show ch = chr '%' from of_not_not h]
      exact hdangling va
  | case5 ch va h0 h ch' fmt ih =>
      rw [show ch = chr '%' from of_not_not h]
      exact hdirective ch' fmt va ih

/-- **Ordinary characters** are themselves. -/
theorem render_literal {unit : Byte → WChar} {text : List Byte} (h0 : 0#8 ∉ text)
    (h : chr '%' ∉ text) (fmt : List Byte) (va : List Arg) :
    render unit (text ++ fmt) va = text.map unit ++ render unit fmt va := by
  induction text with
  | nil => rfl
  | cons c text ih =>
      rw [List.mem_cons, not_or] at h0 h
      rw [List.cons_append, render_plain (Ne.symm h0.1) (Ne.symm h.1), ih h0.2 h.2]
      rfl

/-! ## 2. What the rendering does not depend on -/

/-- The arguments a directive leaves do not depend on the reading of characters. -/
theorem renderDirective_rest (unit unit' : Byte → WChar) (ch : Byte) (va : List Arg) :
    (renderDirective unit ch va).2 = (renderDirective unit' ch va).2 := by
  unfold renderDirective
  cases vaArg64 va <;> cases vaArg32 va <;> cases vaArgStr va <;> grind

theorem renderDirective_length (unit unit' : Byte → WChar) (ch : Byte) (va : List Arg) :
    (renderDirective unit ch va).1.length = (renderDirective unit' ch va).1.length := by
  unfold renderDirective
  cases vaArg64 va <;> cases vaArg32 va <;> cases vaArgStr va <;> grind

/-- The length of the text does not depend on the reading of characters. -/
theorem render_length (unit : Byte → WChar) (fmt : List Byte) (va : List Arg) :
    (render unit fmt va).length = (reference fmt va).length := by
  unfold reference
  induction fmt, va using format_induction with
  | hnil va => rfl
  | hzero fmt va => simp
  | hplain ch fmt va h0 h ih => simp [render_plain h0 h, ih]
  | hdangling va => rfl
  | hdirective ch fmt va ih =>
      rw [render_percent, render_percent, List.length_append, List.length_append,
        renderDirective_length unit charCode, renderDirective_rest unit charCode, ih]

/-- What lies behind the terminator of a matched string is not looked at. -/
theorem matches_beyond {fmt : List Byte} {va : List Arg} (beyond : List Byte)
    (h : Matches fmt va) : Matches (fmt ++ beyond) va := by
  induction fmt, va using format_induction with
  | hnil va => exact absurd h not_matches_nil
  | hzero fmt va => simp
  | hplain ch fmt va h0 hp ih =>
      rw [List.cons_append, matches_plain h0 hp]
      exact ih ((matches_plain h0 hp).mp h)
  | hdangling va => exact absurd h not_matches_dangling
  | hdirective ch fmt va ih => exact ⟨h.1, ih h.2⟩

/-- The text of a matched string in memory is the text of the string. -/
theorem render_terminated (unit : Byte → WChar) {fmt : List Byte} {va : List Arg}
    (beyond : List Byte) (h : Matches (fmt ++ [0#8]) va) :
    render unit (fmt ++ 0#8 :: beyond) va = render unit fmt va := by
  induction fmt, va using format_induction with
  | hnil va => rw [List.nil_append, render_zero]; rfl
  | hzero fmt va => rw [List.cons_append, render_zero, render_zero]
  | hplain ch fmt va h0 hp ih =>
      rw [List.cons_append, render_plain h0 hp, render_plain h0 hp,
        ih ((matches_plain h0 hp).mp h)]
  | hdangling va => exact absurd h.2 not_matches_nil
  | hdirective ch fmt va ih =>
      rw [List.cons_append, List.cons_append, render_percent, render_percent,
        renderDirective_rest unit charCode, ih h.2]

end TinyOS64
