/-
  File:      TinyOS64/Print/Format.lean
  Subject:   myprint.cpp (toHex, toHex32, toUDec, format, snprintf) and `print` of main.cpp.

  A format string is read through a pointer: `format` gets the memory from that pointer on and
  stops at a 0 it meets as an ordinary character, so a string `s` is passed as `s ++ 0 :: beyond`
  with `beyond` what lies after the terminator. `none` is the end of defined behaviour: a read
  past the memory given, or a `va_arg` with no argument of the kind asked for.
-/
import TinyOS64.Print.PutLimitedString
import Mathlib.Logic.Function.Iterate

namespace TinyOS64

/-! ## 1. Numbers -/

/-- The loop of `toHex` and `toHex32`, which differ in the number of digits only. -/
def putHex {w : Nat} (digits : Nat) (output : PutLimitedString) (val : BitVec w) :
    PutLimitedString :=
  (List.range digits).foldl (fun output i =>
    let digit : BitVec 32 := ((val >>> ((digits - i - 1) * 4)) &&& BitVec.ofNat w 0x0F).setWidth 32
    if digit ≤ 9 then output.putc ((0x30 + digit).setWidth 16)
    else output.putc ((0x41 + digit - 10).setWidth 16)) output

/-- A 64-bit number as 16 hex digits. -/
def toHex (output : PutLimitedString) (val : BitVec 64) : PutLimitedString := putHex 16 output val

/-- A 32-bit number as 8 hex digits. -/
def toHex32 (output : PutLimitedString) (val : BitVec 32) : PutLimitedString := putHex 8 output val

/-- The inner loop of `toUDec`: every digit doubled, `overflow` carried from digit to digit. The
    second part is what the last digit carries out. -/
def doubleDigits : BitVec 8 → List (BitVec 8) → List (BitVec 8) × BitVec 8
  | overflow, [] => ([], overflow)
  | overflow, d :: ds =>
    let digit := (d <<< 1) ||| overflow
    if 10 ≤ digit then
      let rest := doubleDigits 1 ds
      ((digit - 10) :: rest.1, rest.2)
    else
      let rest := doubleDigits 0 ds
      (digit :: rest.1, rest.2)

/-- One round of the outer loop of `toUDec`, on `val` and the ten digits. -/
def toUDecRound (s : BitVec 32 × List (BitVec 8)) : BitVec 32 × List (BitVec 8) :=
  let overflow : BitVec 8 := if s.1 &&& 0x80000000 ≠ 0 then 1 else 0
  (s.1 <<< 1, (doubleDigits overflow s.2).1)

/-- `val` and `digits` after `s` rounds. -/
def toUDecRounds (s : Nat) (val : BitVec 32) : BitVec 32 × List (BitVec 8) :=
  toUDecRound^[s] (val, List.replicate 10 0)

/-- What the printing loop of `toUDec` carries along. -/
structure UDecOutput where
  output : PutLimitedString
  chars : Nat
  leadingZero : Bool

/-- One turn of the printing loop: leading zeros are counted but not put. -/
def putDigit (s : UDecOutput) (digit : BitVec 8) : UDecOutput :=
  if digit = 0#8 ∧ s.leadingZero then { s with chars := s.chars + 1 }
  else ⟨s.output.putc (digit.setWidth 16 + wchr '0'), s.chars + 1, false⟩

/-- A 32-bit number in decimal; the second part is the `chars` it returns. -/
def toUDec (output : PutLimitedString) (val : BitVec 32) : PutLimitedString × Nat :=
  let s := (toUDecRounds 32 val).2.reverse.foldl putDigit ⟨output, 0, true⟩
  if s.leadingZero then (s.output.putc (wchr '0'), s.chars + 1) else (s.output, s.chars)

/-! ## 2. Arguments -/

/-- A variadic argument. A string is given by the characters before its terminator. -/
inductive Arg where
  | u32 (v : BitVec 32)
  | u64 (v : BitVec 64)
  | str (s : List Byte)
  deriving DecidableEq, Repr

/-- `va_arg` of a 32-bit type: the low half of the eight-byte slot. -/
def vaArg32 : List Arg → Option (BitVec 32 × List Arg)
  | .u32 v :: va => some (v, va)
  | .u64 v :: va => some (v.setWidth 32, va)
  | _ => none

/-- `va_arg` of `uint64_t`. -/
def vaArg64 : List Arg → Option (BitVec 64 × List Arg)
  | .u64 v :: va => some (v, va)
  | _ => none

/-- `va_arg` of `char*`. -/
def vaArgStr : List Arg → Option (List Byte × List Arg)
  | .str s :: va => some (s, va)
  | _ => none

/-! ## 3. The formatter -/

/-- The loop of `%s`. -/
def putString : PutLimitedString → List Byte → PutLimitedString
  | output, [] => output
  | output, c :: s => if c = 0#8 then output else putString (output.putc (widen c)) s

/-- The case `%d`: a negative number is negated in 32 bits behind a minus sign. -/
def putSigned (output : PutLimitedString) (vtmp : BitVec 32) : PutLimitedString :=
  if vtmp &&& 0x80000000 ≠ 0 then (toUDec (output.putc (wchr '-')) (~~~vtmp + 1)).1
  else (toUDec output vtmp).1

/-- The switch over the directive's character. -/
def directive (output : PutLimitedString) (ch : Byte) (va : List Arg) :
    Option (PutLimitedString × List Arg) :=
  if ch = chr 'X' then (vaArg64 va).map fun (v, va) => (toHex output v, va)
  else if ch = chr 'x' then (vaArg32 va).map fun (v, va) => (toHex32 output v, va)
  else if ch = chr 'u' then (vaArg32 va).map fun (v, va) => ((toUDec output v).1, va)
  else if ch = chr 'd' then (vaArg32 va).map fun (v, va) => (putSigned output v, va)
  else if ch = chr 'c' then
    (vaArg32 va).map fun (v, va) => (output.putc (widen (v.setWidth 8)), va)
  else if ch = chr 's' then (vaArgStr va).map fun (s, va) => (putString output s, va)
  else if ch = chr '%' then some (output.putc (wchr '%'), va)
  else some (output.putc (wchr '?'), va)

/-- `format` on the memory at `fmt`. The directive's character is taken without a test, so a
    `%` before the terminator takes the terminator and the loop goes on behind it. -/
def format (output : PutLimitedString) : List Byte → List Arg → Option PutLimitedString
  | [], _ => none
  | ch :: fmt, va =>
    if ch = 0#8 then some output
    else if ch ≠ chr '%' then format (output.putc (widen ch)) fmt va
    else
      match fmt with
      | [] => none
      | ch :: fmt =>
        match directive output ch va with
        | none => none
        | some (output, va) => format output fmt va

section Equations

variable {output : PutLimitedString} {ch : Byte} {fmt : List Byte} {va : List Arg}

theorem format_zero : format output (0#8 :: fmt) va = some output := by
  cases fmt <;> simp [format]

theorem format_plain (h0 : ch ≠ 0#8) (h : ch ≠ chr '%') :
    format output (ch :: fmt) va = format (output.putc (widen ch)) fmt va := by
  rw [format.eq_def]
  simp only [h0, h, if_false, ne_eq, not_false_eq_true, if_true]

theorem format_percent : format output (chr '%' :: ch :: fmt) va =
    (directive output ch va).bind fun r => format r.1 fmt r.2 := by
  cases hput : directive output ch va with
  | none => simp [format, hput, chr]
  | some r => simp [format, hput, chr]

end Equations

/-- `snprintf`: the buffer it leaves and the length it returns. -/
def snprintf (s : WideBuffer) (n : BitVec 64) (fmt : List Byte) (va : List Arg) :
    Option (WideBuffer × Nat) :=
  (format (.make s n) fmt va).map fun outString =>
    (outString.terminate.m_buffer, outString.getLength)

/-- `sizeof(wchar_t)` with `-fshort-wchar`. -/
def sizeofWChar : Nat := 2

/-- The elements of the local buffer of `print`. -/
def printBufferLen : Nat := 256

/-- `print`: it passes `sizeof(buffer)`, the size of its buffer in bytes. -/
def print (cell : Nat → WChar) (fmt : List Byte) (va : List Arg) : Option (WideBuffer × Nat) :=
  snprintf (.fresh cell) (BitVec.ofNat 64 (printBufferLen * sizeofWChar)) fmt va

/-- What `print` returns for a format string of the driver. -/
def printCount (fmt : String) (va : List Arg) : Nat :=
  ((TinyOS64.print (fun _ => 0) (bytes fmt ++ [0#8]) va).map Prod.snd).getD 0

end TinyOS64
