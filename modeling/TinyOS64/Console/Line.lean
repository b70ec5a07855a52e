/-
  File:      TinyOS64/Console/Line.lean
  Subject:   Reading a console line: getCommand, findNextParam, valueFromStr (commands.cpp).

  A `string_view` is a pointer and a size. The pointers of a line's views are offsets into the
  memory of the line, `line ++ [0]`; a default-constructed view has no pointer. A read through
  a view without pointer, or past the terminator, is a `Fault`.
-/
import TinyOS64.Print.PutLimitedString
import Mathlib.Algebra.Ring.Nat
import Mathlib.Data.List.TakeWhile

namespace TinyOS64

/-! ## 1. Views -/

/-- What a command handler can do that is not defined. -/
inductive Fault where
  /-- A character read through a view (or a pointer taken from a view) that has no pointer. -/
  | nullView
  /-- A character read past the terminator of the line. -/
  | pastTerminator
  /-- A null pointer out of a table of strings. -/
  | nullString
  /-- A vector indexed beyond its size. -/
  | outOfRange
  /-- A firmware structure reached through a null pointer. -/
  | nullPointer
  /-- A loop that does not end, or has not ended within the polls it was given. -/
  | unfinished
  deriving DecidableEq, Repr

/-- A fault in reading the line. -/
def Fault.OnLine (f : Fault) : Prop := f = .nullView ∨ f = .pastTerminator

instance : DecidablePred Fault.OnLine := fun f =>
  inferInstanceAs (Decidable (f = .nullView ∨ f = .pastTerminator))

theorem Fault.ok_bind {α β : Type} (a : α) (f : α → Except Fault β) :
    (Except.ok a >>= f) = f a := rfl

/-- `std::string_view`; `data` is an offset into the line's memory, `none` a null pointer. -/
structure View where
  data : Option Nat := none
  size : Nat := 0
  deriving DecidableEq, Repr

namespace View

/-- The part of a view from `start` on, `n` characters long. -/
def sub (v : View) (start n : Nat) : View := ⟨v.data.map (· + start), n⟩

/-- The memory from the view's first character on. -/
def chars (mem : List Byte) (v : View) : Except Fault (List Byte) :=
  match v.data with
  | none => .error .nullView
  | some p => .ok (mem.drop p)

/-- The characters of a view, read one by one. -/
def text (mem : List Byte) (v : View) : Except Fault (List Byte) :=
  if v.size = 0 then .ok []
  else do
    let cs ← v.chars mem
    if v.size ≤ cs.length then .ok (cs.take v.size) else .error .pastTerminator

end View

/-- The characters up to the terminator. -/
def readString : List Byte → Except Fault (List Byte)
  | [] => .error .pastTerminator
  | c :: cs => if c = 0#8 then .ok [] else (readString cs).map (c :: ·)

/-- What a `%s` reads through `v.data()`. -/
def View.cString (mem : List Byte) (v : View) : Except Fault (List Byte) := do
  readString (← v.chars mem)

/-! ## 2. The readers of commands.cpp -/

def isAlpha (c : Byte) : Bool :=
  (chr 'a' ≤ c && c ≤ chr 'z') || (chr 'A' ≤ c && c ≤ chr 'Z')

def isNumeric (c : Byte) : Bool := chr '0' ≤ c && c ≤ chr '9'

def isHex (c : Byte) : Bool :=
  (chr '0' ≤ c && c ≤ chr '9') || (chr 'a' ≤ c && c ≤ chr 'f') || (chr 'A' ≤ c && c ≤ chr 'F')

def hexchar2value (c : Byte) : BitVec 32 :=
  if chr '0' ≤ c ∧ c ≤ chr '9' then (c - chr '0').setWidth 32 &&& 0x0F
  else if chr 'a' ≤ c ∧ c ≤ chr 'f' then (c - chr 'a' + 10).setWidth 32 &&& 0x0F
  else if chr 'A' ≤ c ∧ c ≤ chr 'F' then (c - chr 'A' + 10).setWidth 32 &&& 0x0F
  else 0

/-- The loop of `valueFromHexStr` and `valueFromDecStr` over `n` more characters. -/
def valueLoop (isDigit : Byte → Bool) (shiftIn : BitVec 64 → Byte → BitVec 64) :
    Nat → List Byte → BitVec 64 → Except Fault (Option (BitVec 64))
  | 0, _, value => .ok (some value)
  | _ + 1, [], _ => .error .pastTerminator
  | n + 1, c :: cs, value =>
    if isDigit c then valueLoop isDigit shiftIn n cs (shiftIn value c) else .ok none

/-- `valueFromHexStr`, from the character after the `$` on. Its 32-bit index comes round to the
    `$` before it reaches a size of 2^32 or more. -/
def valueFromHexStr (size : Nat) (cs : List Byte) : Except Fault (Option (BitVec 64)) := do
  let value ← valueLoop isHex (fun value c => (value <<< 4) ||| (hexchar2value c).setWidth 64)
    (min size (2 ^ 32) - 1) cs 0
  if size < 2 ^ 32 then pure value else pure none

/-- `valueFromDecStr`; when its 32-bit index comes round to the first digit, it goes on for ever. -/
def valueFromDecStr (size : Nat) (cs : List Byte) : Except Fault (Option (BitVec 64)) := do
  let value ← valueLoop isNumeric (fun value c => value * 10 + (c - chr '0').setWidth 64)
    (min size (2 ^ 32)) cs 0
  if value.isSome ∧ 2 ^ 32 ≤ size then throw .unfinished else pure value

def valueFromStr (mem : List Byte) (str : View) : Except Fault (Option (BitVec 64)) :=
  if str.size = 0 then .ok none
  else do
    match ← str.chars mem with
    | [] => .error .pastTerminator
    | c :: cs =>
      if c = chr '$' then valueFromHexStr str.size cs
      else valueFromDecStr str.size (c :: cs)

/-- The first loop of `findNextParam`: `none` when it has come to the end of the view. -/
def skipSpaces (size : Nat) : List Byte → Nat → Except Fault (Option Nat)
  | [], _ => .error .pastTerminator
  | c :: cs, start =>
    if c = chr ' ' then
      if start + 1 = size then .ok none else skipSpaces size cs (start + 1)
    else .ok (some start)

/-- The second loop of `findNextParam`. -/
def paramEnd (size : Nat) : List Byte → Nat → Except Fault Nat
  | [], _ => .error .pastTerminator
  | c :: cs, e => if c ≠ chr ' ' ∧ e ≠ size then paramEnd size cs (e + 1) else .ok e

/-- `paramResult`; default-constructed it holds two views without pointer. -/
structure ParamResult where
  m_param : View := {}
  m_remainder : View := {}
  deriving DecidableEq, Repr

def findNextParam (mem : List Byte) (params : View) : Except Fault ParamResult := do
  let cs ← params.chars mem
  match ← skipSpaces params.size cs 0 with
  | none => pure {}
  | some start =>
    let e ← paramEnd params.size (cs.drop start) start
    pure ⟨params.sub start (e - start), params.sub e (params.size - e)⟩

/-- The loop of `getCommand`. -/
def commandEnd (size : Nat) : List Byte → Nat → Except Fault Nat
  | [], _ => .error .pastTerminator
  | c :: cs, last_idx =>
    if isAlpha c ∧ last_idx < size then commandEnd size cs (last_idx + 1) else .ok last_idx

/-- `Commands::getCommand`. -/
def getCommand (mem : List Byte) (line : View) : Except Fault View := do
  let last_idx ← commandEnd line.size (← line.chars mem) 0
  pure (line.sub 0 last_idx)

/-! ## 3. What they read from a line -/

/-- The memory a line is read from. -/
def lineMemory (line : List Byte) : List Byte := line ++ [0#8]

/-- The first `n` characters of `rest`, which is the end of `line`, as a view. -/
def View.ofSuffix (line rest : List Byte) (n : Nat) : View := ⟨some (line.length - rest.length), n⟩

def isSpace (c : Byte) : Bool := c == chr ' '

/-- At least one character, and spaces only. -/
def OnlySpaces (rest : List Byte) : Prop := rest ≠ [] ∧ ∀ c ∈ rest, isSpace c = true

instance : DecidablePred OnlySpaces := fun rest =>
  inferInstanceAs (Decidable (rest ≠ [] ∧ ∀ c ∈ rest, isSpace c = true))

/-- The first parameter of `rest`. -/
def firstParam (rest : List Byte) : List Byte :=
  (rest.dropWhile isSpace).takeWhile (!isSpace ·)

/-- What follows the first parameter of `rest`. -/
def afterParam (rest : List Byte) : List Byte :=
  (rest.dropWhile isSpace).dropWhile (!isSpace ·)

/-- What is left of a line, and the parameter `findNextParam` finds in it. -/
def View.tail (line rest : List Byte) : View := .ofSuffix line rest rest.length

def View.param (line rest : List Byte) : View :=
  .ofSuffix line (rest.dropWhile isSpace) (firstParam rest).length

theorem isSpace_iff {c : Byte} : isSpace c = true ↔ c = chr ' ' := by simp [isSpace]

theorem drop_length_takeWhile {α : Type} (p : α → Bool) (l : List α) :
    l.drop (l.takeWhile p).length = l.dropWhile p := by
  calc l.drop (l.takeWhile p).length
      = (l.takeWhile p ++ l.dropWhile p).drop (l.takeWhile p).length := by
        rw [List.takeWhile_append_dropWhile]
    _ = l.dropWhile p := List.drop_left

theorem length_takeWhile_add {α : Type} (p : α → Bool) (l : List α) :
    (l.takeWhile p).length + (l.dropWhile p).length = l.length := by
  rw [← List.length_append, List.takeWhile_append_dropWhile]

theorem afterParam_suffix (rest : List Byte) : afterParam rest <:+ rest :=
  (List.dropWhile_suffix _).trans (List.dropWhile_suffix _)

/-- Spaces only: there is no parameter, and nothing behind it. -/
theorem not_onlySpaces_of_after {rest : List Byte} (h : afterParam rest ≠ []) :
    ¬ OnlySpaces rest := by
  intro hs
  have hnil : rest.dropWhile isSpace = [] := List.dropWhile_eq_nil_iff.mpr hs.2
  exact h (by rw [afterParam, hnil]; rfl)

/-! ### 3.1 The loops -/

theorem skipSpaces_eq (l : List Byte) (start : Nat) :
    skipSpaces (start + l.length) (l ++ [0#8]) start =
      .ok (if OnlySpaces l then none else some (start + (l.takeWhile isSpace).length)) := by
  induction l generalizing start with
  | nil => rfl
  | cons c l ih =>
      rw [List.cons_append, skipSpaces]
      by_cases hc : c = chr ' '
      · have hs : isSpace c = true := isSpace_iff.mpr hc
        rw [if_pos hc]
        cases l with
        | nil =>
            have hall : OnlySpaces [c] := ⟨by simp, by simpa using hs⟩
            rw [if_pos (by simp), if_pos hall]
        | cons d l =>
            have hiff : OnlySpaces (c :: d :: l) ↔ OnlySpaces (d :: l) := by
              simp [OnlySpaces, hs]
            have hne : ¬ start + 1 = start + (c :: d :: l).length := by simp
            have hlen : start + (c :: d :: l).length = start + 1 + (d :: l).length := by
              simp only [List.length_cons]; omega
            have hwidth : (List.takeWhile isSpace (c :: d :: l)).length =
                (List.takeWhile isSpace (d :: l)).length + 1 := by
              rw [List.takeWhile_cons, if_pos hs, List.length_cons]
            rw [if_neg hne, hlen, ih, hwidth]
            simp only [hiff, Nat.add_assoc, Nat.add_comm 1]
      · have hs : ¬ isSpace c = true := fun h => hc (isSpace_iff.mp h)
        have hall : ¬ OnlySpaces (c :: l) := fun h => hs (h.2 c List.mem_cons_self)
        rw [if_neg hc, if_neg hall, List.takeWhile_cons, if_neg hs]
        rfl

theorem paramEnd_eq (l : List Byte) (e : Nat) :
    paramEnd (e + l.length) (l ++ [0#8]) e = .ok (e + (l.takeWhile (!isSpace ·)).length) := by
  induction l generalizing e with
  | nil =>
      rw [List.nil_append, paramEnd, if_neg (by simp)]
      rfl
  | cons c l ih =>
      rw [List.cons_append, paramEnd, List.takeWhile_cons]
      by_cases hc : c = chr ' '
      · rw [if_neg (fun h => h.1 hc), if_neg (by simp [isSpace_iff.mpr hc])]
        rfl
      · have hne : c ≠ chr ' ' ∧ e ≠ e + (c :: l).length := ⟨hc, by simp⟩
        have hlen : e + (c :: l).length = e + 1 + l.length := by
          simp only [List.length_cons]; omega
        rw [if_pos hne, hlen, ih, if_pos (by simp [isSpace, hc]), List.length_cons]
        congr 1
        omega

theorem commandEnd_eq (l : List Byte) (last_idx : Nat) :
    commandEnd (last_idx + l.length) (l ++ [0#8]) last_idx =
      .ok (last_idx + (l.takeWhile isAlpha).length) := by
  induction l generalizing last_idx with
  | nil => rfl
  | cons c l ih =>
      rw [List.cons_append, commandEnd, List.takeWhile_cons]
      by_cases hc : isAlpha c = true
      · have hlt : isAlpha c = true ∧ last_idx < last_idx + (c :: l).length := ⟨hc, by simp⟩
        have hlen : last_idx + (c :: l).length = last_idx + 1 + l.length := by
          simp only [List.length_cons]; omega
        rw [if_pos hlt, hlen, ih, if_pos hc, List.length_cons]
        congr 1
        omega
      · rw [if_neg (fun h => hc h.1), if_neg hc]
        rfl

theorem readString_eq (l : List Byte) :
    readString (l ++ [0#8]) = .ok (l.takeWhile (· ≠ 0#8)) := by
  induction l with
  | nil => rfl
  | cons c l ih =>
      rw [List.cons_append, readString, List.takeWhile_cons]
      by_cases hc : c = 0#8
      · rw [if_pos hc, if_neg (by simp [hc])]
      · rw [if_neg hc, ih, if_pos (by simp [hc])]
        rfl

/-! ### 3.2 The readers -/

section Readers

variable {line rest : List Byte} {n : Nat}

theorem ofSuffix_chars (h : rest <:+ line) :
    (View.ofSuffix line rest n).chars (lineMemory line) = .ok (rest ++ [0#8]) := by
  obtain ⟨front, rfl⟩ := h
  have hfront : (front ++ rest).length - rest.length = front.length := by simp
  simp only [View.ofSuffix, View.chars, lineMemory, hfront, List.append_assoc]
  rw [List.drop_left]

theorem ofSuffix_text (h : rest <:+ line) (hn : n ≤ rest.length) :
    (View.ofSuffix line rest n).text (lineMemory line) = .ok (rest.take n) := by
  have hsize : (View.ofSuffix line rest n).size = n := rfl
  unfold View.text
  rw [ofSuffix_chars h, hsize, Fault.ok_bind]
  by_cases h0 : n = 0
  · rw [if_pos h0, h0, List.take_zero]
  · have hle : n ≤ (rest ++ [0#8]).length := by rw [List.length_append]; omega
    rw [if_neg h0, if_pos hle, List.take_append_of_le_length hn]

theorem ofSuffix_cString (h : rest <:+ line) :
    (View.ofSuffix line rest n).cString (lineMemory line) = .ok (rest.takeWhile (· ≠ 0#8)) := by
  unfold View.cString
  rw [ofSuffix_chars h]
  exact readString_eq rest

theorem ofSuffix_sub (h : rest <:+ line) {k : Nat} (hk : k ≤ rest.length) (m : Nat) :
    (View.ofSuffix line rest n).sub k m = View.ofSuffix line (rest.drop k) m := by
  have hle := h.length_le
  simp only [View.ofSuffix, View.sub, Option.map_some, List.length_drop]
  congr 2
  omega

@[simp] theorem ofSuffix_size : (View.ofSuffix line rest n).size = n := rfl

/-- **findNextParam, spaces only**: both views come back without pointer. -/
theorem findNextParam_spaces (h : rest <:+ line) (hs : OnlySpaces rest) :
    findNextParam (lineMemory line) (.tail line rest) = .ok {} := by
  have hskip := skipSpaces_eq rest 0
  rw [if_pos hs, Nat.zero_add] at hskip
  unfold findNextParam View.tail
  rw [ofSuffix_chars h, Fault.ok_bind, ofSuffix_size, hskip]
  rfl

/-- **findNextParam otherwise**: the first run without spaces, and all that follows it. -/
theorem findNextParam_param (h : rest <:+ line) (hs : ¬ OnlySpaces rest) :
    findNextParam (lineMemory line) (.tail line rest) =
      .ok ⟨.param line rest, .tail line (afterParam rest)⟩ := by
  -- `start` and `end` are lengths of parts of `rest`
  have hrest := length_takeWhile_add isSpace rest
  have htail := length_takeWhile_add (!isSpace ·) (rest.dropWhile isSpace)
  have hfirst : (firstParam rest).length =
      ((rest.dropWhile isSpace).takeWhile (!isSpace ·)).length := rfl
  have hafter : (afterParam rest).length =
      ((rest.dropWhile isSpace).dropWhile (!isSpace ·)).length := rfl
  have hskip := skipSpaces_eq rest 0
  rw [if_neg hs, Nat.zero_add, Nat.zero_add] at hskip
  have hend := paramEnd_eq (rest.dropWhile isSpace) (rest.takeWhile isSpace).length
  rw [hrest] at hend
  have hdrop : (rest ++ [0#8]).drop (rest.takeWhile isSpace).length =
      rest.dropWhile isSpace ++ [0#8] := by
    rw [List.drop_append_of_le_length (by omega), drop_length_takeWhile]
  have hdrop' : rest.drop ((rest.takeWhile isSpace).length + (firstParam rest).length) =
      afterParam rest := by
    rw [← List.drop_drop, drop_length_takeWhile]
    exact drop_length_takeWhile _ _
  unfold findNextParam View.tail View.param
  rw [ofSuffix_chars h, Fault.ok_bind, ofSuffix_size, hskip, Fault.ok_bind]
  dsimp only
  rw [hdrop, hend, Fault.ok_bind, ofSuffix_sub h (by omega), ofSuffix_sub h (by omega),
    drop_length_takeWhile, ← hfirst, hdrop']
  congr 3 <;> omega

/-- **valueFromStr reads only its text.** -/
theorem valueLoop_ok (isDigit : Byte → Bool) (shiftIn : BitVec 64 → Byte → BitVec 64) {n : Nat}
    {cs : List Byte} (h : n ≤ cs.length) (value : BitVec 64) :
    ∃ r, valueLoop isDigit shiftIn n cs value = .ok r ∧
      (r.isSome = true ↔ ∀ c ∈ cs.take n, isDigit c = true) := by
  induction n generalizing cs value with
  | zero => exact ⟨some value, by cases cs <;> rfl, by simp⟩
  | succ n ih =>
      cases cs with
      | nil => exact absurd h (by simp)
      | cons c cs =>
          rw [valueLoop, List.take_succ_cons]
          by_cases hc : isDigit c = true
          · obtain ⟨r, hr, hall⟩ := ih (Nat.le_of_succ_le_succ h) (shiftIn value c)
            refine ⟨r, by rw [if_pos hc, hr], ?_⟩
            rw [hall, List.forall_mem_cons]
            exact ⟨fun h => ⟨hc, h⟩, fun h => h.2⟩
          · refine ⟨none, by rw [if_neg hc], ?_⟩
            simp [hc]

/-- The decimal digits that `valueFromDecStr` never gets to the end of. -/
def Endless (param : List Byte) : Prop :=
  2 ^ 32 ≤ param.length ∧ ∀ c ∈ param.take (2 ^ 32), isNumeric c = true

theorem valueFromDecStr_cases {cs : List Byte} (hn : n ≤ cs.length) :
    (¬ Endless (cs.take n) ∧ ∃ value, valueFromDecStr n cs = .ok value) ∨
      (Endless (cs.take n) ∧ valueFromDecStr n cs = .error .unfinished) := by
  have hle : min n (2 ^ 32) ≤ cs.length := by omega
  obtain ⟨value, hvalue, hall⟩ := valueLoop_ok isNumeric
    (fun value c => value * 10 + (c - chr '0').setWidth 64) hle 0
  have hendless : Endless (cs.take n) ↔ value.isSome = true ∧ 2 ^ 32 ≤ n := by
    rw [hall, Endless, List.take_take, List.length_take, Nat.min_eq_left hn, Nat.min_comm, and_comm]
  unfold valueFromDecStr
  rw [hvalue, Fault.ok_bind]
  by_cases he : value.isSome = true ∧ 2 ^ 32 ≤ n
  · exact .inr ⟨hendless.mpr he, by rw [if_pos he]; rfl⟩
  · exact .inl ⟨fun h => he (hendless.mp h), value, by rw [if_neg he]; rfl⟩

theorem valueFromHexStr_ok {cs : List Byte} (hn : n ≤ cs.length + 1) :
    ∃ value, valueFromHexStr n cs = .ok value := by
  have hle : min n (2 ^ 32) - 1 ≤ cs.length := by omega
  obtain ⟨value, hvalue, _⟩ := valueLoop_ok isHex
    (fun value c => (value <<< 4) ||| (hexchar2value c).setWidth 64) hle 0
  unfold valueFromHexStr
  rw [hvalue, Fault.ok_bind]
  by_cases hlt : n < 2 ^ 32
  · exact ⟨value, by rw [if_pos hlt]; rfl⟩
  · exact ⟨none, by rw [if_neg hlt]; rfl⟩

/-- **valueFromStr stays within its parameter**, and comes to an end unless that is endless. -/
theorem valueFromStr_cases (h : rest <:+ line) (hn : n ≤ rest.length) :
    (¬ Endless (rest.take n) ∧
        ∃ value, valueFromStr (lineMemory line) (View.ofSuffix line rest n) = .ok value) ∨
      (Endless (rest.take n) ∧
        valueFromStr (lineMemory line) (View.ofSuffix line rest n) = .error .unfinished) := by
  unfold valueFromStr
  rw [ofSuffix_chars h, ofSuffix_size, Fault.ok_bind]
  by_cases h0 : n = 0
  · refine .inl ⟨fun he => ?_, none, if_pos h0⟩
    rw [h0] at he
    exact absurd he.1 (by simp)
  · rw [if_neg h0]
    cases rest with
    | nil => exact absurd hn (by simpa using h0)
    | cons c rest =>
        have hcons : c ∈ ((c :: rest).take n).take (2 ^ 32) := by
          obtain ⟨m, rfl⟩ := Nat.exists_eq_succ_of_ne_zero h0
          exact List.mem_cons_self
        have hlen : n ≤ (c :: (rest ++ [0#8])).length := by
          simp only [List.length_cons, List.length_append] at hn ⊢
          omega
        by_cases hc : c = chr '$'
        · have hnum : ¬ isNumeric c = true := by rw [hc]; decide
          refine .inl ⟨fun he => hnum (he.2 c hcons), ?_⟩
          obtain ⟨value, hvalue⟩ := valueFromHexStr_ok hlen
          exact ⟨value, by simpa only [List.cons_append, if_pos hc] using hvalue⟩
        · have htake : (c :: (rest ++ [0#8])).take n = (c :: rest).take n :=
            List.take_append_of_le_length hn
          have hdec := valueFromDecStr_cases hlen
          rw [htake] at hdec
          simpa only [List.cons_append, if_neg hc] using hdec

theorem firstParam_eq_take (rest : List Byte) :
    (rest.dropWhile isSpace).take (firstParam rest).length = firstParam rest :=
  List.prefix_iff_eq_take.mp (List.takeWhile_prefix _) |>.symm

theorem firstParam_le (rest : List Byte) :
    (firstParam rest).length ≤ (rest.dropWhile isSpace).length :=
  (List.takeWhile_prefix _).length_le

theorem param_text (h : rest <:+ line) :
    (View.param line rest).text (lineMemory line) = .ok (firstParam rest) := by
  unfold View.param
  rw [ofSuffix_text ((List.dropWhile_suffix _).trans h) (firstParam_le rest), firstParam_eq_take]

theorem param_cString (h : rest <:+ line) :
    (View.param line rest).cString (lineMemory line) =
      .ok ((rest.dropWhile isSpace).takeWhile (· ≠ 0#8)) :=
  ofSuffix_cString ((List.dropWhile_suffix _).trans h)

theorem valueFromStr_param (h : rest <:+ line) :
    (¬ Endless (firstParam rest) ∧
        ∃ value, valueFromStr (lineMemory line) (.param line rest) = .ok value) ∨
      (Endless (firstParam rest) ∧
        valueFromStr (lineMemory line) (.param line rest) = .error .unfinished) := by
  have hcases := valueFromStr_cases ((List.dropWhile_suffix isSpace).trans h) (firstParam_le rest)
  rwa [firstParam_eq_take] at hcases

/-- **getCommand**: the longest alphabetic prefix. -/
theorem getCommand_eq (line : List Byte) :
    getCommand (lineMemory line) (.tail line line) =
      .ok (.ofSuffix line line (line.takeWhile isAlpha).length) := by
  have hend := commandEnd_eq line 0
  rw [Nat.zero_add, Nat.zero_add] at hend
  unfold getCommand View.tail
  rw [ofSuffix_chars List.suffix_rfl, Fault.ok_bind, ofSuffix_size, hend, Fault.ok_bind,
    ofSuffix_sub List.suffix_rfl (Nat.zero_le _), List.drop_zero]
  rfl

end Readers

end TinyOS64
