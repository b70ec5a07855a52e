/-
  File:      TinyOS64/Print/PutLimitedString.lean
  Subject:   Characters, wide buffers, and the truncating sink of myprint.cpp.

  The build makes `wchar_t` two bytes wide and plain `char` is signed, so a `char` becomes a code
  unit by sign extension (`widen`). A buffer remembers which elements were stored to, so that
  "writes only inside the array" is a statement about the run and not about the final contents.
-/
import Mathlib.Data.List.Basic

namespace TinyOS64

/-- A `char`, as its bits. -/
abbrev Byte := BitVec 8

/-- A `wchar_t` (two bytes, `-fshort-wchar`). -/
abbrev WChar := BitVec 16

/-- A character constant. -/
def chr (c : Char) : Byte := BitVec.ofNat 8 c.toNat

/-- A wide character constant. -/
def wchr (c : Char) : WChar := BitVec.ofNat 16 c.toNat

/-- The characters of a string literal, without its terminator. -/
def bytes (s : String) : List Byte := s.toList.map chr

/-- The conversion `char` to `wchar_t`. -/
def widen (c : Byte) : WChar := c.signExtend 16

/-! ## 1. The buffer -/

/-- A `wchar_t` array in memory: its elements, and the indices stored to, newest first. -/
structure WideBuffer where
  cell : Nat → WChar
  touched : List Nat

namespace WideBuffer

/-- The array before any store of the call. -/
def fresh (cell : Nat → WChar) : WideBuffer := ⟨cell, []⟩

/-- The store `buffer[i] = c`. -/
def store (b : WideBuffer) (i : Nat) (c : WChar) : WideBuffer :=
  ⟨fun j => if j = i then c else b.cell j, i :: b.touched⟩

/-- Consecutive stores from index `i`. -/
def storeAll (b : WideBuffer) : Nat → List WChar → WideBuffer
  | _, [] => b
  | i, c :: text => (b.store i c).storeAll (i + 1) text

theorem storeAll_outside {b : WideBuffer} {text : List WChar} {i j : Nat}
    (h : j < i ∨ i + text.length ≤ j) : (b.storeAll i text).cell j = b.cell j := by
  induction text generalizing b i with
  | nil => rfl
  | cons c text ih =>
      simp only [List.length_cons] at h
      rw [storeAll, ih (by omega)]
      exact if_neg (by omega)

theorem storeAll_inside {b : WideBuffer} {text : List WChar} {i k : Nat} (h : k < text.length) :
    (b.storeAll i text).cell (i + k) = text[k] := by
  induction text generalizing b i k with
  | nil => simp at h
  | cons c text ih =>
      rw [storeAll]
      cases k with
      | zero =>
          rw [storeAll_outside (by omega)]
          exact if_pos rfl
      | succ k =>
          have e : i + (k + 1) = i + 1 + k := by omega
          rw [e]
          exact ih (by simpa using h)

theorem mem_touched_storeAll {b : WideBuffer} {text : List WChar} {i j : Nat} :
    j ∈ (b.storeAll i text).touched ↔ j ∈ b.touched ∨ i ≤ j ∧ j < i + text.length := by
  induction text generalizing b i with
  | nil =>
      simp only [storeAll, List.length_nil]
      constructor
      · exact Or.inl
      · intro h₀
        rcases h₀ with h | h
        · exact h
        · omega
  | cons c text ih =>
      rw [storeAll, ih]
      simp only [store, List.mem_cons, List.length_cons]
      refine ⟨fun h₀ => ?_, fun h₀ => ?_⟩
      · rcases h₀ with (rfl | h) | h
        · exact Or.inr (by omega)
        · exact Or.inl h
        · exact Or.inr (by omega)
      · rcases h₀ with h | h
        · exact Or.inl (Or.inr h)
        · by_cases hj : j = i
          · exact Or.inl (Or.inl hj)
          · exact Or.inr (by omega)

end WideBuffer

/-! ## 2. The sink -/

/-- `mi::PutLimitedString`: an output buffer with the next index and the last index it may use. -/
structure PutLimitedString where
  m_buffer : WideBuffer
  m_idx : Nat
  m_maxIdx : Nat

namespace PutLimitedString

/-- The constructor; `bytes - 1` wraps for 0, as `size_t` does. -/
def make (buffer : WideBuffer) (bytes : BitVec 64) : PutLimitedString :=
  ⟨buffer, 0, (bytes - 1).toNat⟩

def putc (o : PutLimitedString) (c : WChar) : PutLimitedString :=
  if o.m_idx < o.m_maxIdx then
    { o with m_buffer := o.m_buffer.store o.m_idx c, m_idx := o.m_idx + 1 }
  else o

def terminate (o : PutLimitedString) : PutLimitedString :=
  { o with m_buffer := o.m_buffer.store o.m_idx 0 }

def getLength (o : PutLimitedString) : Nat := o.m_idx

/-- A text put character by character. -/
def putAll (o : PutLimitedString) (text : List WChar) : PutLimitedString := text.foldl putc o

@[simp] theorem putAll_nil (o : PutLimitedString) : o.putAll [] = o := rfl

@[simp] theorem putAll_cons (o : PutLimitedString) (c : WChar) (text : List WChar) :
    o.putAll (c :: text) = (o.putc c).putAll text := rfl

theorem putAll_append (o : PutLimitedString) (text more : List WChar) :
    o.putAll (text ++ more) = (o.putAll text).putAll more := List.foldl_append

/-- **The sink keeps what still fits**, whatever the text: the first `m_maxIdx - m_idx`
    characters, stored one after the other, and nothing more. -/
theorem putAll_eq (o : PutLimitedString) (text : List WChar) :
    o.putAll text =
      { o with
        m_buffer := o.m_buffer.storeAll o.m_idx (text.take (o.m_maxIdx - o.m_idx))
        m_idx := o.m_idx + min (o.m_maxIdx - o.m_idx) text.length } := by
  induction text generalizing o with
  | nil => simp [WideBuffer.storeAll]
  | cons c text ih =>
      rw [putAll_cons, ih, putc]
      split
      · rename_i h
        obtain ⟨k, hk⟩ : ∃ k, o.m_maxIdx - o.m_idx = k + 1 := ⟨o.m_maxIdx - o.m_idx - 1, by omega⟩
        have hk' : o.m_maxIdx - (o.m_idx + 1) = k := by omega
        simp only [hk, hk', List.take_succ_cons, WideBuffer.storeAll, List.length_cons,
          Nat.succ_min_succ]
        congr 1
        omega
      · rename_i h
        have h0 : o.m_maxIdx - o.m_idx = 0 := by omega
        simp [h0, WideBuffer.storeAll]

end PutLimitedString

end TinyOS64
