/-
  File:      TinyOS64/Lib/AscendingCopy.lean
  Subject:   Copying a range of cells in ascending order, within one memory.

  `copyUp m dst src n` is the memory after the first `n` cells were copied one by one, lowest
  first. A cell that is copied late can be one that was written early: with the destination `d`
  cells above the source, cell `i` receives cell `i % d` of the source (`copyUp_apply`). The copy
  is therefore the intended one exactly when the source repeats with period `d`
  (`copies_copyUp_iff`), which says nothing when the ranges are disjoint or the destination lies
  below.
-/
import Mathlib.Logic.Function.Basic
import Mathlib.Order.Basic

namespace AscendingCopy

variable {β : Type}

/-- The first `n` cells from `src` copied to `dst`, lowest first. -/
def copyUp (m : Nat → β) (dst src : Nat) : Nat → Nat → β
  | 0 => m
  | n + 1 => Function.update (copyUp m dst src n) (dst + n) (copyUp m dst src n (src + n))

/-- The cell of the source that arrives at cell `i` of the destination. -/
def origin (dst src i : Nat) : Nat := if dst ≤ src then i else i % (dst - src)

theorem origin_lt {dst src i : Nat} (h : i < dst - src) : origin dst src i = i := by
  unfold origin
  split
  · rfl
  · exact Nat.mod_eq_of_lt h

theorem copyUp_outside (m : Nat → β) {dst src n a : Nat} (h : a < dst ∨ dst + n ≤ a) :
    copyUp m dst src n a = m a := by
  induction n with
  | zero => rfl
  | succ n ih =>
      rw [copyUp, Function.update_of_ne (by omega), ih (by omega)]

/-- **What an ascending copy leaves in the destination.** -/
theorem copyUp_apply (m : Nat → β) {dst src n i : Nat} (hi : i < n) :
    copyUp m dst src n (dst + i) = m (src + origin dst src i) := by
  induction n generalizing i with
  | zero => omega
  | succ n ih =>
      rw [copyUp]
      by_cases hn : i = n
      · -- The cell copied now; the source's one may have been written before.
        subst hn
        rw [Function.update_self]
        by_cases hover : src < dst ∧ dst ≤ src + i
        · have hcell : src + i = dst + (i - (dst - src)) := by omega
          have hmod : i % (dst - src) = (i - (dst - src)) % (dst - src) :=
            Nat.mod_eq_sub_mod (by omega)
          have hup : ¬ dst ≤ src := by omega
          rw [hcell, ih (by omega), origin, origin, if_neg hup, if_neg hup, hmod]
        · rw [copyUp_outside m (by omega)]
          by_cases hle : dst ≤ src
          · rw [origin, if_pos hle]
          · rw [origin_lt (by omega)]
      · rw [Function.update_of_ne (by omega), ih (by omega)]

/-- **A copy as intended**: the destination holds what the source held, nothing else changed. -/
structure Copies (m m' : Nat → β) (dst src n : Nat) : Prop where
  copied : ∀ i < n, m' (dst + i) = m (src + i)
  frame : ∀ a, a < dst ∨ dst + n ≤ a → m' a = m a

/-- The `n` cells from `src` repeat with period `d`. -/
def Repeats (m : Nat → β) (src n d : Nat) : Prop := ∀ i, i + d < n → m (src + (i + d)) = m (src + i)

theorem repeats_mod {m : Nat → β} {src n d : Nat} (h : Repeats m src n d) (hd : 0 < d) (i : Nat)
    (hi : i < n) : m (src + i % d) = m (src + i) := by
  induction i using Nat.strongRecOn with
  | ind i ih =>
      by_cases hlt : i < d
      · rw [Nat.mod_eq_of_lt hlt]
      · have hstep := h (i - d) (by omega)
        rw [show i - d + d = i by omega] at hstep
        rw [hstep, Nat.mod_eq_sub_mod (by omega)]
        exact ih (i - d) (by omega) (by omega)

/-- **An ascending copy is the intended one exactly when** the destination does not start above
    the source, or the source repeats with the distance between them as period. -/
theorem copies_copyUp_iff (m : Nat → β) (dst src n : Nat) :
    Copies m (copyUp m dst src n) dst src n ↔ dst ≤ src ∨ Repeats m src n (dst - src) := by
  refine ⟨fun h => ?_, fun h => ⟨fun i hi => ?_, fun a ha => copyUp_outside m ha⟩⟩
  · by_cases hle : dst ≤ src
    · exact .inl hle
    · refine .inr fun i hi => ?_
      have h₁ := h.copied (i + (dst - src)) hi
      have h₂ := h.copied i (by omega)
      rw [copyUp_apply m hi, origin, if_neg hle, Nat.add_mod_right] at h₁
      rw [copyUp_apply m (by omega), origin, if_neg hle] at h₂
      rw [← h₁, h₂]
  · rw [copyUp_apply m hi]
    by_cases hle : dst ≤ src
    · rw [origin, if_pos hle]
    · rw [origin, if_neg hle]
      rcases h with h | h
      · exact absurd h hle
      · exact repeats_mod h (by omega) i hi

end AscendingCopy
