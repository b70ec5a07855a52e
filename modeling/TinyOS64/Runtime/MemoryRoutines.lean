/-
  File:      TinyOS64/Runtime/MemoryRoutines.lean
  Subject:   memmove and memcmp, which the driver supplies to the C++ library (allocator.cpp).

  `memmove` copies in ascending order whatever the ranges, so it is a memmove only where an
  ascending copy is one (`memmove_copies_iff`). `memcmp` compares plain `char`s, which are signed
  on this target: it orders by the first difference, but the two halves of the byte range the
  wrong way round (`memcmp_orders_iff`).
-/
import TinyOS64.Lib.AscendingCopy
import TinyOS64.Lib.ByteMemory

namespace TinyOS64

open ByteMemory AscendingCopy

/-! ## 1. memmove -/

/-- The loop of `memmove`: both pointers go up, `n` goes down to 0. -/
def memmove (m : Memory) (dst src : Nat) : Nat → Memory
  | 0 => m
  | n + 1 => memmove (Function.update m dst (m src)) (dst + 1) (src + 1) n

/-- The loop after `k` bytes does the rest of an ascending copy. -/
theorem memmove_copyUp (m : Memory) (dst src k n : Nat) :
    memmove (copyUp m dst src k) (dst + k) (src + k) n = copyUp m dst src (k + n) := by
  induction n generalizing k with
  | zero => rfl
  | succ n ih =>
      have hrest := ih (k + 1)
      rw [memmove, Nat.add_assoc, Nat.add_assoc, Nat.add_comm n 1, ← Nat.add_assoc k 1 n, ← hrest]
      rfl

theorem memmove_eq_copyUp (m : Memory) (dst src n : Nat) :
    memmove m dst src n = copyUp m dst src n := by
  have h := memmove_copyUp m dst src 0 n
  rw [Nat.zero_add] at h
  exact h

/-- **`memmove` does what it is for exactly when** the destination starts at or below the source,
    or behind its end, or the source repeats with the distance between the two as period. -/
theorem memmove_copies_iff (m : Memory) (dst src n : Nat) :
    Copies m (memmove m dst src n) dst src n ↔
      dst ≤ src ∨ src + n ≤ dst ∨ Repeats m src n (dst - src) := by
  rw [memmove_eq_copyUp, copies_copyUp_iff]
  refine or_congr_right ⟨.inr, fun h => ?_⟩
  rcases h with h | h
  · intro i hi
    omega
  · exact h

/-- Three bytes 1, 2, 3 moved up by one: 1, 1, 1 arrive. -/
theorem memmove_smears :
    ¬ Copies (fun a => BitVec.ofNat 8 a) (memmove (fun a => BitVec.ofNat 8 a) 2 1 3) 2 1 3 := by
  intro h
  exact absurd (h.copied 1 (by decide)) (by decide)

/-! ## 2. memcmp -/

/-- A byte as plain `char`. -/
def char (b : BitVec 8) : Int := b.toInt

/-- `memcmp`; the pointers have moved on when the two bytes are compared for order. -/
def memcmp (m : Memory) (s1 s2 : Nat) : Nat → Int
  | 0 => 0
  | count + 1 =>
    let s1' := s1 + 1
    let s2' := s2 + 1
    if char (m s1) ≠ char (m s2) then
      if char (m (s1' - 1)) < char (m (s2' - 1)) then -1 else 1
    else memcmp m s1' s2' count

/-- The `count` bytes from `a`, as numbers 0 to 255. -/
def unsignedBytes (m : Memory) (a : Nat) : Nat → List Nat
  | 0 => []
  | count + 1 => (m a).toNat :: unsignedBytes m (a + 1) count

/-- `r` has the sign that the lexicographic order of `a` and `b` asks for. -/
structure Orders (r : Int) (a b : List Nat) : Prop where
  less : r < 0 ↔ a < b
  equal : r = 0 ↔ a = b
  greater : 0 < r ↔ b < a

/-- The strings at `s1` and `s2` differ at `i`, and nowhere before. -/
structure FirstDifference (m : Memory) (s1 s2 count i : Nat) : Prop where
  inside : i < count
  same : ∀ j < i, m (s1 + j) = m (s2 + j)
  differ : m (s1 + i) ≠ m (s2 + i)

theorem char_inj {b c : BitVec 8} : char b = char c ↔ b = c := BitVec.toInt_inj

/-- **Signed and unsigned order agree within a half of the byte range and nowhere else.** -/
theorem char_lt_iff {b c : BitVec 8} (hne : b ≠ c) :
    (char b < char c ↔ b.toNat < c.toNat) ↔ b.msb = c.msb := by
  have hb := b.isLt
  have hc := c.isLt
  have hne' : b.toNat ≠ c.toNat := fun e => hne (BitVec.eq_of_toNat_eq e)
  rw [char, char, BitVec.toInt_eq_toNat_cond, BitVec.toInt_eq_toNat_cond, BitVec.msb_eq_decide,
    BitVec.msb_eq_decide, decide_eq_decide]
  split <;> split <;> omega

section Step

variable {m : Memory} {s1 s2 count : Nat}

theorem memcmp_same (h : m s1 = m s2) :
    memcmp m s1 s2 (count + 1) = memcmp m (s1 + 1) (s2 + 1) count := by
  rw [memcmp, if_neg (not_not.mpr (char_inj.mpr h))]

theorem memcmp_differ (h : m s1 ≠ m s2) :
    memcmp m s1 s2 (count + 1) = if char (m s1) < char (m s2) then -1 else 1 := by
  rw [memcmp, if_pos fun e => h (char_inj.mp e)]
  rfl

theorem orders_same (h : m s1 = m s2) (r : Int) :
    Orders r (unsignedBytes m s1 (count + 1)) (unsignedBytes m s2 (count + 1)) ↔
      Orders r (unsignedBytes m (s1 + 1) count) (unsignedBytes m (s2 + 1) count) := by
  have hlt : ∀ {a b : List Nat} {x : Nat}, x :: a < x :: b ↔ a < b := by
    intro a b x
    simp
  have heq : ∀ {a b : List Nat} {x : Nat}, x :: a = x :: b ↔ a = b := by simp
  rw [unsignedBytes, unsignedBytes, h]
  exact ⟨fun ⟨h₁, h₂, h₃⟩ => ⟨h₁.trans hlt, h₂.trans heq, h₃.trans hlt⟩,
    fun ⟨h₁, h₂, h₃⟩ => ⟨h₁.trans hlt.symm, h₂.trans heq.symm, h₃.trans hlt.symm⟩⟩

/-- The answer of the loop at a difference. -/
theorem answer_neg_iff (P : Prop) [Decidable P] : (if P then (-1 : Int) else 1) < 0 ↔ P := by
  split <;> simp [*]

theorem answer_pos_iff (P : Prop) [Decidable P] : 0 < (if P then (-1 : Int) else 1) ↔ ¬ P := by
  split <;> simp [*]

theorem orders_differ (h : m s1 ≠ m s2) :
    Orders (if char (m s1) < char (m s2) then -1 else 1)
      (unsignedBytes m s1 (count + 1)) (unsignedBytes m s2 (count + 1)) ↔
      (m s1).msb = (m s2).msb := by
  have hne : (m s1).toNat ≠ (m s2).toNat := fun e => h (BitVec.eq_of_toNat_eq e)
  have hlt : ∀ {x y : Nat} {a b : List Nat}, x ≠ y → (x :: a < y :: b ↔ x < y) := by
    intro x y a b hxy
    simp [List.cons_lt_cons_iff, hxy]
  rw [← char_lt_iff h]
  refine ⟨fun ho => ?_, fun hs => ⟨?_, ?_, ?_⟩⟩
  · have hless := ho.less
    rw [unsignedBytes, unsignedBytes, hlt hne, answer_neg_iff] at hless
    exact hless
  · rw [unsignedBytes, unsignedBytes, hlt hne, answer_neg_iff]
    exact hs
  · refine iff_of_false ?_ fun e => hne (List.cons.inj e).1
    split <;> decide
  · rw [unsignedBytes, unsignedBytes, hlt hne.symm, answer_pos_iff, hs]
    omega

theorem firstDifference_same (h : m s1 = m s2) {i : Nat} :
    FirstDifference m s1 s2 (count + 1) i ↔
      ∃ k, i = k + 1 ∧ FirstDifference m (s1 + 1) (s2 + 1) count k := by
  have e : ∀ a k, a + (k + 1) = a + 1 + k := fun a k => by omega
  refine ⟨fun hd => ?_, fun hd => ?_⟩
  · cases i with
    | zero => exact absurd h hd.differ
    | succ k =>
        refine ⟨k, rfl, ⟨Nat.lt_of_succ_lt_succ hd.inside, fun j hj => ?_, ?_⟩⟩
        · rw [← e s1 j, ← e s2 j]
          exact hd.same (j + 1) (by omega)
        · rw [← e s1 k, ← e s2 k]
          exact hd.differ
  · obtain ⟨k, rfl, hd⟩ := hd
    refine ⟨Nat.succ_lt_succ hd.inside, fun j hj => ?_, ?_⟩
    · cases j with
      | zero => exact h
      | succ j =>
          rw [e s1 j, e s2 j]
          exact hd.same j (by omega)
    · rw [e s1 k, e s2 k]
      exact hd.differ

theorem firstDifference_differ (h : m s1 ≠ m s2) {i : Nat} :
    FirstDifference m s1 s2 (count + 1) i ↔ i = 0 := by
  refine ⟨fun hd => ?_, ?_⟩
  · by_contra hi
    exact h (hd.same 0 (by omega))
  · rintro rfl
    exact ⟨Nat.succ_pos count, fun j hj => absurd hj (Nat.not_lt_zero j), h⟩

end Step

/-- **`memcmp` is the order of unsigned bytes exactly when** the first bytes that differ, if any,
    lie in the same half of the byte range. -/
theorem memcmp_orders_iff (m : Memory) (s1 s2 count : Nat) :
    Orders (memcmp m s1 s2 count) (unsignedBytes m s1 count) (unsignedBytes m s2 count) ↔
      ∀ i, FirstDifference m s1 s2 count i → (m (s1 + i)).msb = (m (s2 + i)).msb := by
  induction count generalizing s1 s2 with
  | zero =>
      refine iff_of_true ⟨?_, ?_, ?_⟩ fun i hd => absurd hd.inside (Nat.not_lt_zero i)
      · simp [memcmp, unsignedBytes]
      · simp [memcmp, unsignedBytes]
      · simp [memcmp, unsignedBytes]
  | succ count ih =>
      by_cases h : m s1 = m s2
      · rw [memcmp_same h, orders_same h, ih]
        refine ⟨fun hall i hd => ?_, fun hall k hd => ?_⟩
        · obtain ⟨k, rfl, hk⟩ := (firstDifference_same h).mp hd
          rw [show s1 + (k + 1) = s1 + 1 + k by omega, show s2 + (k + 1) = s2 + 1 + k by omega]
          exact hall k hk
        · rw [show s1 + 1 + k = s1 + (k + 1) by omega, show s2 + 1 + k = s2 + (k + 1) by omega]
          exact hall (k + 1) ((firstDifference_same h).mpr ⟨k, rfl, hd⟩)
      · rw [memcmp_differ h, orders_differ h]
        refine ⟨fun hmsb i hd => ?_, fun hall => hall 0 ((firstDifference_differ h).mpr rfl)⟩
        obtain rfl := (firstDifference_differ h).mp hd
        exact hmsb

/-- The byte 0x80 at address 0x80 is taken for less than the byte 0 at address 0. -/
theorem memcmp_misorders : ¬ Orders (memcmp (fun a => BitVec.ofNat 8 a) 0x80 0 1)
    (unsignedBytes (fun a => BitVec.ofNat 8 a) 0x80 1)
    (unsignedBytes (fun a => BitVec.ofNat 8 a) 0 1) := by
  intro h
  have hless : [128] < [0] := h.less.mp (by decide)
  exact absurd hless (by decide)

end TinyOS64
