/-
  File:      TinyOS64/Lib/ByteMemory.lean
  Subject:   Byte memory with little-endian reads and writes of any width.

  `peek m a n` is the number the `n` bytes from address `a` denote; `poke m a n v` stores the low
  `n` bytes of `v` there. What the users need is one law each way: a write is read back modulo
  `256 ^ n` (`peek_poke_same`), and a write is invisible outside its `n` bytes
  (`poke_outside`, `peek_poke_disjoint`).
-/
import Mathlib.Data.Nat.ModEq
import Mathlib.Tactic.Ring

namespace ByteMemory

/-- Memory: a byte at every address. -/
abbrev Memory := Nat → BitVec 8

/-- The number held by the `n` bytes from `a`, least significant byte first. -/
def peek (m : Memory) (a : Nat) : Nat → Nat
  | 0 => 0
  | n + 1 => (m a).toNat + 256 * peek m (a + 1) n

/-- The low `n` bytes of `v` stored from `a`, least significant byte first. -/
def poke (m : Memory) (a n v : Nat) : Memory := fun b =>
  if a ≤ b ∧ b < a + n then BitVec.ofNat 8 (v / 256 ^ (b - a)) else m b

/-- The ranges of `n` bytes from `a` and `k` bytes from `c` share no address. -/
def Disjoint (a n c k : Nat) : Prop := a + n ≤ c ∨ c + k ≤ a

instance (a n c k : Nat) : Decidable (Disjoint a n c k) := inferInstanceAs (Decidable (_ ∨ _))

theorem poke_inside {m : Memory} {a n v b : Nat} (h₁ : a ≤ b) (h₂ : b < a + n) :
    poke m a n v b = BitVec.ofNat 8 (v / 256 ^ (b - a)) := if_pos ⟨h₁, h₂⟩

theorem poke_outside {m : Memory} {a n v b : Nat} (h : b < a ∨ a + n ≤ b) :
    poke m a n v b = m b := if_neg (by omega)

theorem peek_lt (m : Memory) (a n : Nat) : peek m a n < 256 ^ n := by
  induction n generalizing a with
  | zero => simp [peek]
  | succ n ih =>
      have h₁ := ih (a + 1)
      have h₂ := (m a).isLt
      rw [peek, pow_succ]
      omega

/-- What is stored is cut to the width. -/
theorem poke_mod (m : Memory) (a n v : Nat) : poke m a n (v % 256 ^ n) = poke m a n v := by
  funext b
  by_cases h : a ≤ b ∧ b < a + n
  · have hpow : 256 ^ n = 256 ^ (b - a) * 256 ^ (n - (b - a)) := by
      rw [← pow_add]
      congr 1
      omega
    have hdvd : 256 ∣ 256 ^ (n - (b - a)) := dvd_pow_self 256 (by omega)
    have hbyte : v % 256 ^ n / 256 ^ (b - a) % 256 = v / 256 ^ (b - a) % 256 := by
      rw [hpow, Nat.mod_mul_right_div_self, Nat.mod_mod_of_dvd _ hdvd]
    rw [poke_inside h.1 h.2, poke_inside h.1 h.2]
    exact BitVec.eq_of_toNat_eq hbyte
  · rw [poke, poke, if_neg h, if_neg h]

/-- A read sees its own bytes only. -/
theorem peek_congr {m m' : Memory} {a n : Nat} (h : ∀ b, a ≤ b → b < a + n → m b = m' b) :
    peek m a n = peek m' a n := by
  induction n generalizing a with
  | zero => rfl
  | succ n ih =>
      rw [peek, peek, h a (by omega) (by omega), ih fun b h₁ h₂ => h b (by omega) (by omega)]

theorem peek_poke_part (m : Memory) (a n v i k : Nat) (h : i + k ≤ n) :
    peek (poke m a n v) (a + i) k = v / 256 ^ i % 256 ^ k := by
  induction k generalizing i with
  | zero => simp [peek, Nat.mod_one]
  | succ k ih =>
      have hb : poke m a n v (a + i) = BitVec.ofNat 8 (v / 256 ^ i) := by
        rw [poke_inside (by omega) (by omega), Nat.add_sub_cancel_left]
      have ht := ih (i + 1) (by omega)
      rw [peek, hb, BitVec.toNat_ofNat, Nat.add_assoc a i 1, ht, pow_succ 256 k, Nat.mul_comm _ 256,
        Nat.mod_mul, Nat.div_div_eq_div_mul, ← pow_succ]

/-- **A write is read back**, cut to its width. -/
theorem peek_poke_same (m : Memory) (a n v : Nat) : peek (poke m a n v) a n = v % 256 ^ n := by
  simpa using peek_poke_part m a n v 0 n (by omega)

/-- **A write is invisible to a read of other bytes.** -/
theorem peek_poke_disjoint (m : Memory) {a n v c k : Nat} (h : Disjoint a n c k) :
    peek (poke m a n v) c k = peek m c k := by
  refine peek_congr fun b h₁ h₂ => poke_outside ?_
  rcases h with h | h
  · exact Or.inr (by omega)
  · exact Or.inl (by omega)

/-! ## Words in a row -/

/-- A read of two parts: the second one's bytes count more. -/
theorem peek_add (m : Memory) (a n k : Nat) :
    peek m a (n + k) = peek m a n + 256 ^ n * peek m (a + n) k := by
  induction n generalizing a with
  | zero => simp [peek]
  | succ n ih =>
      have ha : a + 1 + n = a + (n + 1) := by omega
      rw [Nat.add_right_comm, peek, peek, ih, ha, pow_succ]
      ring

/-- Words of four bytes stored in a row from `a`. -/
def pokeWords (m : Memory) (a : Nat) : List (BitVec 32) → Memory
  | [] => m
  | w :: ws => pokeWords (poke m a 4 w.toNat) (a + 4) ws

theorem peek_pokeWords_before {m : Memory} {ws : List (BitVec 32)} {a c k : Nat} (h : c + k ≤ a) :
    peek (pokeWords m a ws) c k = peek m c k := by
  induction ws generalizing m a with
  | nil => rfl
  | cons w ws ih => rw [pokeWords, ih (by omega), peek_poke_disjoint m (.inr h)]

/-- **Each word is read back.** -/
theorem peek_pokeWords {m : Memory} {ws : List (BitVec 32)} {a i : Nat} (h : i < ws.length) :
    peek (pokeWords m a ws) (a + 4 * i) 4 = ws[i].toNat := by
  induction ws generalizing m a i with
  | nil => exact absurd h (Nat.not_lt_zero i)
  | cons w ws ih =>
      cases i with
      | zero =>
          have ha : a + 4 * 0 = a := rfl
          rw [pokeWords, ha, peek_pokeWords_before (Nat.le_refl _), peek_poke_same]
          exact Nat.mod_eq_of_lt w.isLt
      | succ i =>
          have ha : a + 4 * (i + 1) = a + 4 + 4 * i := by omega
          rw [pokeWords, ha]
          exact ih (by simpa using h)

/-! ## Ranges that meet -/

/-- The byte of `v` that a store puts `i` addresses above its first. -/
def byteOf (v i : Nat) : BitVec 8 := BitVec.ofNat 8 (v / 256 ^ i)

/-- Two reads give one number exactly when all their bytes agree. -/
theorem peek_eq_iff {m m' : Memory} {a n : Nat} :
    peek m a n = peek m' a n ↔ ∀ b, a ≤ b → b < a + n → m b = m' b := by
  refine ⟨fun h => ?_, peek_congr⟩
  induction n generalizing a with
  | zero => exact fun b h₁ h₂ => absurd h₂ (by omega)
  | succ n ih =>
      have h₁ := (m a).isLt
      have h₂ := (m' a).isLt
      rw [peek, peek] at h
      have hrest := ih (a := a + 1) (by omega)
      intro b hlo hhi
      by_cases hb : b = a
      · subst hb
        exact BitVec.eq_of_toNat_eq (by omega)
      · exact hrest b (by omega) (by omega)

/-- **A write is invisible to a read exactly when** it stores, in the bytes they share, what was
    there. -/
theorem peek_poke_eq_iff (m : Memory) (a n v c k : Nat) :
    peek (poke m a n v) c k = peek m c k ↔
      ∀ b, a ≤ b → b < a + n → c ≤ b → b < c + k → byteOf v (b - a) = m b := by
  rw [peek_eq_iff]
  refine ⟨fun h b h₁ h₂ h₃ h₄ => ?_, fun h b h₃ h₄ => ?_⟩
  · have hb := h b h₃ h₄
    rw [poke_inside h₁ h₂] at hb
    exact hb
  · by_cases hin : a ≤ b ∧ b < a + n
    · rw [poke_inside hin.1 hin.2]
      exact h b hin.1 hin.2 h₃ h₄
    · exact poke_outside (by omega)

/-- **Two writes commute exactly when** they agree in the bytes they share. -/
theorem poke_comm_iff (m : Memory) (a n v c k w : Nat) :
    poke (poke m a n v) c k w = poke (poke m c k w) a n v ↔
      ∀ b, a ≤ b → b < a + n → c ≤ b → b < c + k → byteOf v (b - a) = byteOf w (b - c) := by
  refine ⟨fun h b h₁ h₂ h₃ h₄ => ?_, fun h => funext fun b => ?_⟩
  · have hb := congrFun h b
    rw [poke_inside h₃ h₄, poke_inside h₁ h₂] at hb
    exact hb.symm
  · by_cases hv : a ≤ b ∧ b < a + n
    · by_cases hw : c ≤ b ∧ b < c + k
      · rw [poke_inside hw.1 hw.2, poke_inside hv.1 hv.2]
        exact (h b hv.1 hv.2 hw.1 hw.2).symm
      · rw [poke_outside (by omega), poke_inside hv.1 hv.2, poke_inside hv.1 hv.2]
    · rw [poke_outside (m := poke m c k w) (by omega)]
      by_cases hw : c ≤ b ∧ b < c + k
      · rw [poke_inside hw.1 hw.2, poke_inside hw.1 hw.2]
      · rw [poke_outside (by omega), poke_outside (by omega), poke_outside (by omega)]

end ByteMemory
