/-
  File:      TinyOS64/Lib/Digits.lean
  Subject:   Positional digit lists: doubling with a carry, and stripping leading zeros.

  A digit list holds the least significant digit first, as Mathlib's `Nat.digits` does. `double`
  is the doubling of shift-and-adjust conversion, one carry running through the list;
  `double_value` is its arithmetic. `reverse_digits_ofDigits` says that a digit list read from
  the top without its leading zeros is THE digit list of its value, and `toDigits_eq_digits`
  links that to the numeral core's `Nat.toDigits` writes.
-/
import Mathlib.Data.List.Induction
import Mathlib.Data.Nat.Digits.Defs
import Mathlib.Tactic.Ring

namespace Digits

/-- The digit list doubled in base `b`, with a carry in; the second part is the carry out. -/
def double (b : Nat) : Nat → List Nat → List Nat × Nat
  | c, [] => ([], c)
  | c, d :: ds =>
    if b ≤ 2 * d + c then ((2 * d + c - b) :: (double b 1 ds).1, (double b 1 ds).2)
    else ((2 * d + c) :: (double b 0 ds).1, (double b 0 ds).2)

theorem double_length (b c : Nat) (ds : List Nat) : (double b c ds).1.length = ds.length := by
  induction ds generalizing c with
  | nil => rfl
  | cons d ds ih =>
      rw [double]
      split <;> simp [ih]

theorem double_lt {b c : Nat} {ds : List Nat} (hc : c ≤ 1) (h : ∀ d ∈ ds, d < b) :
    ∀ d ∈ (double b c ds).1, d < b := by
  induction ds generalizing c with
  | nil => simp [double]
  | cons e ds ih =>
      have he : e < b := h e List.mem_cons_self
      have hds : ∀ d ∈ ds, d < b := fun d hd => h d (List.mem_cons_of_mem _ hd)
      rw [double]
      split
      · intro d hd
        rcases List.mem_cons.mp hd with rfl | hd
        · omega
        · exact ih (Nat.le_refl 1) hds d hd
      · intro d hd
        rcases List.mem_cons.mp hd with rfl | hd
        · omega
        · exact ih (Nat.zero_le 1) hds d hd

/-- **Doubling is exact**: the new list and the carry out denote twice the old value plus the
    carry in. -/
theorem double_value (b c : Nat) (ds : List Nat) :
    Nat.ofDigits b (double b c ds).1 + b ^ ds.length * (double b c ds).2 =
      2 * Nat.ofDigits b ds + c := by
  induction ds generalizing c with
  | nil => simp [double, Nat.ofDigits_nil]
  | cons d ds ih =>
      rw [double]
      split
      · rename_i hb
        have h := ih 1
        simp only [Nat.ofDigits_cons, List.length_cons, pow_succ]
        calc 2 * d + c - b + b * Nat.ofDigits b (double b 1 ds).1 +
              b ^ ds.length * b * (double b 1 ds).2
            = 2 * d + c - b + b * (Nat.ofDigits b (double b 1 ds).1 +
                b ^ ds.length * (double b 1 ds).2) := by ring
          _ = 2 * d + c - b + b * (2 * Nat.ofDigits b ds + 1) := by rw [h]
          _ = (2 * d + c - b + b) + 2 * (b * Nat.ofDigits b ds) := by ring
          _ = 2 * (d + b * Nat.ofDigits b ds) + c := by rw [Nat.sub_add_cancel hb]; ring
      · have h := ih 0
        simp only [Nat.ofDigits_cons, List.length_cons, pow_succ]
        calc 2 * d + c + b * Nat.ofDigits b (double b 0 ds).1 +
              b ^ ds.length * b * (double b 0 ds).2
            = 2 * d + c + b * (Nat.ofDigits b (double b 0 ds).1 +
                b ^ ds.length * (double b 0 ds).2) := by ring
          _ = 2 * d + c + b * (2 * Nat.ofDigits b ds + 0) := by rw [h]
          _ = 2 * (d + b * Nat.ofDigits b ds) + c := by ring

/-- While the doubled value fits the list, nothing is carried out of it. -/
theorem double_carry_zero {b c : Nat} {ds : List Nat}
    (h : 2 * Nat.ofDigits b ds + c < b ^ ds.length) : (double b c ds).2 = 0 := by
  have hv := double_value b c ds
  rcases Nat.eq_zero_or_pos (double b c ds).2 with h0 | h1
  · exact h0
  · have := Nat.le_mul_of_pos_right (b ^ ds.length) h1
    omega

/-- **Leading zeros stripped, a digit list is the digit list of its value.** -/
theorem reverse_digits_ofDigits {b : Nat} (hb : 1 < b) {ds : List Nat} (h : ∀ d ∈ ds, d < b) :
    ds.reverse.dropWhile (· == 0) = (Nat.digits b (Nat.ofDigits b ds)).reverse := by
  induction ds using List.reverseRecOn with
  | nil => simp
  | append_singleton ds d ih =>
      have hds : ∀ e ∈ ds, e < b := fun e he => h e (List.mem_append_left _ he)
      rw [List.reverse_append, List.reverse_singleton, List.singleton_append]
      by_cases hd : d = 0
      · subst hd
        rw [List.dropWhile_cons_of_pos (by rfl), Nat.ofDigits_append_zero]
        exact ih hds
      · rw [List.dropWhile_cons_of_neg (by simpa using hd),
          Nat.digits_ofDigits b hb _ h fun _ => by simpa using hd]
        simp

/-- A positive number's numeral is its digits from the top. -/
theorem toDigits_eq_digits {b : Nat} (hb : 1 < b) {n : Nat} (hn : 0 < n) :
    Nat.toDigits b n = (Nat.digits b n).reverse.map Nat.digitChar := by
  induction n using Nat.strong_induction_on with
  | _ n ih =>
      rw [Nat.digits_def' hb hn, List.reverse_cons, List.map_append]
      rcases Nat.lt_or_ge n b with hlt | hge
      · rw [Nat.toDigits_of_lt_base hlt, Nat.div_eq_of_lt hlt, Nat.mod_eq_of_lt hlt]
        simp
      · have hq : 0 < n / b := Nat.div_pos hge (by omega)
        rw [Nat.toDigits_of_base_le hb hge, ih _ (Nat.div_lt_self hn hb) hq]
        rfl

/-! ## Reading a digit list from the top -/

/-- **Multiply and accumulate**: the accumulator ends as the value of the digits, behind the value
    it started with. -/
theorem foldl_eq_ofDigits (b v : Nat) (ds : List Nat) :
    ds.foldl (fun v d => b * v + d) v = b ^ ds.length * v + Nat.ofDigits b ds.reverse := by
  induction ds generalizing v with
  | nil => simp [Nat.ofDigits_nil]
  | cons d ds ih =>
      rw [List.foldl_cons, ih, List.reverse_cons, Nat.ofDigits_append, Nat.ofDigits_singleton,
        List.length_reverse, List.length_cons, pow_succ]
      ring

/-- The `w` lowest digits of a number. -/
theorem ofDigits_range (b n w : Nat) :
    Nat.ofDigits b ((List.range w).map fun i => n / b ^ i % b) = n % b ^ w := by
  induction w with
  | zero => simp [Nat.ofDigits_nil, Nat.mod_one]
  | succ w ih =>
      rw [List.range_succ, List.map_append, Nat.ofDigits_append, ih, List.map_singleton,
        Nat.ofDigits_singleton, List.length_map, List.length_range, Nat.mod_pow_succ]

end Digits
