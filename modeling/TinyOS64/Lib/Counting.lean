/-
  File:      TinyOS64/Lib/Counting.lean
  Subject:   How many questions of a kind a program asks, whatever the answers.

  `Within P c n p`: when `n` questions with `P` have been asked before, a run of `p` that returns
  `a` has asked at most `c a` by its end. The bound is given by the value returned because a
  search costs more when it finds something (`Searches`).
-/
import TinyOS64.Lib.Interaction

namespace Interaction.Prog

variable {S : Sig} {α β : Type}

/-- At most `c a` questions with `P` when `a` is returned, the `n` asked before included. -/
def Within (P : S.Op → Bool) (c : α → Nat) : Nat → Prog S α → Prop
  | n, ret a => n ≤ c a
  | n, ask o k => ∀ x, Within P c (n + (P o).toNat) (k x)

variable {P : S.Op → Bool}

theorem Within.mono {c c' : α → Nat} (hc : ∀ a, c a ≤ c' a) {n : Nat} {p : Prog S α}
    (h : Within P c n p) : Within P c' n p := by
  induction p generalizing n with
  | ret a => exact Nat.le_trans h (hc a)
  | ask o k ih => exact fun x => ih x (h x)

/-- **Sequencing**: the second part starts with what the first may have asked. -/
theorem within_bind {c : α → Nat} {c' : β → Nat} {n : Nat} {p : Prog S α} {f : α → Prog S β}
    (hp : Within P c n p) (hf : ∀ a m, m ≤ c a → Within P c' m (f a)) :
    Within P c' n (p >>= f) := by
  induction p generalizing n with
  | ret a => exact hf a n hp
  | ask o k ih => exact fun x => ih x (hp x)

/-- A search that asks at most `k` questions with `P`, and `extra` more when it finds something. -/
def Searches (P : S.Op → Bool) (k extra : Nat) (p : Prog S (Option β)) : Prop :=
  ∀ n, Within P (fun r => n + k + if r.isSome then extra else 0) n p

/-- **A search through a list** pays for each element, and once for what it finds. -/
theorem searches_findSomeM? {f : α → Prog S (Option β)} {k extra : Nat} {l : List α}
    (hf : ∀ a ∈ l, Searches P k extra (f a)) :
    Searches P (l.length * k) extra (l.findSomeM? f) := by
  induction l with
  | nil => exact fun n => Nat.le_add_right n _
  | cons a l ih =>
      intro n
      rw [List.findSomeM?]
      refine within_bind (hf a List.mem_cons_self n) fun r m hm => ?_
      rw [List.length_cons, Nat.succ_mul]
      cases r with
      | some b =>
          have hm' : m ≤ n + k + extra := hm
          show m ≤ n + (l.length * k + k) + extra
          omega
      | none =>
          have hm' : m ≤ n + k := hm
          refine (ih (fun a ha => hf a (List.mem_cons_of_mem _ ha)) m).mono fun r => ?_
          split <;> omega

/-- **What the bound says of a transcript.** -/
theorem Within.transcript {c : α → Nat} {n : Nat} {p : Prog S α} (h : Within P c n p)
    {tr : List (Σ o, S.Ans o)} {a : α} (ht : p.Transcript tr a) :
    n + tr.countP (fun e => P e.1) ≤ c a := by
  induction p generalizing n tr with
  | ret b =>
      obtain ⟨rfl, rfl⟩ := ht
      exact h
  | ask o k ih =>
      obtain ⟨x, tr', rfl, ht⟩ := ht
      have hk := ih x (h x) ht
      rw [List.countP_cons]
      cases hP : P o with
      | false =>
          rw [hP, Bool.toNat_false] at hk
          rw [if_neg Bool.false_ne_true]
          omega
      | true =>
          rw [hP, Bool.toNat_true] at hk
          rw [if_pos rfl]
          omega

end Interaction.Prog
