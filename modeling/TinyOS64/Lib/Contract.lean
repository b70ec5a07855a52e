/-
  File:      TinyOS64/Lib/Contract.lean
  Subject:   Programs under a contract with their environment.

  A contract has a state of its own, which the program does not see: what the environment has
  promised so far. In a state some questions may be asked (`owes`), and an answer may move the
  state on (`may`). `Meets C Q p s` is the weakest precondition: started in `s`, whatever the
  environment answers within the contract, `p` asks only what it may and ends with `Q`.

  * `meets_bind` -- sequencing;
  * `meets_quiet` -- a program whose questions move no state: what it asks and what it returns
    are judged in the state it was started in;
  * `Meets.lower` -- a program whose questions are replaced by programs keeps the contract of
    these.
-/
import TinyOS64.Lib.Interaction

namespace Interaction

/-- What a program owes its environment, and how the environment may answer. -/
structure Contract (S : Sig) (σ : Type) where
  owes : σ → S.Op → Prop
  may : σ → (o : S.Op) → S.Ans o → σ → Prop

/-- The question moves no state, and every answer to it is within the contract. -/
def Contract.Quiet {S : Sig} {σ : Type} (C : Contract S σ) (o : S.Op) : Prop :=
  ∀ s x s', C.may s o x s' ↔ s' = s

namespace Prog

variable {S : Sig} {α β σ : Type} {C : Contract S σ} {s : σ}

/-- **The weakest precondition** of `p` under the contract `C`. -/
def Meets (C : Contract S σ) (Q : α → σ → Prop) : Prog S α → σ → Prop
  | ret a, s => Q a s
  | ask o k, s => C.owes s o ∧ ∀ x s', C.may s o x s' → (k x).Meets C Q s'

@[simp] theorem meets_ret {Q : α → σ → Prop} {a : α} : (ret a : Prog S α).Meets C Q s ↔ Q a s :=
  Iff.rfl

@[simp] theorem meets_ask {Q : α → σ → Prop} {o : S.Op} {k : S.Ans o → Prog S α} :
    (ask o k).Meets C Q s ↔ C.owes s o ∧ ∀ x s', C.may s o x s' → (k x).Meets C Q s' := Iff.rfl

/-- **Sequencing**: the second part is the first part's postcondition. -/
theorem meets_bind {Q : β → σ → Prop} {p : Prog S α} {f : α → Prog S β} :
    (p >>= f).Meets C Q s ↔ p.Meets C (fun a s => (f a).Meets C Q s) s := by
  induction p generalizing s with
  | ret a => exact Iff.rfl
  | ask o k ih =>
      refine ⟨fun h => ?_, fun h => ?_⟩
      · exact ⟨h.1, fun x s' hx => (ih x).mp (h.2 x s' hx)⟩
      · exact ⟨h.1, fun x s' hx => (ih x).mpr (h.2 x s' hx)⟩

/-- A weaker postcondition. -/
theorem Meets.mono {Q Q' : α → σ → Prop} (h : ∀ a s, Q a s → Q' a s) {p : Prog S α}
    (hp : p.Meets C Q s) : p.Meets C Q' s := by
  induction p generalizing s with
  | ret a => exact h a s hp
  | ask o k ih => exact ⟨hp.1, fun x s' hx => ih x (hp.2 x s' hx)⟩

/-- **Questions replaced by programs**: what is put for a question keeps the contract below and
    answers within the contract above. `P` is what is known of the questions besides. -/
theorem Meets.lower {T : Sig} {D : Contract T σ} {h : ∀ o, Prog T (S.Ans o)} {P : S.Op → Prop}
    (hop : ∀ o s, P o → C.owes s o → (h o).Meets D (C.may s o) s) {Q : α → σ → Prop}
    {p : Prog S α} (hP : p.AsksOnly P) (hp : p.Meets C Q s) : (p.lower h).Meets D Q s := by
  induction p generalizing s with
  | ret a => exact hp
  | ask o k ih =>
      refine meets_bind.mpr ((hop o s (not_not.mp hP.1) hp.1).mono fun x s' hx => ?_)
      exact ih x (hP.2 x) (hp.2 x s' hx)

/-- **A quiet program** is judged in the state it was started in. -/
theorem meets_quiet {Q : α → σ → Prop} {p : Prog S α} (hq : p.AsksOnly C.Quiet) :
    p.Meets C Q s ↔ p.AsksOnly (C.owes s) ∧ p.Always fun a => Q a s := by
  induction p with
  | ret a => simp
  | ask o k ih =>
      have hquiet : C.Quiet o := not_not.mp hq.1
      refine ⟨fun h => ?_, fun h => ?_⟩
      · obtain ⟨ho, hk⟩ := h
        have hk' := fun x => (ih x (hq.2 x)).mp (hk x s ((hquiet s x s).mpr rfl))
        exact ⟨asksOnly_ask ho fun x => (hk' x).1, always_ask.mpr fun x => (hk' x).2⟩
      · obtain ⟨hasks, hall⟩ := h
        refine ⟨not_not.mp hasks.1, fun x s' hx => ?_⟩
        rw [(hquiet s x s').mp hx]
        exact (ih x (hq.2 x)).mpr ⟨hasks.2 x, always_ask.mp hall x⟩

end Prog

end Interaction
