/-
  File:      TinyOS64/Lib/Stopping.lean
  Subject:   Programs that may stop with a fault, and the faults they spare.

  `ExceptT ε (Prog S)` is a program that talks to its environment and may stop with an `ε`.
  `Spares bad p` says that, whatever the environment answers, `p` does not stop with a fault
  that is `bad`. The rules follow the shape of a program: a value known beforehand, a part that
  cannot stop, a sequence, a loop, a branch.
-/
import TinyOS64.Lib.Interaction

namespace Interaction

variable {S : Sig} {ε α β : Type} {bad : ε → Prop}

/-- `p` never stops with a `bad` fault. -/
def Spares (bad : ε → Prop) (p : ExceptT ε (Prog S) α) : Prop :=
  p.run.Always fun r => ∀ e, r = .error e → ¬ bad e

theorem spares_pure (a : α) : Spares bad (pure a : ExceptT ε (Prog S) α) :=
  Prog.always_ret.mpr fun _ h => nomatch h

theorem spares_throw {e : ε} : Spares bad (throw e : ExceptT ε (Prog S) α) ↔ ¬ bad e := by
  refine Prog.always_ret.trans ⟨fun h => h e rfl, ?_⟩
  intro h _ h₀
  cases h₀
  exact h

/-! ## A value known beforehand -/

theorem liftM_ok_bind (a : α) (f : α → ExceptT ε (Prog S) β) :
    ((liftM (Except.ok a : Except ε α) : ExceptT ε (Prog S) α) >>= f) = f a := rfl

theorem liftM_error_bind (e : ε) (f : α → ExceptT ε (Prog S) β) :
    ((liftM (Except.error e : Except ε α) : ExceptT ε (Prog S) α) >>= f) = throw e := rfl

/-! ## A part that cannot stop -/

/-- A part that cannot stop runs before the rest. -/
theorem run_liftM_bind (p : Prog S α) (f : α → ExceptT ε (Prog S) β) :
    ((liftM p : ExceptT ε (Prog S) α) >>= f).run = p >>= fun a => (f a).run := by
  change ((p >>= fun a => Prog.ret (Except.ok a)) >>= ExceptT.bindCont f) = _
  rw [Prog.bind_assoc]
  rfl

/-- A part that cannot stop, at the end. -/
theorem run_liftM (p : Prog S α) :
    (liftM p : ExceptT ε (Prog S) α).run = p >>= fun a => .ret (.ok a) := rfl

theorem spares_liftM (p : Prog S α) : Spares bad (liftM p : ExceptT ε (Prog S) α) := by
  change (p >>= fun a => Prog.ret (Except.ok a)).Always _
  rw [Prog.always_bind]
  exact fun _ _ => Prog.always_ret.mpr fun _ h => nomatch h

/-- **After a part that cannot stop**: the rest spares `bad` for every value it can be given. -/
theorem spares_liftM_bind {p : Prog S α} {f : α → ExceptT ε (Prog S) β} :
    Spares bad ((liftM p : ExceptT ε (Prog S) α) >>= f) ↔ p.Always fun a => Spares bad (f a) := by
  unfold Spares
  rw [run_liftM_bind, Prog.always_bind]

/-! ## Sequences and loops -/

/-- **Sequencing.** -/
theorem spares_bind {p : ExceptT ε (Prog S) α} {f : α → ExceptT ε (Prog S) β}
    (hp : Spares bad p) (hf : ∀ a, Spares bad (f a)) : Spares bad (p >>= f) := by
  change (p.run >>= ExceptT.bindCont f).Always _
  refine Prog.Always.bind hp fun r hr => ?_
  cases r with
  | ok a => exact hf a
  | error e => exact spares_throw.mpr (hr e rfl)

theorem Spares.mono {bad' : ε → Prop} (h : ∀ e, bad' e → bad e) {p : ExceptT ε (Prog S) α}
    (hp : Spares bad p) : Spares bad' p :=
  Prog.Always.mono (fun _ hr e he hbad => hr e he (h e hbad)) hp

/-- The first part of a sequence spares what the sequence spares. -/
theorem Spares.left {p : ExceptT ε (Prog S) α} {f : α → ExceptT ε (Prog S) β}
    (h : Spares bad (p >>= f)) : Spares bad p := by
  have hrun : (p >>= f).run = p.run >>= ExceptT.bindCont f := rfl
  unfold Spares at h ⊢
  rw [hrun, Prog.always_bind] at h
  refine h.mono fun r hr e he => ?_
  subst he
  exact Prog.always_ret.mp hr e rfl

theorem spares_forM {f : α → ExceptT ε (Prog S) PUnit} (hf : ∀ a, Spares bad (f a)) (l : List α) :
    Spares bad (l.forM f) := by
  induction l with
  | nil => exact spares_pure _
  | cons a l ih => exact spares_bind (hf a) fun _ => ih

theorem spares_ite {c : Prop} [Decidable c] {p q : ExceptT ε (Prog S) α} (hp : Spares bad p)
    (hq : Spares bad q) : Spares bad (if c then p else q) := by
  by_cases h : c
  · rw [if_pos h]; exact hp
  · rw [if_neg h]; exact hq

/-! ## What such programs ask -/

section Confined

variable {Q : S.Op → Prop}

/-- Whatever the answers, every question `p` asks has `Q`, stopping or not. -/
abbrev Confined (Q : S.Op → Prop) (p : ExceptT ε (Prog S) α) : Prop := p.run.AsksOnly Q

theorem confined_pure (a : α) : Confined Q (pure a : ExceptT ε (Prog S) α) := trivial

theorem confined_throw (e : ε) : Confined Q (throw e : ExceptT ε (Prog S) α) := trivial

theorem confined_liftM {p : Prog S α} (hp : p.AsksOnly Q) :
    Confined Q (liftM p : ExceptT ε (Prog S) α) := by
  unfold Confined
  rw [run_liftM]
  exact Prog.avoids_bind hp fun _ => trivial

/-- **Sequencing.** -/
theorem confined_bind {p : ExceptT ε (Prog S) α} {f : α → ExceptT ε (Prog S) β}
    (hp : Confined Q p) (hf : ∀ a, Confined Q (f a)) : Confined Q (p >>= f) := by
  refine Prog.avoids_bind hp fun r => ?_
  cases r with
  | ok a => exact hf a
  | error e => trivial

theorem confined_after {p : Prog S α} {f : α → ExceptT ε (Prog S) β} (hp : p.AsksOnly Q)
    (hf : ∀ a, Confined Q (f a)) : Confined Q ((liftM p : ExceptT ε (Prog S) α) >>= f) :=
  confined_bind (confined_liftM hp) hf

/-- A value known beforehand, and what is done with it. -/
theorem confined_value {r : Except ε α} {f : α → ExceptT ε (Prog S) β}
    (hf : ∀ a, r = .ok a → Confined Q (f a)) :
    Confined Q ((liftM r : ExceptT ε (Prog S) α) >>= f) := by
  cases r with
  | ok a => exact hf a rfl
  | error e => exact confined_throw e

theorem confined_forM {f : α → ExceptT ε (Prog S) PUnit} (hf : ∀ a, Confined Q (f a))
    (l : List α) : Confined Q (l.forM f) := by
  induction l with
  | nil => trivial
  | cons a l ih => exact confined_bind (hf a) fun _ => ih

theorem confined_ite {c : Prop} [Decidable c] {p q : ExceptT ε (Prog S) α} (hp : Confined Q p)
    (hq : Confined Q q) : Confined Q (if c then p else q) := by
  by_cases h : c
  · rw [if_pos h]; exact hp
  · rw [if_neg h]; exact hq

end Confined

/-! ## What such programs return -/

section Yields

variable {P : α → Prop} {Q : β → Prop} {σ : Type}

/-- Whatever the answers, `p` returns a value with `P`, or stops. -/
def Yields (P : α → Prop) (p : ExceptT ε (Prog S) α) : Prop :=
  p.run.Always fun r => ∀ a, r = .ok a → P a

theorem yields_pure {a : α} : Yields P (pure a : ExceptT ε (Prog S) α) ↔ P a := by
  refine Prog.always_ret.trans ⟨fun h => h a rfl, fun h a' ha => ?_⟩
  cases ha
  exact h

theorem yields_throw (e : ε) : Yields P (throw e : ExceptT ε (Prog S) α) :=
  Prog.always_ret.mpr fun _ h => nomatch h

theorem Yields.mono {P' : α → Prop} (h : ∀ a, P a → P' a) {p : ExceptT ε (Prog S) α}
    (hp : Yields P p) : Yields P' p :=
  Prog.Always.mono (fun _ hr a ha => h a (hr a ha)) hp

/-- **Sequencing.** -/
theorem yields_bind {p : ExceptT ε (Prog S) α} {f : α → ExceptT ε (Prog S) β} (hp : Yields P p)
    (hf : ∀ a, P a → Yields Q (f a)) : Yields Q (p >>= f) := by
  change (p.run >>= ExceptT.bindCont f).Always _
  refine Prog.Always.bind hp fun r hr => ?_
  cases r with
  | ok a => exact hf a (hr a rfl)
  | error e => exact yields_throw e

/-- The rest returns such values whatever it starts with. -/
theorem yields_then {p : ExceptT ε (Prog S) α} {f : α → ExceptT ε (Prog S) β}
    (hf : ∀ a, Yields Q (f a)) : Yields Q (p >>= f) :=
  yields_bind (P := fun _ => True) (fun _ _ _ _ => trivial) fun a _ => hf a

theorem yields_liftM {p : Prog S α} (hp : p.Always P) :
    Yields P (liftM p : ExceptT ε (Prog S) α) := by
  unfold Yields
  rw [run_liftM]
  refine hp.bind fun a ha => Prog.always_ret.mpr fun b hb => ?_
  cases hb
  exact ha

/-- What a program returns is among the values it can return. -/
theorem yields_outcome (p : ExceptT ε (Prog S) α) :
    Yields (fun a => p.run.Outcome (fun _ _ => True) (.ok a)) p := by
  intro r hr a ha
  rw [← ha]
  exact hr

/-- Values of the two parts of a sequence. -/
theorem outcome_run_bind {ok : ∀ o, S.Ans o → Prop} {p : ExceptT ε (Prog S) α}
    {f : α → ExceptT ε (Prog S) β} {a : α} {b : β} (hp : p.run.Outcome ok (.ok a))
    (hf : (f a).run.Outcome ok (.ok b)) : (p >>= f).run.Outcome ok (.ok b) :=
  Prog.outcome_bind.mpr ⟨.ok a, hp, hf⟩

/-- What the first part returns decides what the second can stop with. -/
theorem spares_bind_yields {bad : ε → Prop} {p : ExceptT ε (Prog S) α}
    {f : α → ExceptT ε (Prog S) β} (hp : Spares bad p) (hP : Yields P p)
    (hf : ∀ a, P a → Spares bad (f a)) : Spares bad (p >>= f) := by
  change (p.run >>= ExceptT.bindCont f).Always _
  refine Prog.always_bind.mpr fun r hr => ?_
  cases r with
  | ok a => exact hf a (hP _ hr a rfl)
  | error e => exact spares_throw.mpr (hp _ hr e rfl)

/-- The second part spares what the sequence spares, whatever the first has returned. -/
theorem Spares.right {bad : ε → Prop} {p : ExceptT ε (Prog S) α} {f : α → ExceptT ε (Prog S) β}
    (h : Spares bad (p >>= f)) : Yields (fun a => Spares bad (f a)) p := by
  change (p.run >>= ExceptT.bindCont f).Always _ at h
  rw [Prog.always_bind] at h
  refine h.mono fun r hr a ha => ?_
  cases ha
  exact hr

/-- What the first part returns bounds what the second can ask. -/
theorem confined_bind_yields {R : S.Op → Prop} {p : ExceptT ε (Prog S) α}
    {f : α → ExceptT ε (Prog S) β} (hp : Confined R p) (hP : Yields P p)
    (hf : ∀ a, P a → Confined R (f a)) : Confined R (p >>= f) := by
  refine Prog.avoids_bind_always hp hP fun r hr => ?_
  cases r with
  | ok a => exact hf a (hr a rfl)
  | error e => trivial

/-- A run on a device returns such a value. -/
theorem Yields.exec {p : ExceptT ε (Prog S) α} (hp : Yields P p) {d : Prog.Device S σ} {s s' : σ}
    {a : α} (h : p.run.exec d s = (.ok a, s')) : P a :=
  Prog.Always.exec hp d s a (congrArg Prod.fst h)

end Yields

/-! ## Runs on a device -/

section Exec

variable {σ : Type} {d : Prog.Device S σ} {s s' : σ}

theorem exec_run_bind {p : ExceptT ε (Prog S) α} {a : α} (h : p.run.exec d s = (.ok a, s'))
    (f : α → ExceptT ε (Prog S) β) : (p >>= f).run.exec d s = (f a).run.exec d s' := by
  change (p.run >>= ExceptT.bindCont f).exec d s = _
  rw [Prog.exec_bind, h]
  rfl

/-- What is done with the value alone leaves the device where the first part has. -/
theorem exec_run_discard (p : ExceptT ε (Prog S) α) (b : β) :
    ((p >>= fun _ => pure b).run.exec d s).2 = (p.run.exec d s).2 := by
  change ((p.run >>= ExceptT.bindCont fun _ => pure b).exec d s).2 = _
  rw [Prog.exec_bind]
  cases p.run.exec d s with
  | mk r s₁ => cases r <;> rfl

/-- A sequence that has returned: its parts have, one after the other. -/
theorem exec_run_bind_ok {p : ExceptT ε (Prog S) α} {f : α → ExceptT ε (Prog S) β} {b : β}
    (h : (p >>= f).run.exec d s = (.ok b, s')) :
    ∃ a s₁, p.run.exec d s = (.ok a, s₁) ∧ (f a).run.exec d s₁ = (.ok b, s') := by
  change (p.run >>= ExceptT.bindCont f).exec d s = _ at h
  rw [Prog.exec_bind] at h
  cases hp : p.run.exec d s with
  | mk r s₁ =>
      rw [hp] at h
      cases r with
      | ok a => exact ⟨a, s₁, rfl, h⟩
      | error e => cases h

end Exec

end Interaction
