/-
  File:      TinyOS64/Lib/Interaction.lean
  Subject:   Programs that talk to an environment, and the readings of one program.

  A driver asks (reads a register, sends a command) and the environment answers. `Prog S α` is
  such a program as a tree: a question of the signature `S`, then one continuation for every
  answer. Nothing here names a device. The readings:

  * `answer R p`: every question is answered by the function `R`, the value returned;
  * `exec d p s`: a device `d` with a state `s` answers, and may change its state; `asks d p s`
    lists the questions of that run;
  * `Outcome ok p a`: some choice of answers, each admissible by `ok`, makes `p` return `a`;
  * `Transcript p tr a`: asked and answered as the list `tr` says, `p` returns `a`;
  * `Run step d p s tr a s'`: the device moves on its own (`step`) between any two questions;
    `tr` records every question with the device state it met.

  `lower h p` replaces every question by a program over a second signature; the lemmas at the
  end carry an outcome of the lowered program back to an outcome of `p`.
-/
import Mathlib.Data.List.Forall2
import Mathlib.Logic.Relation

namespace Interaction

/-- A signature: the questions and, for each, the type of its answers. -/
structure Sig where
  Op : Type
  Ans : Op → Type

/-- A program over `S`: return a value, or ask and go on with the answer. -/
inductive Prog (S : Sig) (α : Type) where
  | ret (a : α) : Prog S α
  | ask (o : S.Op) (k : S.Ans o → Prog S α) : Prog S α

namespace Prog

variable {S T : Sig} {α β γ σ : Type}

/-- Sequencing: the continuation is grafted on every leaf. -/
def bind : Prog S α → (α → Prog S β) → Prog S β
  | ret a, f => f a
  | ask o k, f => ask o fun x => (k x).bind f

instance : Monad (Prog S) where
  pure := ret
  bind := bind

@[simp] theorem pure_eq (a : α) : (pure a : Prog S α) = ret a := rfl

@[simp] theorem ret_bind (a : α) (f : α → Prog S β) : (ret a >>= f) = f a := rfl

@[simp] theorem ask_bind (o : S.Op) (k : S.Ans o → Prog S α) (f : α → Prog S β) :
    (ask o k >>= f) = ask o fun x => k x >>= f := rfl

theorem bind_ret (p : Prog S α) : (p >>= ret) = p := by
  induction p with
  | ret a => rfl
  | ask o k ih => rw [ask_bind]; exact congrArg (ask o) (funext ih)

theorem bind_assoc (p : Prog S α) (f : α → Prog S β) (g : β → Prog S γ) :
    (p >>= f >>= g) = p >>= fun a => f a >>= g := by
  induction p with
  | ret a => rfl
  | ask o k ih => simp only [ask_bind]; exact congrArg (ask o) (funext ih)

instance : LawfulMonad (Prog S) :=
  .mk' (Prog S) bind_ret (fun _ _ => rfl) bind_assoc

/-! ## 1. Every question answered by a function -/

/-- The value `p` returns when `R` answers every question. -/
def answer (R : ∀ o, S.Ans o) : Prog S α → α
  | ret a => a
  | ask o k => (k (R o)).answer R

section Answer

variable (R : ∀ o, S.Ans o)

@[simp] theorem answer_ret (a : α) : (ret a : Prog S α).answer R = a := rfl

@[simp] theorem answer_ask (o : S.Op) (k : S.Ans o → Prog S α) :
    (ask o k).answer R = (k (R o)).answer R := rfl

@[simp] theorem answer_bind (p : Prog S α) (f : α → Prog S β) :
    (p >>= f).answer R = (f (p.answer R)).answer R := by
  induction p with
  | ret a => rfl
  | ask o k ih => exact ih (R o)

theorem answer_mapM (f : α → Prog S β) (l : List α) :
    (l.mapM f).answer R = l.map fun a => (f a).answer R := by
  induction l with
  | nil => rfl
  | cons a l ih => simp [List.mapM_cons, ih]

theorem answer_foldlM (f : β → α → Prog S β) (l : List α) (b : β) :
    (l.foldlM f b).answer R = l.foldl (fun b a => (f b a).answer R) b := by
  induction l generalizing b with
  | nil => rfl
  | cons a l ih => rw [List.foldlM_cons, answer_bind, ih, List.foldl_cons]

/-- The questions `p` asks when `R` answers them. -/
def asked (R : ∀ o, S.Ans o) : Prog S α → List S.Op
  | ret _ => []
  | ask o k => o :: (k (R o)).asked R

@[simp] theorem asked_ret (a : α) : (ret a : Prog S α).asked R = [] := rfl

@[simp] theorem asked_ask (o : S.Op) (k : S.Ans o → Prog S α) :
    (ask o k).asked R = o :: (k (R o)).asked R := rfl

@[simp] theorem asked_bind (p : Prog S α) (f : α → Prog S β) :
    (p >>= f).asked R = p.asked R ++ (f (p.answer R)).asked R := by
  induction p with
  | ret a => rfl
  | ask o k ih => exact congrArg (o :: ·) (ih (R o))

/-- A loop asks what its turns ask, one after the other. -/
theorem asked_forM (f : α → Prog S PUnit) (l : List α) :
    (l.forM f).asked R = l.flatMap fun a => (f a).asked R := by
  induction l with
  | nil => rfl
  | cons a l ih =>
      rw [List.flatMap_cons, ← ih]
      exact asked_bind R (f a) fun _ => l.forM f

/-- What a loop asks, one of its turns asks. -/
theorem mem_asked_foldlM {f : β → α → Prog S β} {l : List α} {b : β} {o : S.Op}
    (h : o ∈ (l.foldlM f b).asked R) : ∃ a ∈ l, ∃ b', o ∈ (f b' a).asked R := by
  induction l generalizing b with
  | nil => exact absurd h List.not_mem_nil
  | cons a l ih =>
      rw [List.foldlM_cons, asked_bind] at h
      rcases List.mem_append.mp h with h | h
      · exact ⟨a, List.mem_cons_self, b, h⟩
      · obtain ⟨a', ha', hb'⟩ := ih h
        exact ⟨a', List.mem_cons_of_mem _ ha', hb'⟩

end Answer

/-! ## 2. A device with a state -/

/-- A device: how it answers in a state, and the state it goes to. -/
abbrev Device (S : Sig) (σ : Type) := (o : S.Op) → σ → S.Ans o × σ

/-- `p` run on the device `d` from the state `s`. -/
def exec (d : Device S σ) : Prog S α → σ → α × σ
  | ret a, s => (a, s)
  | ask o k, s => (k (d o s).1).exec d (d o s).2

section Exec

variable (d : Device S σ)

@[simp] theorem exec_ret (a : α) (s : σ) : (ret a : Prog S α).exec d s = (a, s) := rfl

@[simp] theorem exec_ask (o : S.Op) (k : S.Ans o → Prog S α) (s : σ) :
    (ask o k).exec d s = (k (d o s).1).exec d (d o s).2 := rfl

@[simp] theorem exec_bind (p : Prog S α) (f : α → Prog S β) (s : σ) :
    (p >>= f).exec d s = (f (p.exec d s).1).exec d (p.exec d s).2 := by
  induction p generalizing s with
  | ret a => rfl
  | ask o k ih => exact ih _ _

/-- The device `d` moves as `d'` does on what `view` shows of its states. -/
def SeenThrough {τ : Type} (view : σ → τ) (d : Device S σ) (d' : Device S τ) : Prop :=
  ∀ o s, ((d o s).1, view (d o s).2) = d' o (view s)

/-- So do the runs of every program. -/
theorem SeenThrough.exec {τ : Type} {view : σ → τ} {d : Device S σ} {d' : Device S τ}
    (h : SeenThrough view d d') (p : Prog S α) (s : σ) :
    ((p.exec d s).1, view (p.exec d s).2) = p.exec d' (view s) := by
  induction p generalizing s with
  | ret a => rfl
  | ask o k ih =>
      have ho := h o s
      rw [exec_ask, exec_ask, ih, ← ho]

/-- The questions `p` asks the device `d` from the state `s`. -/
def asks (d : Device S σ) : Prog S α → σ → List S.Op
  | ret _, _ => []
  | ask o k, s => o :: (k (d o s).1).asks d (d o s).2

@[simp] theorem asks_ret (a : α) (s : σ) : (ret a : Prog S α).asks d s = [] := rfl

@[simp] theorem asks_ask (o : S.Op) (k : S.Ans o → Prog S α) (s : σ) :
    (ask o k).asks d s = o :: (k (d o s).1).asks d (d o s).2 := rfl

@[simp] theorem asks_bind (p : Prog S α) (f : α → Prog S β) (s : σ) :
    (p >>= f).asks d s = p.asks d s ++ (f (p.exec d s).1).asks d (p.exec d s).2 := by
  induction p generalizing s with
  | ret a => rfl
  | ask o k ih => exact congrArg (o :: ·) (ih _ _)

/-- **A loop whose turns leave the device as it is** asks what its turns ask from there. -/
theorem run_forM_of_keeps {f : α → Prog S PUnit} {l : List α} {s : σ}
    (h : ∀ a ∈ l, (f a).exec d s = ((), s)) :
    (l.forM f).exec d s = ((), s) ∧ (l.forM f).asks d s = l.flatMap fun a => (f a).asks d s := by
  induction l with
  | nil => exact ⟨rfl, rfl⟩
  | cons a l ih =>
      obtain ⟨hexec, hasks⟩ := ih fun b hb => h b (List.mem_cons_of_mem _ hb)
      have hcons : (a :: l).forM f = (f a >>= fun _ => l.forM f) := rfl
      rw [hcons, exec_bind, asks_bind, h a List.mem_cons_self, List.flatMap_cons]
      exact ⟨hexec, congrArg _ hasks⟩

/-- A loop with a value, its turns leaving the device as it is. -/
theorem exec_foldlM_of_keeps {f : β → α → Prog S β} {g : β → α → β} {s : σ}
    (h : ∀ b a, (f b a).exec d s = (g b a, s)) (l : List α) (b : β) :
    (l.foldlM f b).exec d s = (l.foldl g b, s) := by
  induction l generalizing b with
  | nil => rfl
  | cons a l ih =>
      rw [List.foldlM_cons, exec_bind, h, List.foldl_cons]
      exact ih _

/-- **A search through a list**, each probe's value known while `I` holds of the device state. -/
theorem exec_findSomeM? {I : σ → Prop} {f : α → Prog S (Option β)} {g : α → Option β}
    {l : List α} (h : ∀ a ∈ l, ∀ s, I s → ((f a).exec d s).1 = g a ∧ I ((f a).exec d s).2)
    {s : σ} (hI : I s) :
    ((l.findSomeM? f).exec d s).1 = l.findSome? g ∧ I ((l.findSomeM? f).exec d s).2 := by
  induction l generalizing s with
  | nil => exact ⟨rfl, hI⟩
  | cons a l ih =>
      obtain ⟨ha, hIa⟩ := h a List.mem_cons_self s hI
      rw [List.findSomeM?, exec_bind, ha, List.findSome?_cons]
      cases g a with
      | some b => exact ⟨rfl, hIa⟩
      | none => exact ih (fun a hm => h a (List.mem_cons_of_mem _ hm)) hIa

end Exec

/-! ## 3. Any admissible answers -/

/-- `p` can return `b` when every question gets some answer that `ok` admits. -/
def Outcome (ok : ∀ o, S.Ans o → Prop) : Prog S α → α → Prop
  | ret a, b => b = a
  | ask o k, b => ∃ x, ok o x ∧ (k x).Outcome ok b

section Outcome

variable {ok ok' : ∀ o, S.Ans o → Prop}

@[simp] theorem outcome_ret {a b : α} : (ret a : Prog S α).Outcome ok b ↔ b = a := Iff.rfl

@[simp] theorem outcome_ask {o : S.Op} {k : S.Ans o → Prog S α} {b : α} :
    (ask o k).Outcome ok b ↔ ∃ x, ok o x ∧ (k x).Outcome ok b := Iff.rfl

theorem outcome_bind {p : Prog S α} {f : α → Prog S β} {b : β} :
    (p >>= f).Outcome ok b ↔ ∃ a, p.Outcome ok a ∧ (f a).Outcome ok b := by
  induction p with
  | ret a => simp
  | ask o k ih =>
      simp only [ask_bind, outcome_ask, ih]
      refine ⟨fun h => ?_, fun h => ?_⟩
      · rcases h with ⟨x, hx, a, ha, hb⟩
        exact ⟨a, ⟨x, hx, ha⟩, hb⟩
      · rcases h with ⟨a, ⟨x, hx, ha⟩, hb⟩
        exact ⟨x, hx, a, ha, hb⟩

/-- More admissible answers, more outcomes. -/
theorem Outcome.mono (h : ∀ o x, ok o x → ok' o x) {p : Prog S α} {b : α}
    (hb : p.Outcome ok b) : p.Outcome ok' b := by
  induction p with
  | ret a => exact hb
  | ask o k ih =>
      obtain ⟨x, hx, hk⟩ := hb
      exact ⟨x, h o x hx, ih x hk⟩

/-- **One admissible answer a question, one outcome**: the value `answer` computes. -/
theorem outcome_answer (R : ∀ o, S.Ans o) (p : Prog S α) (b : α) :
    p.Outcome (fun o x => x = R o) b ↔ b = p.answer R := by
  induction p with
  | ret a => exact Iff.rfl
  | ask o k ih =>
      refine ⟨fun h => ?_, fun h => ?_⟩
      · rcases h with ⟨x, rfl, hk⟩
        exact (ih _).mp hk
      · exact ⟨R o, rfl, (ih _).mpr h⟩

theorem outcome_of_answer {R : ∀ o, S.Ans o} (hR : ∀ o, ok o (R o)) (p : Prog S α) :
    p.Outcome ok (p.answer R) :=
  Outcome.mono (fun _ _ e => e ▸ hR _) ((outcome_answer R p _).mpr rfl)

/-- A list traversed by a program: each element has its own outcome. -/
theorem outcome_mapM {f : α → Prog S β} {l : List α} {r : List β} :
    (l.mapM f).Outcome ok r ↔ List.Forall₂ (fun a b => (f a).Outcome ok b) l r := by
  induction l generalizing r with
  | nil => simp [List.mapM_nil, List.forall₂_nil_left_iff]
  | cons a l ih =>
      simp only [List.mapM_cons, outcome_bind, pure_eq, outcome_ret, ih]
      refine ⟨fun h => ?_, fun h => ?_⟩
      · rcases h with ⟨b, hb, r', hr, rfl⟩
        exact .cons hb hr
      · cases h with
        | cons hb hr => exact ⟨_, hb, _, hr, rfl⟩

end Outcome

/-- Whatever the answers, `p` returns a value with `Q`. -/
def Always (Q : α → Prop) (p : Prog S α) : Prop := ∀ a, p.Outcome (fun _ _ => True) a → Q a

section Always

variable {Q : α → Prop}

@[simp] theorem always_ret {a : α} : Always Q (ret a : Prog S α) ↔ Q a := by
  simp [Always]

@[simp] theorem always_ask {o : S.Op} {k : S.Ans o → Prog S α} :
    Always Q (ask o k) ↔ ∀ x, Always Q (k x) := by
  constructor
  · exact fun h x a ha => h a ⟨x, trivial, ha⟩
  · intro h a h₀
    rcases h₀ with ⟨x, _, ha⟩
    exact h x a ha

theorem Always.mono {Q' : α → Prop} (h : ∀ a, Q a → Q' a) {p : Prog S α} (hp : Always Q p) :
    Always Q' p := fun a ha => h a (hp a ha)

theorem always_bind {Q : β → Prop} {p : Prog S α} {f : α → Prog S β} :
    Always Q (p >>= f) ↔ Always (fun a => Always Q (f a)) p := by
  constructor
  · exact fun h a ha b hb => h b (outcome_bind.mpr ⟨a, ha, hb⟩)
  · intro h b hb
    obtain ⟨a, ha, hb⟩ := outcome_bind.mp hb
    exact h a ha b hb

/-- **Sequencing**: a property of the first part's values carries to the second part. -/
theorem Always.bind {Q' : β → Prop} {p : Prog S α} {f : α → Prog S β} (hp : Always Q p)
    (hf : ∀ a, Q a → Always Q' (f a)) : Always Q' (p >>= f) :=
  always_bind.mpr (hp.mono hf)

theorem Always.and {Q' : α → Prop} {p : Prog S α} (hp : Always Q p) (hp' : Always Q' p) :
    Always (fun a => Q a ∧ Q' a) p := fun a ha => ⟨hp a ha, hp' a ha⟩

/-- **A loop**: what each turn keeps, the loop keeps. -/
theorem always_foldlM {I : β → Prop} {f : β → α → Prog S β} {l : List α}
    (hf : ∀ b, I b → ∀ a ∈ l, Always I (f b a)) {b : β} (hb : I b) :
    Always I (l.foldlM f b) := by
  induction l generalizing b with
  | nil => exact always_ret.mpr hb
  | cons a l ih =>
      rw [List.foldlM_cons]
      refine Always.bind (hf b hb a List.mem_cons_self) fun b' hb' => ?_
      exact ih (fun c hc d hd => hf c hc d (List.mem_cons_of_mem _ hd)) hb'

/-- A list traversed: as many values, each with what its element's program returns. -/
theorem always_mapM {Q : β → Prop} {f : α → Prog S β} {l : List α}
    (hf : ∀ a ∈ l, Always Q (f a)) :
    Always (fun r => r.length = l.length ∧ ∀ b ∈ r, Q b) (l.mapM f) := by
  intro r hr
  have hall := outcome_mapM.mp hr
  refine ⟨hall.length_eq.symm, ?_⟩
  clear hr
  induction hall with
  | nil => exact fun b hb => absurd hb List.not_mem_nil
  | cons hb _ ih =>
      intro b hmem
      rcases List.mem_cons.mp hmem with rfl | hmem
      · exact hf _ List.mem_cons_self _ hb
      · exact ih (fun a ha => hf a (List.mem_cons_of_mem _ ha)) b hmem

/-- **A search through a list**: what holds of every find of a probe holds of the search's. -/
theorem always_findSomeM? {Q : β → Prop} {f : α → Prog S (Option β)} {l : List α}
    (hf : ∀ a ∈ l, Always (fun r => ∀ b ∈ r, Q b) (f a)) :
    Always (fun r => ∀ b ∈ r, Q b) (l.findSomeM? f) := by
  induction l with
  | nil => exact always_ret.mpr fun b hb => nomatch hb
  | cons a l ih =>
      rw [List.findSomeM?]
      refine Always.bind (hf a List.mem_cons_self) fun r hr => ?_
      cases r with
      | some b => exact always_ret.mpr hr
      | none => exact ih fun a ha => hf a (List.mem_cons_of_mem _ ha)

/-- What holds of every outcome holds of the one a function of answers gives. -/
theorem Always.answer {p : Prog S α} (hp : Always Q p) (R : ∀ o, S.Ans o) : Q (p.answer R) :=
  hp _ (outcome_of_answer (fun _ => trivial) p)

end Always

/-- Whatever the answers, `p` asks no question with `P`. -/
def Avoids (P : S.Op → Prop) : Prog S α → Prop
  | ret _ => True
  | ask o k => ¬ P o ∧ ∀ x, (k x).Avoids P

section Avoids

variable {P : S.Op → Prop}

@[simp] theorem avoids_ret {a : α} : (ret a : Prog S α).Avoids P := trivial

@[simp] theorem avoids_ask {o : S.Op} {k : S.Ans o → Prog S α} :
    (ask o k).Avoids P ↔ ¬ P o ∧ ∀ x, (k x).Avoids P := Iff.rfl

theorem avoids_bind {p : Prog S α} {f : α → Prog S β} (hp : p.Avoids P)
    (hf : ∀ a, (f a).Avoids P) : (p >>= f).Avoids P := by
  induction p with
  | ret a => exact hf a
  | ask o k ih => exact ⟨hp.1, fun x => ih x (hp.2 x)⟩

/-- The first part of a sequence avoids what the sequence avoids. -/
theorem Avoids.left {p : Prog S α} {f : α → Prog S β} (h : (p >>= f).Avoids P) :
    p.Avoids P := by
  induction p with
  | ret a => trivial
  | ask o k ih => exact ⟨h.1, fun x => ih x (h.2 x)⟩

theorem avoids_mapM {f : α → Prog S β} {l : List α} (hf : ∀ a ∈ l, (f a).Avoids P) :
    (l.mapM f).Avoids P := by
  induction l with
  | nil => trivial
  | cons a l ih =>
      have hl : (l.mapM f).Avoids P := ih fun b hb => hf b (List.mem_cons_of_mem _ hb)
      rw [List.mapM_cons]
      exact avoids_bind (hf a List.mem_cons_self) fun b => avoids_bind hl fun r => trivial

theorem avoids_forM {f : α → Prog S PUnit} {l : List α} (hf : ∀ a ∈ l, (f a).Avoids P) :
    (l.forM f).Avoids P := by
  induction l with
  | nil => trivial
  | cons a l ih =>
      have hl : (l.forM f).Avoids P := ih fun b hb => hf b (List.mem_cons_of_mem _ hb)
      exact avoids_bind (hf a List.mem_cons_self) fun _ => hl

theorem avoids_findSomeM? {f : α → Prog S (Option β)} {l : List α}
    (hf : ∀ a ∈ l, (f a).Avoids P) : (l.findSomeM? f).Avoids P := by
  induction l with
  | nil => trivial
  | cons a l ih =>
      rw [List.findSomeM?]
      refine avoids_bind (hf a List.mem_cons_self) fun b => ?_
      cases b with
      | none => exact ih fun a' ha' => hf a' (List.mem_cons_of_mem a ha')
      | some b => trivial

theorem Avoids.mono {P' : S.Op → Prop} (h : ∀ o, P' o → P o) {p : Prog S α}
    (hp : p.Avoids P) : p.Avoids P' := by
  induction p with
  | ret a => trivial
  | ask o k ih => exact ⟨fun ho => hp.1 (h o ho), fun x => ih x (hp.2 x)⟩

/-- Sequencing, the second part started with the values the first can return. -/
theorem avoids_bind_always {Q : α → Prop} {p : Prog S α} {f : α → Prog S β} (hp : p.Avoids P)
    (hQ : Always Q p) (hf : ∀ a, Q a → (f a).Avoids P) : (p >>= f).Avoids P := by
  induction p with
  | ret a => exact hf a (always_ret.mp hQ)
  | ask o k ih => exact ⟨hp.1, fun x => ih x (hp.2 x) (always_ask.mp hQ x)⟩

/-- A loop with an invariant. -/
theorem avoids_foldlM {I : β → Prop} {f : β → α → Prog S β} {l : List α}
    (hf : ∀ b, I b → ∀ a ∈ l, (f b a).Avoids P ∧ Always I (f b a)) {b : β} (hb : I b) :
    (l.foldlM f b).Avoids P := by
  induction l generalizing b with
  | nil => trivial
  | cons a l ih =>
      obtain ⟨ha, hI⟩ := hf b hb a List.mem_cons_self
      rw [List.foldlM_cons]
      refine avoids_bind_always ha hI fun b' hb' => ?_
      exact ih (fun c hc d hd => hf c hc d (List.mem_cons_of_mem _ hd)) hb'

/-- Whatever the answers, every question `p` asks has `Q`. -/
abbrev AsksOnly (Q : S.Op → Prop) (p : Prog S α) : Prop := p.Avoids fun o => ¬ Q o

/-- One question, and what is asked after its answer. -/
theorem asksOnly_ask {Q : S.Op → Prop} {o : S.Op} {k : S.Ans o → Prog S α} (ho : Q o)
    (hk : ∀ x, (k x).AsksOnly Q) : (ask o k).AsksOnly Q := ⟨not_not.mpr ho, hk⟩

/-- One question only. -/
theorem asksOnly_once {Q : S.Op → Prop} {o : S.Op} {f : S.Ans o → α} (ho : Q o) :
    (ask o fun x => ret (f x)).AsksOnly Q := asksOnly_ask ho fun _ => trivial

/-- Without a condition there is nothing to check. -/
theorem asksOnly_true (p : Prog S α) : p.AsksOnly fun _ => True := by
  induction p with
  | ret a => trivial
  | ask o k ih => exact asksOnly_ask trivial ih

theorem AsksOnly.mono {Q Q' : S.Op → Prop} (h : ∀ o, Q o → Q' o) {p : Prog S α}
    (hp : p.AsksOnly Q) : p.AsksOnly Q' := Avoids.mono (fun o hn hq => hn (h o hq)) hp

theorem AsksOnly.and {Q Q' : S.Op → Prop} {p : Prog S α} (hp : p.AsksOnly Q)
    (hp' : p.AsksOnly Q') : p.AsksOnly fun o => Q o ∧ Q' o := by
  induction p with
  | ret a => trivial
  | ask o k ih =>
      exact asksOnly_ask ⟨not_not.mp hp.1, not_not.mp hp'.1⟩ fun x => ih x (hp.2 x) (hp'.2 x)

/-- What every question has, the questions of one run have. -/
theorem AsksOnly.asked {Q : S.Op → Prop} {p : Prog S α} (hp : p.AsksOnly Q)
    (R : ∀ o, S.Ans o) : ∀ o ∈ p.asked R, Q o := by
  induction p with
  | ret a => exact fun o ho => absurd ho List.not_mem_nil
  | ask o k ih =>
      intro o' ho
      rcases List.mem_cons.mp ho with rfl | ho
      · exact not_not.mp hp.1
      · exact ih (R o) (hp.2 (R o)) o' ho

/-- And so have the questions of a run on a device. -/
theorem AsksOnly.asks {Q : S.Op → Prop} {p : Prog S α} (hp : p.AsksOnly Q) (d : Device S σ)
    (s : σ) : ∀ o ∈ p.asks d s, Q o := by
  induction p generalizing s with
  | ret a => exact fun o ho => absurd ho List.not_mem_nil
  | ask o k ih =>
      intro o' ho
      rcases List.mem_cons.mp ho with rfl | ho
      · exact not_not.mp hp.1
      · exact ih _ (hp.2 _) _ o' ho

/-- A program whose questions show nothing, `see` picking what is seen of a question. -/
theorem AsksOnly.unseen {ω : Type} {Q : S.Op → Prop} {see : S.Op → Option ω}
    (hsee : ∀ o, Q o → see o = none) {p : Prog S α} (hp : p.AsksOnly Q) (d : Device S σ) (s : σ) :
    (p.asks d s).filterMap see = [] :=
  List.filterMap_eq_nil_iff.mpr fun o ho => hsee o (hp.asks d s o ho)

/-- **An invariant**: what every question keeps that the program may ask, its runs keep. -/
theorem AsksOnly.keeps {Q : S.Op → Prop} {I : σ → Prop} {d : Device S σ}
    (hd : ∀ o s, Q o → I s → I (d o s).2) {p : Prog S α} (hp : p.AsksOnly Q) {s : σ} (hI : I s) :
    I (p.exec d s).2 := by
  induction p generalizing s with
  | ret a => exact hI
  | ask o k ih => exact ih _ (hp.2 _) (hd o s (not_not.mp hp.1) hI)

/-- **Two devices that treat what is asked alike** run the program alike. -/
theorem AsksOnly.exec_congr {Q : S.Op → Prop} {d d' : Device S σ}
    (hd : ∀ o s, Q o → d o s = d' o s) {p : Prog S α} (hp : p.AsksOnly Q) (s : σ) :
    p.exec d s = p.exec d' s := by
  induction p generalizing s with
  | ret a => rfl
  | ask o k ih =>
      rw [exec_ask, exec_ask, hd o s (not_not.mp hp.1)]
      exact ih _ (hp.2 _) _

/-- **Questions that leave the device as it is**: the program returns what the device answers
    where it stands, and leaves it there. -/
theorem exec_of_still {Q : S.Op → Prop} {d : Device S σ} {s : σ}
    (hd : ∀ o, Q o → (d o s).2 = s) {p : Prog S α} (hp : p.AsksOnly Q) :
    p.exec d s = (p.answer fun o => (d o s).1, s) := by
  induction p with
  | ret a => rfl
  | ask o k ih =>
      rw [exec_ask, hd o (not_not.mp hp.1)]
      exact ih _ (hp.2 _)

/-- **Answers that are never asked for do not count.** -/
theorem answer_congr {R R' : ∀ o, S.Ans o} (h : ∀ o, ¬ P o → R o = R' o) {p : Prog S α}
    (hp : p.Avoids P) : p.answer R = p.answer R' := by
  induction p with
  | ret a => rfl
  | ask o k ih =>
      rw [answer_ask, answer_ask, h o hp.1]
      exact ih _ (hp.2 _)

end Avoids

/-! ## 4. The transcript -/

/-- Asked and answered as the list says, `p` returns `b`. -/
def Transcript : Prog S α → List (Σ o, S.Ans o) → α → Prop
  | ret a, tr, b => tr = [] ∧ b = a
  | ask o k, tr, b => ∃ x tr', tr = ⟨o, x⟩ :: tr' ∧ (k x).Transcript tr' b

section Transcript

variable {tr : List (Σ o, S.Ans o)}

theorem transcript_bind {p : Prog S α} {f : α → Prog S β} {b : β} :
    (p >>= f).Transcript tr b ↔
      ∃ tr₁ tr₂ a, p.Transcript tr₁ a ∧ (f a).Transcript tr₂ b ∧ tr = tr₁ ++ tr₂ := by
  induction p generalizing tr with
  | ret a =>
      constructor
      · exact fun h => ⟨[], tr, a, ⟨rfl, rfl⟩, h, rfl⟩
      · intro h₀
        rcases h₀ with ⟨_, _, _, ⟨rfl, rfl⟩, h, rfl⟩
        exact h
  | ask o k ih =>
      refine ⟨fun h₀ => ?_, fun h => ?_⟩
      · rcases h₀ with ⟨x, tr', rfl, h⟩
        obtain ⟨tr₁, tr₂, a, h₁, h₂, rfl⟩ := (ih x).mp h
        exact ⟨⟨o, x⟩ :: tr₁, tr₂, a, ⟨x, tr₁, rfl, h₁⟩, h₂, rfl⟩
      · rcases h with ⟨_, tr₂, a, ⟨x, tr₁, rfl, h₁⟩, h₂, rfl⟩
        exact ⟨x, tr₁ ++ tr₂, rfl, (ih x).mpr ⟨tr₁, tr₂, a, h₁, h₂, rfl⟩⟩

/-- **Outcomes are what the admissible transcripts return.** -/
theorem outcome_iff_transcript {ok : ∀ o, S.Ans o → Prop} {p : Prog S α} {b : α} :
    p.Outcome ok b ↔ ∃ tr, p.Transcript tr b ∧ ∀ e ∈ tr, ok e.1 e.2 := by
  induction p with
  | ret a =>
      constructor
      · exact fun h => ⟨[], ⟨rfl, h⟩, fun e he => absurd he List.not_mem_nil⟩
      · intro h₀
        rcases h₀ with ⟨_, ⟨_, h⟩, _⟩
        exact h
  | ask o k ih =>
      refine ⟨fun h₀ => ?_, fun h => ?_⟩
      · rcases h₀ with ⟨x, hx, h⟩
        obtain ⟨tr, htr, hok⟩ := (ih x).mp h
        refine ⟨⟨o, x⟩ :: tr, ⟨x, tr, rfl, htr⟩, fun e he => ?_⟩
        rcases List.mem_cons.mp he with rfl | he
        · exact hx
        · exact hok e he
      · rcases h with ⟨_, ⟨x, tr, rfl, htr⟩, hok⟩
        exact ⟨x, hok _ List.mem_cons_self,
          (ih x).mpr ⟨tr, htr, fun e he => hok e (List.mem_cons_of_mem _ he)⟩⟩

/-- The questions of the run on a device, with their answers. -/
def trace (d : Device S σ) : Prog S α → σ → List (Σ o, S.Ans o)
  | ret _, _ => []
  | ask o k, s => ⟨o, (d o s).1⟩ :: (k (d o s).1).trace d (d o s).2

/-- A run on a device is a transcript. -/
theorem transcript_trace (d : Device S σ) (p : Prog S α) (s : σ) :
    p.Transcript (p.trace d s) (p.exec d s).1 := by
  induction p generalizing s with
  | ret a => exact ⟨rfl, rfl⟩
  | ask o k ih => exact ⟨_, _, rfl, ih _ _⟩

/-- What holds of every outcome holds of what a transcript returns. -/
theorem Always.transcript {Q : α → Prop} {p : Prog S α} (hp : Always Q p) {b : α}
    (h : p.Transcript tr b) : Q b :=
  hp b (outcome_iff_transcript.mpr ⟨tr, h, fun _ _ => trivial⟩)

/-- So does what a run on a device returns. -/
theorem Always.exec {Q : α → Prop} {p : Prog S α} (hp : Always Q p) (d : Device S σ) (s : σ) :
    Q (p.exec d s).1 := hp.transcript (transcript_trace d p s)

/-- A transcript holds only what the program asks. -/
theorem transcript_avoids {P : S.Op → Prop} {p : Prog S α} (hp : p.Avoids P) {b : α}
    (h : p.Transcript tr b) : ∀ e ∈ tr, ¬ P e.1 := by
  induction p generalizing tr with
  | ret a =>
      rw [h.1]
      exact fun e he => absurd he List.not_mem_nil
  | ask o k ih =>
      obtain ⟨x, tr', rfl, h⟩ := h
      intro e he
      rcases List.mem_cons.mp he with rfl | he
      · exact hp.1
      · exact ih x (hp.2 x) h e he

end Transcript

/-! ## 5. A device that moves on its own -/

/-- An interleaved run: between two questions the device takes any number of its own steps.
    The list holds the questions asked, each with the device state it met. -/
inductive Run (step : σ → σ → Prop) (d : Device S σ) :
    Prog S α → σ → List (σ × S.Op) → α → σ → Prop where
  | ret (a : α) (s : σ) : Run step d (ret a) s [] a s
  | env {p : Prog S α} {s s₁ s' : σ} {tr : List (σ × S.Op)} {a : α}
      (h : step s s₁) (hr : Run step d p s₁ tr a s') : Run step d p s tr a s'
  | ask {o : S.Op} {k : S.Ans o → Prog S α} {s s' : σ} {tr : List (σ × S.Op)} {a : α}
      (hr : Run step d (k (d o s).1) (d o s).2 tr a s') :
      Run step d (.ask o k) s ((s, o) :: tr) a s'

section Run

variable {step : σ → σ → Prop} {d : Device S σ}

/-- What one step of the device keeps, any number of its steps keep. -/
theorem keeps_of_step {I : σ → Prop} (hstep : ∀ s s', I s → step s s' → I s') {s s' : σ}
    (h : Relation.ReflTransGen step s s') (hI : I s) : I s' := by
  induction h with
  | refl => exact hI
  | tail _ hs ih => exact hstep _ _ ih hs

/-- **An interleaved run of a sequence is a run of each part.** -/
theorem run_bind {p : Prog S α} {f : α → Prog S β} {s s' : σ} {tr : List (σ × S.Op)} {b : β}
    (h : Run step d (p >>= f) s tr b s') :
    ∃ a s₁ tr₁ tr₂, Run step d p s tr₁ a s₁ ∧ Run step d (f a) s₁ tr₂ b s' ∧ tr = tr₁ ++ tr₂ := by
  generalize hq : (p >>= f) = q at h
  induction h generalizing p with
  | ret b s =>
      cases p with
      | ret a =>
          rw [ret_bind] at hq
          exact ⟨a, s, [], [], .ret a s, hq ▸ .ret b s, rfl⟩
      | ask o k => exact absurd hq (by simp)
  | env h _ ih =>
      obtain ⟨a, s₁, tr₁, tr₂, h₁, h₂, e⟩ := ih hq
      exact ⟨a, s₁, tr₁, tr₂, .env h h₁, h₂, e⟩
  | @ask o k s s' tr b hr ih =>
      cases p with
      | ret a =>
          rw [ret_bind] at hq
          exact ⟨a, s, [], _, .ret a s, hq ▸ .ask hr, rfl⟩
      | ask o' k' =>
          rw [ask_bind] at hq
          cases hq
          obtain ⟨a, s₁, tr₁, tr₂, h₁, h₂, e⟩ := ih rfl
          exact ⟨a, s₁, (s, o) :: tr₁, tr₂, .ask h₁, h₂, by rw [e]; rfl⟩

/-- The device's own steps before a question, then the question. -/
theorem run_ask {o : S.Op} {k : S.Ans o → Prog S α} {s s' : σ} {tr : List (σ × S.Op)} {a : α}
    (h : Run step d (.ask o k) s tr a s') :
    ∃ s₁ tr', Relation.ReflTransGen step s s₁ ∧ tr = (s₁, o) :: tr' ∧
      Run step d (k (d o s₁).1) (d o s₁).2 tr' a s' := by
  generalize hq : Prog.ask o k = q at h
  induction h with
  | ret => cases hq
  | env h _ ih =>
      obtain ⟨s₁, tr', h₁, e, hr⟩ := ih hq
      exact ⟨s₁, tr', .head h h₁, e, hr⟩
  | ask hr =>
      cases hq
      exact ⟨_, _, .refl, rfl, hr⟩

/-- The device's own steps before a run. -/
theorem Run.after_steps {p : Prog S α} {s s₁ s' : σ} {tr : List (σ × S.Op)} {a : α}
    (h : Relation.ReflTransGen step s s₁) (hr : Run step d p s₁ tr a s') :
    Run step d p s tr a s' := by
  induction h using Relation.ReflTransGen.head_induction_on with
  | refl => exact hr
  | head hs _ ih => exact .env hs ih

/-- A program that has returned leaves only the device's own steps. -/
theorem run_ret {a b : α} {s s' : σ} {tr : List (σ × S.Op)}
    (h : Run step d (.ret a) s tr b s') :
    Relation.ReflTransGen step s s' ∧ tr = [] ∧ b = a := by
  generalize hq : (Prog.ret a : Prog S α) = q at h
  induction h with
  | ret => cases hq; exact ⟨.refl, rfl, rfl⟩
  | env h _ ih =>
      obtain ⟨h₁, h₂, h₃⟩ := ih hq
      exact ⟨.head h h₁, h₂, h₃⟩
  | ask => cases hq

/-- A run asks only what the program asks. -/
theorem run_avoids {P : S.Op → Prop} {p : Prog S α} (hp : p.Avoids P) {s s' : σ}
    {tr : List (σ × S.Op)} {a : α} (h : Run step d p s tr a s') : ∀ e ∈ tr, ¬ P e.2 := by
  induction h with
  | ret => exact fun e he => absurd he List.not_mem_nil
  | env _ _ ih => exact ih hp
  | ask _ ih =>
      intro e he
      rcases List.mem_cons.mp he with rfl | he
      · exact hp.1
      · exact ih (hp.2 _) e he

end Run

/-! ## 6. Questions replaced by programs -/

/-- `p` with every question `o` replaced by the program `h o`. -/
def lower (h : ∀ o, Prog T (S.Ans o)) : Prog S α → Prog T α
  | ret a => ret a
  | ask o k => h o >>= fun x => (k x).lower h

/-- **A lowered program runs as the program**, where each replaced question is answered as the
    first device answers it. -/
theorem exec_lower {d : Device S σ} {d' : Device T σ} {h : ∀ o, Prog T (S.Ans o)}
    (hop : ∀ o s, (h o).exec d' s = d o s) (p : Prog S α) (s : σ) :
    (p.lower h).exec d' s = p.exec d s := by
  induction p generalizing s with
  | ret a => rfl
  | ask o k ih => rw [lower, exec_bind, hop, ih, exec_ask]

/-- **Simulation**: a program and its lowering, each on a device of its own, give the same value
    and keep their states related, when every question the program may ask does. -/
theorem exec_lower_sim {τ : Type} {d : Device S σ} {d' : Device T τ}
    {h : ∀ o, Prog T (S.Ans o)} {Q : S.Op → Prop} {R : σ → τ → Prop}
    (hop : ∀ o s t, Q o → R s t →
      ((h o).exec d' t).1 = (d o s).1 ∧ R (d o s).2 ((h o).exec d' t).2)
    {p : Prog S α} (hp : p.AsksOnly Q) {s : σ} {t : τ} (hR : R s t) :
    ((p.lower h).exec d' t).1 = (p.exec d s).1 ∧
      R (p.exec d s).2 ((p.lower h).exec d' t).2 := by
  induction p generalizing s t with
  | ret a => exact ⟨rfl, hR⟩
  | ask o k ih =>
      obtain ⟨hx, hR'⟩ := hop o s t (not_not.mp hp.1) hR
      rw [lower, exec_bind, hx, exec_ask]
      exact ih _ (hp.2 _) hR'

/-- **What a simulation shows**: if each question shows the same on both devices, the two runs show
    the same, one thing after the other. -/
theorem asks_lower_sim {τ ω : Type} {d : Device S σ} {d' : Device T τ}
    {h : ∀ o, Prog T (S.Ans o)} {Q : S.Op → Prop} {R : σ → τ → Prop} {see : S.Op → Option ω}
    {see' : T.Op → Option ω}
    (hop : ∀ o s t, Q o → R s t →
      ((h o).exec d' t).1 = (d o s).1 ∧ R (d o s).2 ((h o).exec d' t).2)
    (hsee : ∀ o s t, Q o → R s t → ((h o).asks d' t).filterMap see' = (see o).toList)
    {p : Prog S α} (hp : p.AsksOnly Q) {s : σ} {t : τ} (hR : R s t) :
    ((p.lower h).asks d' t).filterMap see' = (p.asks d s).filterMap see := by
  induction p generalizing s t with
  | ret a => rfl
  | ask o k ih =>
      obtain ⟨hx, hR'⟩ := hop o s t (not_not.mp hp.1) hR
      rw [lower, asks_bind, List.filterMap_append, hsee o s t (not_not.mp hp.1) hR, hx,
        ih _ (hp.2 _) hR', asks_ask]
      cases hseen : see o with
      | none => rw [List.filterMap_cons_none hseen]; rfl
      | some x => rw [List.filterMap_cons_some hseen]; rfl

/-- A lowered program asks what the programs put for its questions ask. -/
theorem asksOnly_lower {h : ∀ o, Prog T (S.Ans o)} {Q : T.Op → Prop}
    (hQ : ∀ o, (h o).AsksOnly Q) (p : Prog S α) : (p.lower h).AsksOnly Q := by
  induction p with
  | ret a => trivial
  | ask o k ih => exact avoids_bind (hQ o) ih

/-- A lowered program asks what is put for the questions the program asks. -/
theorem AsksOnly.lower {h : ∀ o, Prog T (S.Ans o)} {Q : S.Op → Prop} {Q' : T.Op → Prop}
    (hQ : ∀ o, Q o → (h o).AsksOnly Q') {p : Prog S α} (hp : p.AsksOnly Q) :
    (p.lower h).AsksOnly Q' := by
  induction p with
  | ret a => trivial
  | ask o k ih => exact avoids_bind (hQ o (not_not.mp hp.1)) fun x => ih x (hp.2 x)

/-- Whatever the answers, a lowered program returns an outcome of the program. -/
theorem always_lower {h : ∀ o, Prog T (S.Ans o)} (p : Prog S α) :
    (p.lower h).Always (p.Outcome fun _ _ => True) := by
  induction p with
  | ret a => exact always_ret.mpr rfl
  | ask o k ih =>
      refine always_bind.mpr fun x _ => (ih x).mono fun a ha => ?_
      exact ⟨x, trivial, ha⟩

/-- **A run of the lowered program is an outcome of `p`**, when each replaced question, run from
    a state with the invariant `I`, keeps `I` and returns an answer `ok` admits. `G` is what the
    run's questions must meet. -/
theorem run_lower {step : σ → σ → Prop} {d : Device T σ} {h : ∀ o, Prog T (S.Ans o)}
    {ok : ∀ o, S.Ans o → Prop} {I : σ → Prop} {G : σ × T.Op → Prop}
    (hop : ∀ o s tr x s', I s → (∀ e ∈ tr, G e) → Run step d (h o) s tr x s' → I s' ∧ ok o x)
    (hstep : ∀ s s', I s → step s s' → I s')
    {p : Prog S α} {s s' : σ} {tr : List (σ × T.Op)} {a : α} (hI : I s) (hG : ∀ e ∈ tr, G e)
    (hr : Run step d (p.lower h) s tr a s') : I s' ∧ p.Outcome ok a := by
  induction p generalizing s tr with
  | ret b =>
      obtain ⟨hs, _, rfl⟩ := run_ret hr
      exact ⟨keeps_of_step hstep hs hI, rfl⟩
  | ask o k ih =>
      obtain ⟨x, s₁, tr₁, tr₂, h₁, h₂, rfl⟩ := run_bind hr
      obtain ⟨hI₁, hx⟩ := hop o s tr₁ x s₁ hI (fun e he => hG e (List.mem_append_left _ he)) h₁
      obtain ⟨hI', ha⟩ := ih x hI₁ (fun e he => hG e (List.mem_append_right _ he)) h₂
      exact ⟨hI', x, hx, ha⟩

end Prog

end Interaction
