/-
  File:      TinyOS64/Hda/LateResponse.lean
  Subject:   Whose response a readVerbResponse returns, after any number of time-outs.

  A command that times out stays in flight, and the triggers of the verbs after it are ignored
  until the controller has finished it. `Owed` is what every conversation keeps: the controller
  is idle, or it works on the last word that was really sent, and nobody since has got a value.
  From it `value_owner`: a value is the response to the exchange's own word, or to that last word.
-/
import TinyOS64.Hda.Verbs

namespace TinyOS64

open Interaction Relation Controller

variable {codec : BitVec 32 → BitVec 32 → Prop}

/-! ## 1. One exchange -/

section Exchange

variable {c c' : Controller} {word : BitVec 32}

/-- The trigger of a `sendWord` meets a controller `t` with ICW loaded, on which every command
    that was on its way before still is. -/
theorem send_keeps {tr : List (Controller × MmioOp)}
    (h : Prog.Run (Step codec) device (sendWord word) c tr () c') :
    ∃ c₁ c₂ t, tr = [(c₁, .write16 0x68 2), (c₂, .write32 0x60 word), (t, .write16 0x68 1)] ∧
      t.icw = word ∧ (c.inFlight = none → t.inFlight = none) ∧
        (∀ word' old, OnItsWay codec word' old c → OnItsWay codec word' old t) ∧
          ReflTransGen (Step codec) (t.writeIcs 1) c' := by
  obtain ⟨c₁, c₂, t, htr, hicw, _, hidle, hsteps⟩ := send_triggers h
  refine ⟨c₁, c₂, t, htr, hicw, hidle, fun word' old hw => ?_, hsteps⟩
  rw [sendWord_eq] at h
  obtain ⟨d₁, _, h₁, e₁, h⟩ := Prog.run_ask h
  obtain ⟨d₂, _, h₂, e₂, h⟩ := Prog.run_ask h
  obtain ⟨d₃, _, h₃, e₃, _⟩ := Prog.run_ask h
  have ht : d₃ = t := by
    rw [htr, e₂, e₃] at e₁
    simp only [List.cons.injEq, Prod.mk.injEq] at e₁
    exact e₁.2.2.1.1.symm
  -- the two writes before the trigger leave the command, the response and the answers alone
  have hw₁ := onItsWay_steps hw h₁
  have hw₂ : OnItsWay codec word' old d₂ := by
    refine onItsWay_steps ?_ h₂
    cases hw₁ with
    | flying hf ha => exact .flying hf ha
    | landed hf hc ha => exact .landed hf hc ha
  rw [← ht]
  refine onItsWay_steps ?_ h₃
  cases hw₂ with
  | flying hf ha => exact .flying hf ha
  | landed hf hc ha => exact .landed hf hc ha

/-- Polling leaves a command on its way, whatever it returns. -/
theorem poll_keeps {retries : Nat} {old : List (BitVec 32 × BitVec 32)}
    {tr : List (Controller × MmioOp)} {result : Option (BitVec 32)} (hw : OnItsWay codec word old c)
    (h : Prog.Run (Step codec) device (pollVerbResponse retries) c tr result c') :
    OnItsWay codec word old c' := by
  induction retries generalizing c tr with
  | zero => exact onItsWay_steps hw (Prog.run_ret h).1
  | succ retries ih =>
      rw [pollVerbResponse_succ] at h
      obtain ⟨c₁, _, h₁, _, h⟩ := Prog.run_ask h
      have hw₁ := onItsWay_steps hw h₁
      split at h
      · exact ih hw₁ h
      · obtain ⟨c₂, _, h₂, _, h⟩ := Prog.run_ask h
        exact onItsWay_steps (onItsWay_steps hw₁ h₂) (Prog.run_ret h).1

end Exchange

/-! ## 2. What is owed -/

/-- `z` really sent its word, and from `z` on nothing was sent and nobody got a value. -/
structure LastSent (z : Exchange) (since : List Exchange) : Prop where
  sent : z.TriggersIdle
  ignored : ∀ y ∈ since, ¬ y.TriggersIdle
  timedOut : ∀ y ∈ z :: since, y.result = none

/-- **What is owed after the exchanges `past`**: nothing, or the response to the last word that
    was really sent. -/
def Owed (codec : BitVec 32 → BitVec 32 → Prop) (past : List Exchange) (c : Controller) : Prop :=
  c.inFlight = none ∨ ∃ before z since old, past = before ++ z :: since ∧ LastSent z since ∧
    OnItsWay codec z.word old c

/-- **Whose response a value is**: the exchange's own, or that of the last word really sent
    before it. -/
def OwnedBy (codec : BitVec 32 → BitVec 32 → Prop) (past : List Exchange) (x : Exchange)
    (v : BitVec 32) : Prop :=
  (x.TriggersIdle ∧ codec x.word v) ∨
    ∃ before z since, past = before ++ z :: since ∧ LastSent z since ∧ ¬ x.TriggersIdle ∧
      codec z.word v

section Owed

variable {c₁ c₂ : Controller} {x : Exchange} {past : List Exchange}
  {old : List (BitVec 32 × BitVec 32)} {polled : List (Controller × MmioOp)}

/-- The exchange's word was sent: without a value it is the last one sent. -/
theorem exchange_sent (hx : x.TriggersIdle) (hw : OnItsWay codec x.word old c₁)
    (hp : Prog.Run (Step codec) device readVerbResponse c₁ polled x.result c₂) :
    Owed codec (past ++ [x]) c₂ ∧ ∀ v, x.result = some v → OwnedBy codec past x v := by
  refine ⟨?_, fun v hv => ?_⟩
  · cases hr : x.result with
    | none =>
        refine .inr ⟨past, x, [], old, rfl, ⟨hx, nofun, fun y hy => ?_⟩, poll_keeps hw hp⟩
        rw [List.mem_singleton.mp hy]
        exact hr
    | some v =>
        rw [hr] at hp
        exact .inl (poll_returns hw hp).2.2
  · rw [hv] at hp
    exact .inl ⟨hx, (poll_returns hw hp).1⟩

/-- The exchange's word was ignored: the response to come is still that of the last word sent. -/
theorem exchange_ignored {before since : List Exchange} {z : Exchange}
    (hpast : past = before ++ z :: since) (hlast : LastSent z since) (hx : ¬ x.TriggersIdle)
    (hw : OnItsWay codec z.word old c₁)
    (hp : Prog.Run (Step codec) device readVerbResponse c₁ polled x.result c₂) :
    Owed codec (past ++ [x]) c₂ ∧ ∀ v, x.result = some v → OwnedBy codec past x v := by
  refine ⟨?_, fun v hv => ?_⟩
  · cases hr : x.result with
    | none =>
        have hsince : LastSent z (since ++ [x]) := by
          refine ⟨hlast.sent, fun y hy => ?_, fun y hy => ?_⟩
          · rcases List.mem_append.mp hy with hy | hy
            · exact hlast.ignored y hy
            · rw [List.mem_singleton.mp hy]
              exact hx
          · rw [← List.cons_append] at hy
            rcases List.mem_append.mp hy with hy | hy
            · exact hlast.timedOut y hy
            · rw [List.mem_singleton.mp hy]
              exact hr
        exact .inr ⟨before, z, since ++ [x], old, by rw [hpast]; simp, hsince, poll_keeps hw hp⟩
    | some v =>
        rw [hr] at hp
        exact .inl (poll_returns hw hp).2.2
  · rw [hv] at hp
    exact .inr ⟨before, z, since, hpast, hlast, hx, (poll_returns hw hp).1⟩

end Owed

/-- **One exchange** keeps what is owed, and a value it returns is owned. -/
theorem owed_exchange {c c₁ c₂ : Controller} {word : BitVec 32} {result : Option (BitVec 32)}
    {sent polled : List (Controller × MmioOp)} {past : List Exchange} (ho : Owed codec past c)
    (hs : Prog.Run (Step codec) device (sendWord word) c sent () c₁)
    (hp : Prog.Run (Step codec) device readVerbResponse c₁ polled result c₂) :
    Owed codec (past ++ [⟨word, c, sent ++ polled, result, c₂⟩]) c₂ ∧
      ∀ v, result = some v → OwnedBy codec past ⟨word, c, sent ++ polled, result, c₂⟩ v := by
  obtain ⟨_, _, t, htr, hicw, hidle, hkeep, hsteps⟩ := send_keeps hs
  have hiff : Exchange.TriggersIdle ⟨word, c, sent ++ polled, result, c₂⟩ ↔ t.inFlight = none :=
    Exchange.triggersIdle_iff (congrArg (· ++ polled) htr)
      (Prog.run_avoids (poll_avoids 1024 0x68) hp)
  cases hf : t.inFlight with
  | none =>
      have hw : OnItsWay codec word t.answers (t.writeIcs 1) :=
        .flying (by simp [writeIcs, hf, hicw]) (by simp [writeIcs, hf])
      exact exchange_sent (hiff.mpr hf) (onItsWay_steps hw hsteps) hp
  | some word' =>
      have hbusy : t.inFlight ≠ none := by rw [hf]; exact Option.some_ne_none word'
      rcases ho with hc | ⟨before, z, since, old, hpast, hlast, hw⟩
      · exact absurd (hidle hc) hbusy
      · -- the trigger is ignored: what was on its way before still is
        have hw' : OnItsWay codec z.word old (t.writeIcs 1) := by
          cases hkeep _ _ hw with
          | flying hf' ha => exact .flying (by simp [writeIcs, hf']) (by simp [writeIcs, ha, hf'])
          | landed hf' _ _ => exact absurd hf' hbusy
        exact exchange_ignored hpast hlast (fun h => hbusy (hiff.mp h))
          (onItsWay_steps hw' hsteps) hp

/-! ## 3. Whole conversations -/

theorem owed_steps {past : List Exchange} {c c' : Controller} (ho : Owed codec past c)
    (h : ReflTransGen (Step codec) c c') : Owed codec past c' := by
  rcases ho with hc | ⟨before, z, since, old, e, hlast, hw⟩
  · exact .inl (by rw [steps_idle hc h]; exact hc)
  · exact .inr ⟨before, z, since, old, e, hlast, onItsWay_steps hw h⟩

/-- What is owed at the start is owed along the whole conversation. -/
theorem owned_of_owed {c c' : Controller} {xs past : List Exchange}
    (h : Conversation codec c xs c') (ho : Owed codec past c) :
    Owed codec (past ++ xs) c' ∧ ∀ before x after v, xs = before ++ x :: after →
      x.result = some v → OwnedBy codec (past ++ before) x v := by
  induction h generalizing past with
  | quiet h =>
      rw [List.append_nil]
      exact ⟨owed_steps ho h, fun before x after v e => absurd e (by simp)⟩
  | exchange hs hp rest ih =>
      obtain ⟨ho₂, hown⟩ := owed_exchange ho hs hp
      obtain ⟨ho', hrest⟩ := ih ho₂
      rw [List.append_assoc] at ho'
      refine ⟨ho', fun before x after v e hv => ?_⟩
      cases before with
      | nil =>
          obtain ⟨rfl, _⟩ := List.cons.inj e
          rw [List.append_nil]
          exact hown v hv
      | cons y before =>
          obtain ⟨rfl, e'⟩ := List.cons.inj e
          have h := hrest before x after v e' hv
          rwa [List.append_assoc] at h

/-- **Every value has an owner**: in every conversation from an idle controller, under every
    interleaving and any number of time-outs, a value is the codec's response to the exchange's
    own word, or to the last word really sent before it; in that case every exchange from that
    one on timed out, and the words in between were never sent. -/
theorem value_owner {c c' : Controller} {before after : List Exchange} {x : Exchange}
    (h : Conversation codec c (before ++ x :: after) c') (hidle : c.inFlight = none)
    {v : BitVec 32} (hv : x.result = some v) : OwnedBy codec before x v := by
  have hnothing : Owed codec [] c := .inl hidle
  exact (owned_of_owed h hnothing).2 before x after v rfl hv

/-- A conversation in which node 2's verb times out and node 3's is ignored: the value returned for
    node 3 has an owner all the same. -/
theorem value_owner_late : ∃ before x c',
    Conversation echo Controller.rest (before ++ x :: []) c' ∧ x.word = widgetCapabilities 3 ∧
      x.result = some (widgetCapabilities 2) ∧
      OwnedBy echo before x (widgetCapabilities 2) := by
  obtain ⟨_, hs⟩ := run_send echo (widgetCapabilities 2) Controller.rest
  obtain ⟨_, hp⟩ := run_poll_gives_up echo (c := Controller.rest.sent (widgetCapabilities 2)) rfl
    1024
  obtain ⟨_, hs'⟩ := run_send echo (widgetCapabilities 3)
    (Controller.rest.sent (widgetCapabilities 2))
  have hlate : echo (widgetCapabilities 2) (widgetCapabilities 2) := rfl
  obtain ⟨_, _, hp', _⟩ := run_poll_finish
    (c := (Controller.rest.sent (widgetCapabilities 2)).sent (widgetCapabilities 3)) rfl hlate 1023
  have hconversation := Conversation.exchange hs hp (.exchange hs' hp' (.quiet .refl))
  exact ⟨[_], _, _, hconversation, rfl, rfl, value_owner hconversation rfl rfl⟩

end TinyOS64
