/-
  File:      TinyOS64/Hda/Verbs.lean
  Subject:   Immediate commands: sendVerb and readVerbResponse against the controller.

  Driver and controller meet in three registers: ICW (the command), ICS (bit 0 busy, bit 1
  response valid) and IRR (the response). The controller may finish the command in flight
  between any two register accesses of the driver. `readVerbResponse` gives up after 1024 polls,
  and the command it waited for stays in flight: the trigger of the next verb is then ignored,
  and the late response is taken for the response to the next verb (`verbs_matched_iff`,
  `late_response`).
-/
import TinyOS64.Hda.Registers
import TinyOS64.Lib.WordFields

namespace TinyOS64

open Interaction Relation WordFields

/-! ## 1. The driver -/

/-- The word of a verb. -/
def verbWord (codec node verb command : BitVec 32) : BitVec 32 :=
  (codec <<< 28) ||| (node <<< 20) ||| (verb <<< 8) ||| command

/-- The register writes of `sendVerb`. -/
def sendWord (word : BitVec 32) : Prog Mmio Unit := do
  let _ ← writeReg (bytes "ics") 0x02
  let _ ← writeReg (bytes "icw") (word.setWidth 64)
  let _ ← writeReg (bytes "ics") 0x01

/-- `HDACodec::sendVerb`. -/
def sendVerb (codec node verb command : BitVec 32) : Prog Mmio Unit :=
  sendWord (verbWord codec node verb command)

/-- The poll loop of `readVerbResponse`, with `retries` polls left. -/
def pollVerbResponse : Nat → Prog Mmio (Option (BitVec 32))
  | 0 => pure none
  | retries + 1 => do
    if (← readReg (bytes "ics")) &&& 0x03 ≠ 0x02 then pollVerbResponse retries
    else pure (some ((← readReg (bytes "irr")).setWidth 32))

/-- `HDACodec::readVerbResponse`. -/
def readVerbResponse : Prog Mmio (Option (BitVec 32)) := pollVerbResponse 1024

theorem getReg_ics : getReg (bytes "ics") = some ⟨0x68, 2, "ics"⟩ :=
  getReg_name (r := ⟨0x68, 2, "ics"⟩) (by decide)
theorem getReg_icw : getReg (bytes "icw") = some ⟨0x60, 4, "icw"⟩ :=
  getReg_name (r := ⟨0x60, 4, "icw"⟩) (by decide)
theorem getReg_irr : getReg (bytes "irr") = some ⟨0x64, 4, "irr"⟩ :=
  getReg_name (r := ⟨0x64, 4, "irr"⟩) (by decide)

/-- `sendWord` is three register writes. -/
theorem sendWord_eq (word : BitVec 32) : sendWord word =
    .ask (S := Mmio) (.write16 0x68 2) fun _ => .ask (S := Mmio) (.write32 0x60 word) fun _ =>
      .ask (S := Mmio) (.write16 0x68 1) fun _ => .ret () := by
  have h : (word.setWidth 64).setWidth 32 = word := by simp
  unfold sendWord
  rw [writeReg_two getReg_ics rfl, writeReg_four getReg_icw rfl, writeReg_two getReg_ics rfl]
  simp only [h]
  rfl

/-- One poll: a read of ICS, and of IRR when the response is there. -/
theorem pollVerbResponse_succ (retries : Nat) : pollVerbResponse (retries + 1) =
    .ask (S := Mmio) (.read16 0x68) fun ics =>
      if ics.setWidth 64 &&& 0x03 ≠ 0x02#64 then pollVerbResponse retries
      else .ask (S := Mmio) (.read32 0x64) fun irr => .ret (some irr) := by
  have h : ∀ irr : BitVec 32, (irr.setWidth 64).setWidth 32 = irr := fun irr => by simp
  rw [pollVerbResponse, readReg_two getReg_ics rfl, readReg_four getReg_irr rfl]
  simp [Mmio.read16, Mmio.read32, h]

/-! ## 2. The controller -/

/-- The controller: its registers, the command it is working on, and, newest first, every
    command it has answered with its response. -/
structure Controller where
  icw : BitVec 32
  irr : BitVec 32
  valid : Bool
  inFlight : Option (BitVec 32)
  /-- ICS from bit 2 on. -/
  icsRest : Fin (2 ^ 14)
  answers : List (BitVec 32 × BitVec 32)

namespace Controller

/-- The value of ICS. -/
def ics (c : Controller) : BitVec 16 :=
  BitVec.ofNat 16 (4 * c.icsRest + 2 * c.valid.toNat + c.inFlight.isSome.toNat)

/-- A write to ICS: bit 1 clears the valid bit, bit 0 starts ICW when the controller is idle. -/
def writeIcs (c : Controller) (v : BitVec 16) : Controller :=
  let c := if v.getLsbD 1 then { c with valid := false } else c
  if v.getLsbD 0 ∧ c.inFlight = none then { c with inFlight := some c.icw } else c

/-- The registers as the driver meets them; no other register takes part. -/
def device : Prog.Device Mmio Controller := fun o c =>
  match o with
  | .read16 a => (if a = 0x68 then c.ics else 0, c)
  | .read32 a => (if a = 0x64 then c.irr else if a = 0x60 then c.icw else 0, c)
  | .write16 a v => ((), if a = 0x68 then c.writeIcs v else c)
  | .write32 a v => ((), if a = 0x60 then { c with icw := v } else c)
  | .read8 _ => (0, c)
  | .write8 .. | .store32 .. => ((), c)
  | .print fmt va => (printCount fmt va, c)

/-- The controller finishes the command in flight, with a response the codec can give. -/
inductive Step (codec : BitVec 32 → BitVec 32 → Prop) : Controller → Controller → Prop where
  | finish {c : Controller} {word response : BitVec 32} (h : c.inFlight = some word)
      (hc : codec word response) :
      Step codec c { c with irr := response, valid := true, inFlight := none,
                            answers := (word, response) :: c.answers }

/-- The commands started so far. -/
def started (c : Controller) : Nat := c.answers.length + c.inFlight.isSome.toNat

/-- What the poll loop waits for: the response is there and the controller is idle. -/
theorem ics_ready (c : Controller) :
    c.ics.setWidth 64 &&& 0x03 = 0x02#64 ↔ c.valid = true ∧ c.inFlight = none := by
  have hr := c.icsRest.isLt
  have hmod : (c.ics.setWidth 64 &&& 0x03).toNat =
      (4 * c.icsRest + 2 * c.valid.toNat + c.inFlight.isSome.toNat) % 4 := by
    rw [toNat_and_low _ (j := 2) rfl, BitVec.toNat_setWidth, ics, BitVec.toNat_ofNat]
    omega
  rw [← BitVec.toNat_inj, hmod]
  cases c.valid <;> cases c.inFlight <;> grind

section Step

variable {codec : BitVec 32 → BitVec 32 → Prop} {c c' : Controller}

/-- The controller's own steps leave ICW and the number of started commands alone. -/
theorem steps_keep (h : ReflTransGen (Step codec) c c') :
    c'.icw = c.icw ∧ c'.started = c.started := by
  induction h with
  | refl => exact ⟨rfl, rfl⟩
  | tail _ hs ih =>
      cases hs with
      | finish hf _ =>
          refine ⟨ih.1, ?_⟩
          rw [← ih.2]
          simp [started, hf]

/-- An idle controller does nothing by itself. -/
theorem steps_idle (hidle : c.inFlight = none) (h : ReflTransGen (Step codec) c c') : c' = c := by
  induction h with
  | refl => rfl
  | tail _ hs ih =>
      cases hs with
      | finish hf _ =>
          rw [ih, hidle] at hf
          cases hf

/-- **The command `word` is on its way**: it is in flight, or its response is in IRR and was the
    last answer. `old` are the answers from before it was started. -/
inductive OnItsWay (codec : BitVec 32 → BitVec 32 → Prop) (word : BitVec 32)
    (old : List (BitVec 32 × BitVec 32)) (c : Controller) : Prop where
  | flying (hf : c.inFlight = some word) (ha : c.answers = old)
  | landed (hf : c.inFlight = none) (hc : codec word c.irr)
      (ha : c.answers = (word, c.irr) :: old)

theorem onItsWay_steps {word : BitVec 32} {old : List (BitVec 32 × BitVec 32)}
    (hw : OnItsWay codec word old c) (h : ReflTransGen (Step codec) c c') :
    OnItsWay codec word old c' := by
  refine Prog.keeps_of_step (fun s s' hs hst => ?_) h hw
  cases hst with
  | finish hf hc =>
      cases hs with
      | flying hf' ha =>
          rw [hf] at hf'
          cases hf'
          exact .landed rfl hc (by rw [ha])
      | landed hf' _ _ =>
          rw [hf] at hf'
          cases hf'

/-- **A poll loop returns only the response to the command on its way.** -/
theorem poll_returns {retries : Nat} {word v : BitVec 32} {old : List (BitVec 32 × BitVec 32)}
    {tr : List (Controller × MmioOp)} (hw : OnItsWay codec word old c)
    (h : Prog.Run (Step codec) device (pollVerbResponse retries) c tr (some v) c') :
    codec word v ∧ c'.answers = (word, v) :: old ∧ c'.inFlight = none := by
  induction retries generalizing c tr with
  | zero => cases (Prog.run_ret h).2.2
  | succ retries ih =>
      rw [pollVerbResponse_succ] at h
      obtain ⟨c₁, tr₁, h₁, _, h⟩ := Prog.run_ask h
      have hw₁ := onItsWay_steps hw h₁
      split at h
      · exact ih hw₁ h
      · rename_i hready
        have hidle : c₁.inFlight = none := ((ics_ready c₁).mp (not_not.mp hready)).2
        obtain ⟨c₂, tr₂, h₂, _, h⟩ := Prog.run_ask h
        obtain ⟨h₃, _, hv⟩ := Prog.run_ret h
        have e₂ : c₂ = c₁ := steps_idle hidle h₂
        subst e₂
        have e' : c' = c₂ := steps_idle hidle h₃
        have hv : v = c₂.irr := Option.some.inj hv
        rw [e', hv]
        cases hw₁ with
        | flying hf _ =>
            rw [hidle] at hf
            cases hf
        | landed _ hc ha => exact ⟨hc, ha, hidle⟩

/-- What the three writes of `sendWord` leave: the trigger met the controller in a state `t` with
    ICW loaded and no command started in between, and started the command or was ignored. -/
theorem send_triggers {word : BitVec 32} {tr : List (Controller × MmioOp)}
    (h : Prog.Run (Step codec) device (sendWord word) c tr () c') :
    ∃ c₁ c₂ t, tr = [(c₁, .write16 0x68 2), (c₂, .write32 0x60 word), (t, .write16 0x68 1)] ∧
      t.icw = word ∧ t.started = c.started ∧ (c.inFlight = none → t.inFlight = none) ∧
        ReflTransGen (Step codec) (t.writeIcs 1) c' := by
  rw [sendWord_eq] at h
  obtain ⟨c₁, tr₁, h₁, e₁, hr₁⟩ := Prog.run_ask h
  obtain ⟨c₂, tr₂, h₂, e₂, hr₂⟩ := Prog.run_ask hr₁
  obtain ⟨t, tr₃, h₃, e₃, hr₃⟩ := Prog.run_ask hr₂
  obtain ⟨h₄, e₄, _⟩ := Prog.run_ret hr₃
  refine ⟨c₁, c₂, t, by rw [e₁, e₂, e₃, e₄], (steps_keep h₃).1, ?_, ?_, h₄⟩
  · calc t.started = c₂.started := (steps_keep h₃).2
      _ = (c₁.writeIcs 2).started := (steps_keep h₂).2
      _ = c₁.started := rfl
      _ = c.started := (steps_keep h₁).2
  · intro hidle
    have i₁ : (c₁.writeIcs 2).inFlight = none := by
      rw [steps_idle hidle h₁]
      exact hidle
    have i₂ : c₂.inFlight = none := by rw [steps_idle i₁ h₂]; exact i₁
    have e : t = { c₂ with icw := word } := steps_idle i₂ h₃
    rw [e]
    exact i₂

end Step

end Controller

/-- Polling writes no register. -/
theorem poll_avoids (retries a : Nat) : (pollVerbResponse retries).Avoids (MmioOp.Writes a) := by
  induction retries with
  | zero => trivial
  | succ retries ih =>
      rw [pollVerbResponse_succ]
      refine ⟨fun h => h, fun ics => ?_⟩
      dsimp only
      split
      · exact ih
      · exact ⟨fun h => h, fun _ => trivial⟩

/-! ## 3. Conversations -/

/-- One `sendVerb` and the `readVerbResponse` after it. -/
structure Exchange where
  word : BitVec 32
  before : Controller
  /-- The register accesses of both calls, each with the controller state it met. -/
  accesses : List (Controller × MmioOp)
  result : Option (BitVec 32)
  after : Controller

namespace Exchange

/-- The value is the controller's response to the word of this exchange: the last answer given,
    to a command started after the exchange began. -/
def Answered (x : Exchange) (v : BitVec 32) : Prop :=
  ∃ old, x.after.answers = (x.word, v) :: old ∧ x.before.started ≤ old.length

/-- Every write of the exchange that triggers a transmission meets an idle controller. -/
def TriggersIdle (x : Exchange) : Prop :=
  ∀ c v, (c, .write16 0x68 v) ∈ x.accesses → v.getLsbD 0 = true → c.inFlight = none

/-- The trigger is the last write of `sendVerb`; polling writes nothing. -/
theorem triggersIdle_iff {x : Exchange} {c₁ c₂ t : Controller}
    {polled : List (Controller × MmioOp)}
    (hx : x.accesses = [(c₁, .write16 0x68 2), (c₂, .write32 0x60 x.word), (t, .write16 0x68 1)] ++
      polled)
    (hread : ∀ e ∈ polled, ¬ MmioOp.Writes 0x68 e.2) : x.TriggersIdle ↔ t.inFlight = none := by
  refine ⟨fun h => ?_, fun hidle c v hmem hv => ?_⟩
  · exact h t 1 (by rw [hx]; simp) rfl
  · rw [hx] at hmem
    rcases List.mem_append.mp hmem with hmem | hmem
    · rcases List.mem_cons.mp hmem with e | hmem
      · cases e
        cases hv
      · rcases List.mem_cons.mp hmem with e | hmem
        · cases e
        · cases List.mem_singleton.mp hmem
          exact hidle
    · exact absurd ⟨Nat.le_refl _, by decide⟩ (hread _ hmem)

end Exchange

/-- **A conversation**: any sequence of exchanges, the controller taking its own steps between
    any two register accesses. -/
inductive Conversation (codec : BitVec 32 → BitVec 32 → Prop) :
    Controller → List Exchange → Controller → Prop where
  | quiet {c c' : Controller} (h : ReflTransGen (Controller.Step codec) c c') :
      Conversation codec c [] c'
  | exchange {c c₁ c₂ c' : Controller} {word : BitVec 32} {result : Option (BitVec 32)}
      {sent polled : List (Controller × MmioOp)} {xs : List Exchange}
      (hs : Prog.Run (Controller.Step codec) Controller.device (sendWord word) c sent () c₁)
      (hp : Prog.Run (Controller.Step codec) Controller.device readVerbResponse c₁ polled result
        c₂)
      (rest : Conversation codec c₂ xs c') :
      Conversation codec c (⟨word, c, sent ++ polled, result, c₂⟩ :: xs) c'

section Conversation

open Controller

variable {codec : BitVec 32 → BitVec 32 → Prop}

/-- **One exchange** that returns a value: it is the response to its own word exactly when its
    trigger met an idle controller. -/
theorem exchange_answered_iff {c c₁ c₂ : Controller} {word v : BitVec 32}
    {sent polled : List (Controller × MmioOp)}
    (hs : Prog.Run (Step codec) device (sendWord word) c sent () c₁)
    (hp : Prog.Run (Step codec) device readVerbResponse c₁ polled (some v) c₂) :
    Exchange.Answered ⟨word, c, sent ++ polled, some v, c₂⟩ v ↔
      Exchange.TriggersIdle ⟨word, c, sent ++ polled, some v, c₂⟩ := by
  obtain ⟨c₃, c₄, t, rfl, hicw, hstarted, _, hsteps⟩ := send_triggers hs
  rw [Exchange.triggersIdle_iff rfl (Prog.run_avoids (poll_avoids 1024 0x68) hp)]
  cases hf : t.inFlight with
  | none =>
      have hw : OnItsWay codec word t.answers (t.writeIcs 1) :=
        .flying (by simp [writeIcs, hf, hicw]) (by simp [writeIcs, hf])
      obtain ⟨_, ha, _⟩ := poll_returns (onItsWay_steps hw hsteps) hp
      have hs : t.started = t.answers.length := by simp [started, hf]
      exact ⟨fun _ => rfl, fun _ => ⟨t.answers, ha, by show c.started ≤ _; omega⟩⟩
  | some word' =>
      have hw : OnItsWay codec word' t.answers (t.writeIcs 1) :=
        .flying (by simp [writeIcs, hf]) (by simp [writeIcs, hf])
      obtain ⟨_, ha, _⟩ := poll_returns (onItsWay_steps hw hsteps) hp
      have hs : t.started = t.answers.length + 1 := by simp [started, hf]
      refine ⟨?_, fun h => nomatch h⟩
      intro h
      rcases h with ⟨old, hold, hlen⟩
      have e : t.answers = old := (List.cons.inj (ha.symm.trans hold)).2
      have hlen : c.started ≤ old.length := hlen
      rw [← e] at hlen
      omega

/-- **Verb and response**: in every conversation, what an exchange returns is the response to its
    own word exactly when the exchange's trigger met an idle controller. -/
theorem verbs_matched_iff {c c' : Controller} {xs : List Exchange}
    (h : Conversation codec c xs c') {x : Exchange} (hx : x ∈ xs) {v : BitVec 32}
    (hv : x.result = some v) : x.Answered v ↔ x.TriggersIdle := by
  induction h with
  | quiet => cases hx
  | exchange hs hp rest ih =>
      cases hx with
      | head =>
          cases hv
          exact exchange_answered_iff hs hp
      | tail _ hx => exact ih hx

/-- **Without a time-out verb and response match**: from an idle controller, as long as no
    `readVerbResponse` gives up, every value returned is the response to its own word. -/
theorem verbs_matched_of_no_timeout {c c' : Controller} {xs : List Exchange}
    (h : Conversation codec c xs c') (hidle : c.inFlight = none)
    (hall : ∀ x ∈ xs, x.result ≠ none) : ∀ x ∈ xs, ∀ v, x.result = some v → x.Answered v := by
  induction h with
  | quiet => exact fun x hx => nomatch hx
  | @exchange c c₁ c₂ c' word result sent polled xs hs hp rest ih =>
      obtain ⟨v, rfl⟩ := Option.ne_none_iff_exists'.mp (hall _ List.mem_cons_self)
      obtain ⟨c₃, c₄, t, rfl, hicw, _, hkeep, hsteps⟩ := send_triggers hs
      have hread := Prog.run_avoids (poll_avoids 1024 0x68) hp
      have ht : t.inFlight = none := hkeep hidle
      have hw : OnItsWay codec word t.answers (t.writeIcs 1) :=
        .flying (by simp [writeIcs, ht, hicw]) (by simp [writeIcs, ht])
      obtain ⟨_, _, hidle₂⟩ := poll_returns (onItsWay_steps hw hsteps) hp
      intro x hx u hu
      rcases List.mem_cons.mp hx with rfl | hx
      · cases hu
        exact (exchange_answered_iff hs hp).mpr ((Exchange.triggersIdle_iff rfl hread).mpr ht)
      · exact ih hidle₂ (fun x hx => hall x (List.mem_cons_of_mem _ hx)) x hx u hu

/-! ## 4. A late response -/

/-- The controller after the three writes of `sendWord`, when it does nothing in between. -/
def Controller.sent (c : Controller) (word : BitVec 32) : Controller :=
  { c.writeIcs 2 with icw := word }.writeIcs 1

variable (codec)

theorem run_send (word : BitVec 32) (c : Controller) :
    ∃ tr, Prog.Run (Step codec) device (sendWord word) c tr () (c.sent word) := by
  rw [sendWord_eq]
  exact ⟨_, .ask (.ask (.ask (.ret () _)))⟩

/-- A controller that does not finish: the poll loop gives up. -/
theorem run_poll_gives_up {c : Controller} {word : BitVec 32} (hf : c.inFlight = some word)
    (retries : Nat) :
    ∃ tr, Prog.Run (Step codec) device (pollVerbResponse retries) c tr none c := by
  induction retries with
  | zero => exact ⟨[], .ret none c⟩
  | succ retries ih =>
      obtain ⟨tr, hr⟩ := ih
      have hbusy : c.ics.setWidth 64 &&& 0x03 ≠ 0x02#64 := fun h => by
        have := ((ics_ready c).mp h).2
        rw [hf] at this
        cases this
      rw [pollVerbResponse_succ]
      refine ⟨(c, .read16 0x68) :: tr, .ask ?_⟩
      dsimp only [device]
      rw [if_pos rfl, if_pos hbusy]
      exact hr

/-- A response that is there: the first poll returns it. -/
theorem run_poll_ready {c : Controller} (hv : c.valid = true) (hf : c.inFlight = none)
    (retries : Nat) :
    ∃ tr, Prog.Run (Step codec) device (pollVerbResponse (retries + 1)) c tr
      (some c.irr) c := by
  have hready : c.ics.setWidth 64 &&& 0x03 = 0x02#64 := (ics_ready c).mpr ⟨hv, hf⟩
  rw [pollVerbResponse_succ]
  refine ⟨[(c, .read16 0x68), (c, .read32 0x64)], .ask ?_⟩
  dsimp only [device]
  rw [if_pos rfl, if_neg (not_not.mpr hready)]
  exact .ask (.ret (some c.irr) c)

variable {codec}

/-- The controller finishes, and the poll loop returns the response. -/
theorem run_poll_finish {c : Controller} {word response : BitVec 32}
    (hf : c.inFlight = some word) (hc : codec word response) (retries : Nat) :
    ∃ tr c', Prog.Run (Step codec) device (pollVerbResponse (retries + 1)) c tr (some response)
      c' ∧ c'.answers = (word, response) :: c.answers := by
  obtain ⟨tr, hr⟩ := run_poll_ready codec (c := { c with
    irr := response, valid := true, inFlight := none,
    answers := (word, response) :: c.answers }) rfl rfl retries
  exact ⟨tr, _, .env (.finish hf hc) hr, rfl⟩

end Conversation

/-- A codec that answers every verb with its own word. -/
def echo (word response : BitVec 32) : Prop := response = word

/-- A controller at rest. -/
def Controller.rest : Controller := ⟨0, 0, false, none, 0, []⟩

/-- The widget-capabilities verb of a node. -/
def widgetCapabilities (node : BitVec 32) : BitVec 32 := verbWord 0 node 0xF00 0x09

/-- One verb on a controller at rest. -/
theorem verbs_matched_iff_rest : ∃ xs c', Conversation echo Controller.rest xs c' ∧
    ∃ x ∈ xs, x.result = some (widgetCapabilities 2) ∧
      (x.Answered (widgetCapabilities 2) ↔ x.TriggersIdle) := by
  obtain ⟨_, hs⟩ := run_send echo (widgetCapabilities 2) Controller.rest
  have hc : echo (widgetCapabilities 2) (widgetCapabilities 2) := rfl
  obtain ⟨_, _, hp, _⟩ :=
    run_poll_finish (c := Controller.rest.sent (widgetCapabilities 2)) rfl hc 1023
  have hconversation := Conversation.exchange hs hp (.quiet .refl)
  exact ⟨_, _, hconversation, _, List.mem_cons_self, rfl,
    verbs_matched_iff hconversation List.mem_cons_self rfl⟩

/-- **A late response is taken for the next verb's**: node 2's verb times out, node 3's trigger
    is ignored, and node 2's response, the only one ever given, is returned for node 3. -/
theorem late_response : ∃ xs c', Conversation echo Controller.rest xs c' ∧
    ∃ x ∈ xs, x.word = widgetCapabilities 3 ∧ x.result = some (widgetCapabilities 2) ∧
      x.after.answers = [(widgetCapabilities 2, widgetCapabilities 2)] ∧
      ¬ x.Answered (widgetCapabilities 2) := by
  have hne : widgetCapabilities 3 ≠ widgetCapabilities 2 := by decide
  let c₁ := Controller.rest.sent (widgetCapabilities 2)
  obtain ⟨_, hs⟩ := run_send echo (widgetCapabilities 2) Controller.rest
  obtain ⟨_, hp⟩ := run_poll_gives_up echo (c := c₁) rfl 1024
  obtain ⟨_, hs'⟩ := run_send echo (widgetCapabilities 3) c₁
  have hlate : echo (widgetCapabilities 2) (widgetCapabilities 2) := rfl
  obtain ⟨_, c', hp', ha⟩ := run_poll_finish (c := c₁.sent (widgetCapabilities 3)) rfl hlate 1023
  refine ⟨_, _, .exchange hs hp (.exchange hs' hp' (.quiet .refl)), _,
    List.mem_cons_of_mem _ List.mem_cons_self, rfl, rfl, ha, ?_⟩
  intro h
  rcases h with ⟨old, hold, _⟩
  exact hne (Prod.mk.inj (List.cons.inj (hold.symm.trans ha)).1).1

/-! ## 5. Programs of verbs -/

/-- The questions of a verb program: `sendVerb` with the response read after it, and `print`. -/
inductive VerbOp where
  | verb (codec node verb command : BitVec 32)
  | print (fmt : String) (va : List Arg)

/-- A verb is answered with a value or not at all. -/
@[reducible] def VerbOp.Ans : VerbOp → Type
  | verb .. => Option (BitVec 32)
  | print .. => Nat

/-- The signature of verb programs. -/
@[reducible] def Verbs : Sig := ⟨VerbOp, VerbOp.Ans⟩

namespace Verbs

/-- `codec.sendVerb(..)` and the `codec.readVerbResponse()` after it. -/
def ask (codec node verb command : BitVec 32) : Prog Verbs (Option (BitVec 32)) :=
  .ask (S := Verbs) (.verb codec node verb command) .ret

def print (fmt : String) (va : List Arg) : Prog Verbs Nat :=
  .ask (S := Verbs) (.print fmt va) .ret

/-- A question as register accesses. -/
def onMmio : (o : VerbOp) → Prog Mmio o.Ans
  | .verb codec node verb command =>
    sendVerb codec node verb command >>= fun _ => readVerbResponse
  | .print fmt va => Mmio.print fmt va

/-- At register level a verb is `sendVerb` and `readVerbResponse`. -/
theorem lower_ask (codec node verb command : BitVec 32) :
    (ask codec node verb command).lower onMmio =
      sendVerb codec node verb command >>= fun _ => readVerbResponse :=
  Prog.bind_ret _

/-- An answer the codec can give: none, or a response of its own to that word. -/
def AnswersBy (codec : BitVec 32 → BitVec 32 → Prop) : (o : VerbOp) → o.Ans → Prop
  | .verb address node verb command, r =>
    ∀ v, r = some v → codec (verbWord address node verb command) v
  | .print .., _ => True

/-- **Register level and verb level**: a verb program run on the registers, every trigger meeting
    an idle controller, returns what it can return when each verb gets no answer or the codec's. -/
theorem outcome_of_run {α : Type} {codec : BitVec 32 → BitVec 32 → Prop} {p : Prog Verbs α}
    {c c' : Controller} {tr : List (Controller × MmioOp)} {a : α}
    (hidle : ∀ e ∈ tr, ∀ v, e.2 = .write16 0x68 v → v.getLsbD 0 = true → e.1.inFlight = none)
    (h : Prog.Run (Controller.Step codec) Controller.device (p.lower onMmio) c tr a c') :
    p.Outcome (AnswersBy codec) a := by
  refine (Prog.run_lower (I := fun _ => True) ?_ (fun _ _ _ _ => trivial) trivial hidle h).2
  intro o s tr x s' _ hidle hr
  refine ⟨trivial, ?_⟩
  cases o with
  | print => trivial
  | verb address node verb command =>
      intro v h
      subst h
      obtain ⟨_, s₁, tr₁, tr₂, hs, hp, rfl⟩ := Prog.run_bind hr
      obtain ⟨_, _, t, rfl, hicw, _, _, hsteps⟩ := Controller.send_triggers hs
      have ht : t.inFlight = none := hidle (t, .write16 0x68 1) (by simp) 1 rfl rfl
      have hw : Controller.OnItsWay codec (verbWord address node verb command) t.answers
          (t.writeIcs 1) :=
        .flying (by simp [Controller.writeIcs, ht, hicw]) (by simp [Controller.writeIcs, ht])
      exact (Controller.poll_returns (Controller.onItsWay_steps hw hsteps) hp).1

end Verbs

end TinyOS64
