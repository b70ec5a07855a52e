/-
  File:      TinyOS64/Hda/InTime.lean
  Subject:   The driver on a controller that takes its time, against a codec asked directly.

  Two levels of one driver. Above, a verb program asks a codec, which has a state and answers at
  once. Below, the same program is register accesses, and the controller needs a number of them
  before a response is there, another number for every command. A command is answered exactly
  when it needs fewer than 1024 (`exec_verb`); with such commands only, both levels compute and
  print the same and leave the codec in the same state (`verbs_in_time`). `runs_on_controller`
  says that the controller here is one of those `Verbs` speaks of.
-/
import TinyOS64.Hda.Verbs

namespace TinyOS64

open Interaction Relation

/-! ## 1. Above: a codec asked directly -/

/-- A codec: the response to a word, and the state after it. -/
abbrev Codec (σ : Type) := BitVec 32 → σ → BitVec 32 × σ

variable {σ : Type}

/-- The responses the codec can give. -/
def Codec.responds (codec : Codec σ) (word response : BitVec 32) : Prop :=
  ∃ s, (codec word s).1 = response

/-- The codec as verb programs meet it: it answers every verb. -/
def Codec.attached (codec : Codec σ) : Prog.Device Verbs σ := fun o s =>
  match o with
  | .verb address node verb command =>
    (some (codec (verbWord address node verb command) s).1,
      (codec (verbWord address node verb command) s).2)
  | .print fmt va => (printCount fmt va, s)

/-! ## 2. Below: a controller that takes its time -/

/-- A controller with a codec: its registers, the command it is working on with the register
    accesses it still needs for it, and the number of commands started. -/
structure TimedController (σ : Type) where
  icw : BitVec 32
  irr : BitVec 32
  valid : Bool
  inFlight : Option (BitVec 32 × Nat)
  /-- ICS from bit 2 on. -/
  icsRest : Fin (2 ^ 14)
  started : Nat
  codec : σ

namespace TimedController

/-- The value of ICS. -/
def ics (c : TimedController σ) : BitVec 16 :=
  BitVec.ofNat 16 (4 * c.icsRest + 2 * c.valid.toNat + c.inFlight.isSome.toNat)

/-- The response is there. -/
def finish (codec : Codec σ) (c : TimedController σ) (word : BitVec 32) : TimedController σ :=
  { c with
    irr := (codec word c.codec).1
    valid := true
    inFlight := none
    codec := (codec word c.codec).2 }

/-- What the controller does by itself before a register access. -/
def tick (codec : Codec σ) (c : TimedController σ) : TimedController σ :=
  match c.inFlight with
  | none => c
  | some (word, 0) => c.finish codec word
  | some (word, n + 1) => { c with inFlight := some (word, n) }

/-- A write to ICS: bit 1 clears the valid bit, bit 0 starts ICW when the controller is idle. The
    command needs as many accesses as `latency` says for its number. -/
def writeIcs (latency : Nat → Nat) (c : TimedController σ) (v : BitVec 16) : TimedController σ :=
  let c := if v.getLsbD 1 then { c with valid := false } else c
  if v.getLsbD 0 ∧ c.inFlight = none then
    { c with inFlight := some (c.icw, latency c.started), started := c.started + 1 }
  else c

/-- The registers as the driver meets them; no other register takes part. -/
def device (codec : Codec σ) (latency : Nat → Nat) : Prog.Device Mmio (TimedController σ) :=
  fun o c =>
    match o with
    | .read16 a => (if a = 0x68 then (c.tick codec).ics else 0, c.tick codec)
    | .read32 a =>
      (if a = 0x64 then (c.tick codec).irr else if a = 0x60 then (c.tick codec).icw else 0,
        c.tick codec)
    | .write16 a v => ((), if a = 0x68 then (c.tick codec).writeIcs latency v else c.tick codec)
    | .write32 a v => ((), if a = 0x60 then { c.tick codec with icw := v } else c.tick codec)
    | .read8 _ => (0, c.tick codec)
    | .write8 .. => ((), c.tick codec)
    | .store32 .. => ((), c)
    | .print fmt va => (printCount fmt va, c)

variable {codec : Codec σ} {latency : Nat → Nat} {c : TimedController σ} {word : BitVec 32}

theorem tick_idle (h : c.inFlight = none) : c.tick codec = c := by
  rw [tick, h]

theorem tick_last (h : c.inFlight = some (word, 0)) : c.tick codec = c.finish codec word := by
  rw [tick, h]

theorem tick_more {n : Nat} (h : c.inFlight = some (word, n + 1)) :
    c.tick codec = { c with inFlight := some (word, n) } := by
  rw [tick, h]

/-! ## 3. The two controllers -/

/-- The controller without its timing, with answers it has given. -/
def shown (c : TimedController σ) (answers : List (BitVec 32 × BitVec 32)) : Controller :=
  ⟨c.icw, c.irr, c.valid, c.inFlight.map Prod.fst, c.icsRest, answers⟩

theorem shown_ics (answers : List (BitVec 32 × BitVec 32)) : (c.shown answers).ics = c.ics := by
  simp [shown, Controller.ics, ics]

variable (latency) in
theorem shown_writeIcs (answers : List (BitVec 32 × BitVec 32)) (v : BitVec 16) :
    (c.shown answers).writeIcs v = (c.writeIcs latency v).shown answers := by
  unfold Controller.writeIcs writeIcs shown
  cases hf : c.inFlight <;> cases v.getLsbD 1 <;> cases v.getLsbD 0 <;> simp [hf]

variable (codec c) in
/-- What the timed controller does by itself is a step of the controller, or none. -/
theorem shown_tick (answers : List (BitVec 32 × BitVec 32)) :
    ∃ answers', ReflTransGen (Controller.Step codec.responds) (c.shown answers)
      ((c.tick codec).shown answers') := by
  cases hf : c.inFlight with
  | none => exact ⟨answers, by rw [tick_idle hf]⟩
  | some flying =>
      obtain ⟨word, n⟩ := flying
      cases n with
      | zero =>
          refine ⟨(word, (codec word c.codec).1) :: answers, ?_⟩
          rw [tick_last hf]
          exact .single (.finish (by rw [shown, hf]; rfl) ⟨c.codec, rfl⟩)
      | succ n =>
          refine ⟨answers, ?_⟩
          rw [tick_more hf, shown, hf]
          exact .refl

variable (codec latency c) in
/-- A register access on the timed controller is one on the controller, after its own steps. -/
theorem shown_access (o : MmioOp) (answers : List (BitVec 32 × BitVec 32)) :
    ∃ k answers', ReflTransGen (Controller.Step codec.responds) (c.shown answers) k ∧
      Controller.device o k =
        ((device codec latency o c).1, (device codec latency o c).2.shown answers') := by
  obtain ⟨ticked, hticked⟩ := shown_tick codec c answers
  cases o with
  | read16 a =>
      refine ⟨_, ticked, hticked, ?_⟩
      simp only [Controller.device, device, shown_ics]
  | read32 | read8 | write8 => exact ⟨_, ticked, hticked, rfl⟩
  | write16 a v =>
      refine ⟨_, ticked, hticked, ?_⟩
      by_cases ha : a = 0x68
      · simp only [Controller.device, device, if_pos ha, shown_writeIcs latency]
      · simp only [Controller.device, device, if_neg ha]
  | write32 a v =>
      refine ⟨_, ticked, hticked, ?_⟩
      by_cases ha : a = 0x60
      · simp only [Controller.device, device, if_pos ha, shown]
      · simp only [Controller.device, device, if_neg ha]
  | store32 | print => exact ⟨_, answers, .refl, rfl⟩

/-- **The timed controller is one of the controllers of a conversation**: a run on it is a run on
    the controller that takes its own steps. -/
theorem runs_on_controller {α : Type} (p : Prog Mmio α) (c : TimedController σ)
    (answers : List (BitVec 32 × BitVec 32)) :
    ∃ tr answers', Prog.Run (Controller.Step codec.responds) Controller.device p (c.shown answers)
      tr (p.exec (device codec latency) c).1
        ((p.exec (device codec latency) c).2.shown answers') := by
  induction p generalizing c answers with
  | ret a => exact ⟨[], answers, .ret a _⟩
  | ask o k ih =>
      obtain ⟨ctrl, after, hsteps, hdev⟩ := shown_access codec latency c o answers
      obtain ⟨tr, answers', hr⟩ :=
        ih (device codec latency o c).1 (device codec latency o c).2 after
      refine ⟨(ctrl, o) :: tr, answers', .after_steps hsteps (.ask ?_)⟩
      rw [hdev]
      exact hr

end TimedController

/-! ## 4. The accesses of a verb -/

/-- The program of a verb: `sendVerb`, then `readVerbResponse`. -/
def verbProgram (word : BitVec 32) : Prog Mmio (Option (BitVec 32)) := do
  sendWord word
  readVerbResponse

/-- The access touches ICW, IRR or ICS. -/
def MmioOp.AtInterface : MmioOp → Prop
  | read8 a | write8 a _ => 0x60 ≤ a ∧ a < 0x6A
  | read16 a | write16 a _ => 0x60 < a + 2 ∧ a < 0x6A
  | read32 a | write32 a _ => 0x60 < a + 4 ∧ a < 0x6A
  | store32 .. | print .. => False

instance : DecidablePred MmioOp.AtInterface
  | .read8 _ | .write8 .. | .read16 _ | .write16 .. | .read32 _ | .write32 .. =>
    inferInstanceAs (Decidable (_ ∧ _))
  | .store32 .. | .print .. => inferInstanceAs (Decidable False)

theorem pollVerbResponse_atInterface (retries : Nat) :
    (pollVerbResponse retries).AsksOnly MmioOp.AtInterface := by
  have hics : (MmioOp.read16 0x68).AtInterface := by decide
  have hirr : (MmioOp.read32 0x64).AtInterface := by decide
  induction retries with
  | zero => trivial
  | succ retries ih =>
      rw [pollVerbResponse_succ]
      refine Prog.asksOnly_ask hics fun ics => ?_
      split
      · exact ih
      · exact Prog.asksOnly_once hirr

theorem verbProgram_atInterface (word : BitVec 32) :
    (verbProgram word).AsksOnly MmioOp.AtInterface := by
  have hics : ∀ v, (MmioOp.write16 0x68 v).AtInterface := fun v =>
    (by decide : 0x60 < 0x68 + 2 ∧ 0x68 < 0x6A)
  have hicw : (MmioOp.write32 0x60 word).AtInterface :=
    (by decide : 0x60 < 0x60 + 4 ∧ 0x60 < 0x6A)
  refine Prog.avoids_bind ?_ fun _ => pollVerbResponse_atInterface 1024
  rw [sendWord_eq]
  exact Prog.asksOnly_ask (hics 2) fun _ => Prog.asksOnly_ask hicw fun _ =>
    Prog.asksOnly_once (hics 1)

/-- What is seen on the screen. -/
def MmioOp.printed : MmioOp → Option (String × List Arg)
  | print fmt va => some (fmt, va)
  | _ => none

def VerbOp.printed : VerbOp → Option (String × List Arg)
  | print fmt va => some (fmt, va)
  | verb .. => none

/-- A verb shows nothing. -/
theorem verbProgram_printed {τ : Type} (word : BitVec 32) (d : Prog.Device Mmio τ) (s : τ) :
    ((verbProgram word).asks d s).filterMap MmioOp.printed = [] := by
  refine (verbProgram_atInterface word).unseen (fun o ho => ?_) d s
  cases o with
  | print => exact ho.elim
  | _ => rfl

/-! ## 5. One verb -/

namespace TimedController

variable {codec : Codec σ} {latency : Nat → Nat} {c : TimedController σ} {word : BitVec 32}

/-- What the poll loop waits for: the response is there and the controller is idle. -/
theorem ics_ready (c : TimedController σ) :
    c.ics.setWidth 64 &&& 0x03 = 0x02#64 ↔ c.valid = true ∧ c.inFlight = none := by
  rw [← shown_ics [], Controller.ics_ready]
  simp [shown]

/-- **The poll loop** waits `n` polls out if it has more, and gives up otherwise. -/
theorem exec_poll {retries n : Nat} (hf : c.inFlight = some (word, n)) :
    (pollVerbResponse retries).exec (device codec latency) c =
      if n < retries then (some (codec word c.codec).1, c.finish codec word)
      else (none, { c with inFlight := some (word, n - retries) }) := by
  induction retries generalizing c n with
  | zero =>
      rw [if_neg (Nat.not_lt_zero n), Nat.sub_zero, ← hf]
      rfl
  | succ retries ih =>
      rw [pollVerbResponse_succ, Prog.exec_ask]
      simp only [device, ↓reduceIte]
      cases n with
      | zero =>
          have hready : (c.finish codec word).ics.setWidth 64 &&& 0x03 = 0x02#64 :=
            (ics_ready _).mpr ⟨rfl, rfl⟩
          rw [tick_last hf, if_neg (not_not.mpr hready), if_pos (Nat.succ_pos retries)]
          rfl
      | succ n =>
          have hbusy : ¬ (c.tick codec).ics.setWidth 64 &&& 0x03 = 0x02#64 := by
            rw [ics_ready, tick_more hf]
            exact fun h => nomatch h.2
          rw [if_pos hbusy, tick_more hf, ih rfl]
          simp only [Nat.add_lt_add_iff_right, Nat.add_sub_add_right]
          rfl

/-- The controller after the three writes of `sendWord`. -/
def sent (latency : Nat → Nat) (c : TimedController σ) (word : BitVec 32) : TimedController σ :=
  { c with
    icw := word
    valid := false
    inFlight := some (word, latency c.started)
    started := c.started + 1 }

/-- An idle controller starts what is sent. -/
theorem exec_send (hidle : c.inFlight = none) (word : BitVec 32) :
    (sendWord word).exec (device codec latency) c = ((), c.sent latency word) := by
  have hclear : c.writeIcs latency 2 = { c with valid := false } := by simp [writeIcs, hidle]
  rw [sendWord_eq]
  simp only [Prog.exec_ask, Prog.exec_ret, device, ↓reduceIte, tick_idle hidle, hclear]
  simp [tick, writeIcs, hidle, sent]

variable (codec latency) in
/-- **One verb**, sent to an idle controller: its own response exactly when the command needs
    fewer than 1024 accesses, and otherwise nothing, with the command still in flight. -/
theorem exec_verb (hidle : c.inFlight = none) (word : BitVec 32) :
    (sendWord word >>= fun _ => readVerbResponse).exec (device codec latency) c =
      if latency c.started < 1024 then
        (some (codec word c.codec).1, (c.sent latency word).finish codec word)
      else
        (none, { c.sent latency word with inFlight := some (word, latency c.started - 1024) }) := by
  rw [Prog.exec_bind, exec_send hidle]
  exact exec_poll rfl

end TimedController

/-! ## 6. Both levels -/

open TimedController

/-- The states of the two levels between two verbs: an idle controller with the codec. -/
def SameCodec (s : σ) (c : TimedController σ) : Prop := c.codec = s ∧ c.inFlight = none

/-- One question on both levels. -/
theorem sameCodec_verb (codec : Codec σ) {latency : Nat → Nat} (hlatency : ∀ n, latency n < 1024)
    (o : VerbOp) {s : σ} {c : TimedController σ} (h : SameCodec s c) :
    ((Verbs.onMmio o).exec (device codec latency) c).1 = (codec.attached o s).1 ∧
      SameCodec (codec.attached o s).2 ((Verbs.onMmio o).exec (device codec latency) c).2 := by
  obtain ⟨rfl, hidle⟩ := h
  cases o with
  | verb address node verb command =>
      have hverb := exec_verb codec latency hidle (verbWord address node verb command)
      rw [if_pos (hlatency _)] at hverb
      have hexec : (Verbs.onMmio (.verb address node verb command)).exec (device codec latency) c =
          _ := hverb
      rw [hexec]
      exact ⟨rfl, rfl, rfl⟩
  | print => exact ⟨rfl, rfl, hidle⟩

/-- It shows the same. -/
theorem onMmio_printed {τ : Type} (o : VerbOp) (d : Prog.Device Mmio τ) (s : τ) :
    ((Verbs.onMmio o).asks d s).filterMap MmioOp.printed = o.printed.toList := by
  cases o with
  | verb address node verb command =>
      exact verbProgram_printed (verbWord address node verb command) d s
  | print => rfl

/-- **Both levels agree**: a verb program run as register accesses, on a controller that takes any
    number of accesses below 1024 for each command, returns what it returns with the codec asked
    directly, prints the same, leaves the codec in the same state and the controller idle. -/
theorem verbs_in_time {α : Type} (codec : Codec σ) {latency : Nat → Nat}
    (hlatency : ∀ n, latency n < 1024) (p : Prog Verbs α) {c : TimedController σ}
    (hidle : c.inFlight = none) :
    ((p.lower Verbs.onMmio).exec (device codec latency) c).1 =
        (p.exec codec.attached c.codec).1 ∧
      ((p.lower Verbs.onMmio).exec (device codec latency) c).2.codec =
        (p.exec codec.attached c.codec).2 ∧
      ((p.lower Verbs.onMmio).exec (device codec latency) c).2.inFlight = none ∧
      ((p.lower Verbs.onMmio).asks (device codec latency) c).filterMap MmioOp.printed =
        (p.asks codec.attached c.codec).filterMap VerbOp.printed := by
  have hsame : SameCodec c.codec c := ⟨rfl, hidle⟩
  have hop : ∀ o s c, True → SameCodec s c →
      ((Verbs.onMmio o).exec (device codec latency) c).1 = (codec.attached o s).1 ∧
        SameCodec (codec.attached o s).2 ((Verbs.onMmio o).exec (device codec latency) c).2 :=
    fun o _ _ _ h => sameCodec_verb codec hlatency o h
  obtain ⟨hvalue, hcodec, hidle'⟩ := Prog.exec_lower_sim hop (Prog.asksOnly_true p) hsame
  refine ⟨hvalue, hcodec, hidle', ?_⟩
  exact Prog.asks_lower_sim hop (fun o _ c _ _ => onMmio_printed o (device codec latency) c)
    (Prog.asksOnly_true p) hsame

/-- A codec that answers every word with itself and counts the words. -/
def counting : Codec Nat := fun word count => (word, count + 1)

/-- A timed controller at rest. -/
def TimedController.rest (s : σ) : TimedController σ :=
  ⟨0, 0, false, none, ⟨0, Nat.two_pow_pos 14⟩, 0, s⟩

/-- Two verbs that need as long as they may, with a print between them. -/
theorem verbs_in_time_slow :
    let p : Prog Verbs (Option (BitVec 32)) := do
      let _ ← Verbs.ask 0 2 0xF00 0x09
      let _ ← Verbs.print "Codec ID = %x\n\r" [.u32 2]
      Verbs.ask 0 3 0xF00 0x09
    ((p.lower Verbs.onMmio).exec (device counting fun _ => 1023) (.rest 0)).1 =
        some (widgetCapabilities 3) ∧
      ((p.lower Verbs.onMmio).exec (device counting fun _ => 1023) (.rest 0)).2.codec = 2 ∧
      ((p.lower Verbs.onMmio).exec (device counting fun _ => 1023) (.rest 0)).2.inFlight = none ∧
      ((p.lower Verbs.onMmio).asks (device counting fun _ => 1023) (.rest 0)).filterMap
        MmioOp.printed = [("Codec ID = %x\n\r", [.u32 2])] := by
  intro p
  have hlatency : ∀ n : Nat, (fun _ => 1023) n < 1024 := fun _ => Nat.lt_succ_self 1023
  exact verbs_in_time counting hlatency p (c := .rest 0) rfl

end TinyOS64
