/-
  File:      TinyOS64/Console/OnRegisters.lean
  Subject:   A session on the controller's registers, against one that asks the codec directly.

  The commands send their verbs through the registers ICW, IRR and ICS, the same that `read` and
  `write` reach by name and `rdmem` by address. As long as no line touches one of the three and no
  command takes the controller too long, a session on the registers is the session with the codec
  asked directly (`reportLines_onRegisters`).
-/
import TinyOS64.Console.Session
import TinyOS64.Hda.InTime

namespace TinyOS64

open Interaction TimedController

/-! ## 1. Two machines -/

/-- A question of a command, its verbs as register accesses. -/
def ConsoleOp.onRegisters : (o : ConsoleOp) → Prog Console o.Ans
  | .verb word => liftM (verbProgram word)
  | o => .ask (S := Console) o .ret

section Machines

variable {σ τ : Type} (m_base : BitVec 64) (codec : Codec σ) (latency : Nat → Nat)
  (m : Prog.Device Console τ)

/-- **Above**: a codec that is asked directly, and a machine for everything else. -/
def asking : Prog.Device Console (τ × σ) := fun o s =>
  match o with
  | .verb word => (some (codec word s.2).1, s.1, (codec word s.2).2)
  | o => ((m o s.1).1, (m o s.1).2, s.2)

/-- **Below**: the three registers are the controller's, by offset or, in the window that starts at
    `m_base`, by address; every other access gives it time. -/
def onController : Prog.Device Console (τ × TimedController σ) := fun o s =>
  match o with
  | .register o =>
    if o.AtInterface then
      ((device codec latency o s.2).1, s.1, (device codec latency o s.2).2)
    else ((m (.register o) s.1).1, (m (.register o) s.1).2, s.2.tick codec)
  | .load32 address =>
    if (MmioOp.read32 (address - m_base).toNat).AtInterface then
      ((device codec latency (.read32 (address - m_base).toNat) s.2).1, s.1,
        (device codec latency (.read32 (address - m_base).toNat) s.2).2)
    else ((m (.load32 address) s.1).1, (m (.load32 address) s.1).2, s.2.tick codec)
  | o => ((m o s.1).1, (m o s.1).2, s.2)

/-- The question does not touch the three registers. -/
def SparesInterface : ConsoleOp → Prop
  | .register o => ¬ o.AtInterface
  | .load32 address => ¬ (MmioOp.read32 (address - m_base).toNat).AtInterface
  | _ => True

/-- The states between two questions: the same machine and codec, an idle controller. -/
def SameMachine (s : τ × σ) (s' : τ × TimedController σ) : Prop :=
  s'.1 = s.1 ∧ SameCodec s.2 s'.2

/-- A program of the three registers runs on the controller alone. -/
theorem exec_atInterface {α : Type} {p : Prog Mmio α} (hp : p.AsksOnly MmioOp.AtInterface)
    (t : τ) (c : TimedController σ) :
    (liftM p : Prog Console α).exec (onController m_base codec latency m) (t, c) =
      ((p.exec (device codec latency) c).1, t, (p.exec (device codec latency) c).2) := by
  have hask : ∀ (o : MmioOp) (c : TimedController σ) (s : τ × TimedController σ),
      o.AtInterface → s = (t, c) →
      ((Prog.ask (S := Console) (.register o) .ret).exec
          (onController m_base codec latency m) s).1 = (device codec latency o c).1 ∧
        ((Prog.ask (S := Console) (.register o) .ret).exec
          (onController m_base codec latency m) s).2 = (t, (device codec latency o c).2) := by
    intro o c s ho hs
    rw [hs, Prog.exec_ask, Prog.exec_ret]
    dsimp only [onController]
    rw [if_pos ho]
    exact ⟨rfl, rfl⟩
  have hsim := Prog.exec_lower_sim (R := fun c s => s = (t, c)) hask hp (s := c) rfl
  exact Prod.ext hsim.1 hsim.2

/-- **One question on both machines.** -/
theorem sameMachine_ask (hlatency : ∀ n, latency n < 1024) (o : ConsoleOp) {s : τ × σ}
    {s' : τ × TimedController σ} (ho : SparesInterface m_base o) (h : SameMachine s s') :
    (o.onRegisters.exec (onController m_base codec latency m) s').1 = (asking codec m o s).1 ∧
      SameMachine (asking codec m o s).2
        (o.onRegisters.exec (onController m_base codec latency m) s').2 := by
  obtain ⟨t, q⟩ := s
  obtain ⟨t', c⟩ := s'
  obtain ⟨htau, hcodec, hidle⟩ := h
  dsimp only at htau hcodec hidle
  subst htau hcodec
  cases o with
  | verb word =>
      have hverb : (verbProgram word).exec (device codec latency) c = _ :=
        exec_verb codec latency hidle word
      rw [if_pos (hlatency _)] at hverb
      rw [ConsoleOp.onRegisters,
        exec_atInterface m_base codec latency m (verbProgram_atInterface word), hverb]
      exact ⟨rfl, rfl, rfl, rfl⟩
  | register o =>
      have hregister : onController m_base codec latency m (.register o) (t', c) =
          ((m (.register o) t').1, (m (.register o) t').2, c.tick codec) := if_neg ho
      have honce : ConsoleOp.onRegisters (.register o) = .ask (S := Console) (.register o) .ret :=
        rfl
      rw [honce, Prog.exec_ask, Prog.exec_ret, hregister, tick_idle hidle]
      exact ⟨rfl, rfl, rfl, hidle⟩
  | load32 address =>
      have hload : onController m_base codec latency m (.load32 address) (t', c) =
          ((m (.load32 address) t').1, (m (.load32 address) t').2, c.tick codec) := if_neg ho
      have honce : ConsoleOp.onRegisters (.load32 address) =
          .ask (S := Console) (.load32 address) .ret := rfl
      rw [honce, Prog.exec_ask, Prog.exec_ret, hload, tick_idle hidle]
      exact ⟨rfl, rfl, rfl, hidle⟩
  | setMode | queryMode | locateGraphics | queryGraphics => exact ⟨rfl, rfl, rfl, hidle⟩

/-- What a question of the console shows. -/
def ConsoleOp.printed : ConsoleOp → Option (String × List Arg)
  | .register o => o.printed
  | _ => none

theorem printedLines_eq (ops : List ConsoleOp) :
    printedLines ops = ops.filterMap ConsoleOp.printed := by
  refine congrArg (ops.filterMap ·) (funext fun o => ?_)
  cases o with
  | register o => cases o <;> rfl
  | _ => rfl

/-- **One question shows the same on both machines.** -/
theorem onRegisters_printed (o : ConsoleOp) (s : τ × TimedController σ) :
    (o.onRegisters.asks (onController m_base codec latency m) s).filterMap ConsoleOp.printed =
      o.printed.toList := by
  cases o with
  | verb word =>
      have hquiet : (liftM (verbProgram word) : Prog Console _).AsksOnly fun o : ConsoleOp =>
          ∃ r : MmioOp, o = .register r ∧ r.AtInterface :=
        (verbProgram_atInterface word).lower fun r hr => Prog.asksOnly_once ⟨r, rfl, hr⟩
      refine hquiet.unseen (fun o ho => ?_) _ s
      obtain ⟨r, rfl, hr⟩ := ho
      cases r with
      | print => exact hr.elim
      | _ => rfl
  | register o => cases o <;> rfl
  | load32 | setMode | queryMode | locateGraphics | queryGraphics => rfl

end Machines

/-! ## 2. Lines that leave the interface alone -/

/-- The registers the verbs go through. -/
def verbRegisters : List String := ["icw", "irr", "ics"]

/-- The words an `rdmem` loads, by the address of the first and their number; none without an
    address. -/
def dumpRange (mem : List Byte) (params : View) :
    Except Fault (Option (BitVec 64 × BitVec 32)) := do
  let addrParam ← findNextParam mem params
  let addr ← valueFromStr mem addrParam.m_param
  let lenParam ← findNextParam mem addrParam.m_remainder
  let len ← valueFromStr mem lenParam.m_param
  pure (addr.map fun address => (address, (len.getD 1).setWidth 32))

/-- The line loads the word at `address`. -/
def LineLoads (line : List Byte) (address : BitVec 64) : Prop :=
  commandOf line = some .rdmem ∧ ∃ first words,
    dumpRange (lineMemory line) (.tail line (line.dropWhile isAlpha)) =
      .ok (some (first, words)) ∧
    ∃ i < words.toNat, address = first + BitVec.ofNat 64 (4 * i)

/-- **The line touches none of them**: neither `read` nor `write` names one, and `rdmem` loads from
    none. -/
structure LineSparesInterface (m_base : BitVec 64) (line : List Byte) : Prop where
  named : commandOf line = some .read ∨ commandOf line = some .write →
    ∀ r ∈ getReg (firstParam (line.dropWhile isAlpha)), r.name ∉ verbRegisters
  loads : ∀ address, LineLoads line address →
    ¬ (MmioOp.read32 (address - m_base).toNat).AtInterface

/-- The other registers lie elsewhere. -/
theorem regs_elsewhere : ∀ r ∈ regs, r.name ∉ verbRegisters →
    r.offset + r.width ≤ 0x60 ∨ 0x6A ≤ r.offset := by decide +kernel

/-- What such a line may ask does not touch the interface; `rdmem` is looked at below. -/
theorem may_sparesInterface {m_base : BitVec 64} {codec : HDACodec} {rest : List Byte} {c : Command}
    (hout : 0x80 ≤ codec.m_outputDescriptor) (hrdmem : c ≠ .rdmem)
    (hname : c = .read ∨ c = .write → ∀ r ∈ getReg (firstParam rest), r.name ∉ verbRegisters)
    {o : ConsoleOp} (ho : May codec rest c o) : SparesInterface m_base o := by
  have helsewhere : c = .read ∨ c = .write → ∀ r ∈ getReg (firstParam rest),
      r.offset + r.width ≤ 0x60 ∨ 0x6A ≤ r.offset := fun hc r hr =>
    regs_elsewhere r (List.mem_of_find?_eq_some hr) (hname hc r hr)
  cases ho with
  | shows h =>
      cases o with
      | register o =>
          cases o with
          | print => exact id
          | _ => exact h.elim
      | _ => exact h.elim
  | readRegister h =>
      rename_i o
      cases o with
      | read8 | read16 | read32 =>
          obtain ⟨r, hr, rfl, hwidth⟩ := h
          have := helsewhere (.inl rfl) r hr
          rw [hwidth] at this
          show ¬ (_ ∧ _)
          omega
      | _ => exact h.elim
  | writeRegister h =>
      rename_i o
      cases o with
      | write8 | write16 | write32 =>
          obtain ⟨r, hr, rfl, hwidth⟩ := h
          have := helsewhere (.inr rfl) r hr
          rw [hwidth] at this
          show ¬ (_ ∧ _)
          omega
      | _ => exact h.elim
  | playPos =>
      show ¬ (_ ∧ _)
      omega
  | readReply | writeReply => exact id
  | load32 => exact absurd rfl hrdmem
  | _ => trivial

/-- `rdmem` by the words it loads. -/
theorem cmdReadMem_eq (mem : List Byte) (codec : HDACodec) (params : View) :
    cmdReadMem mem codec params =
      ((liftM (dumpRange mem params) : ConsoleM _) >>= fun range =>
        match range with
        | none => pure (false, codec)
        | some (address, words) => do
          showWords address words
          Console.print "\n\r" []
          pure (true, codec)) := by
  unfold cmdReadMem dumpRange
  cases findNextParam mem params with
  | error e => rfl
  | ok addrParam =>
      rw [liftM_ok_bind, Fault.ok_bind]
      cases valueFromStr mem addrParam.m_param with
      | error e => rfl
      | ok addr =>
          rw [liftM_ok_bind, Fault.ok_bind]
          cases findNextParam mem addrParam.m_remainder with
          | error e => rfl
          | ok lenParam =>
              rw [liftM_ok_bind, Fault.ok_bind]
              cases valueFromStr mem lenParam.m_param with
              | error e => rfl
              | ok len => cases addr <;> rfl

/-- A dump prints, and loads its words. -/
theorem showWords_spares {m_base : BitVec 64} {address : BitVec 64} {words : BitVec 32}
    (h : ∀ i < words.toNat, ¬ (MmioOp.read32
      (address + BitVec.ofNat 64 (4 * i) - m_base).toNat).AtInterface) :
    (showWords address words).AsksOnly (SparesInterface m_base) := by
  refine Prog.avoids_forM fun i hi => ?_
  have hload := h i (List.mem_range.mp hi)
  have hprint : ∀ fmt va, (Console.print fmt va).AsksOnly (SparesInterface m_base) := fun _ _ =>
    Prog.asksOnly_once id
  have hline : (if (i + 1) % 4 = 0 then Console.print "\n\r" [] else pure ()).AsksOnly
      (SparesInterface m_base) := by
    split
    · exact hprint _ _
    · trivial
  have hword : (Console.ask (.load32 (address + BitVec.ofNat 64 (4 * i)))).AsksOnly
      (SparesInterface m_base) := Prog.asksOnly_once hload
  unfold showWord
  dsimp only
  split
  · exact Prog.avoids_bind (hprint _ _) fun _ => Prog.avoids_bind hword fun _ =>
      Prog.avoids_bind (hprint _ _) fun _ => hline
  · exact Prog.avoids_bind hword fun _ => Prog.avoids_bind (hprint _ _) fun _ => hline

/-- **Such a line** does not touch the interface. -/
theorem execute_sparesInterface {m_base : BitVec 64} (polls : Nat) {codec : HDACodec}
    (hout : 0x80 ≤ codec.m_outputDescriptor) {line : List Byte}
    (hline : LineSparesInterface m_base line) : Confined (SparesInterface m_base)
      (execute polls (lineMemory line) codec ⟨some 0, line.length⟩) := by
  by_cases hrdmem : commandOf line = some .rdmem
  · rw [execute_eq, hrdmem]
    show Confined (SparesInterface m_base)
      (cmdReadMem (lineMemory line) codec (.tail line (line.dropWhile isAlpha)))
    rw [cmdReadMem_eq]
    refine confined_value fun range hrange => ?_
    cases range with
    | none => exact confined_pure _
    | some range =>
        obtain ⟨first, words⟩ := range
        have hwords := @showWords_spares m_base first words fun i hi =>
          hline.loads _ ⟨hrdmem, first, words, hrange, i, hi, rfl⟩
        exact confined_after hwords fun _ =>
          confined_after (Prog.asksOnly_once id) fun _ => confined_pure _
  · refine (execute_confined polls codec line).mono fun o ho => ?_
    obtain ⟨c, hc, hmay⟩ := ho
    have hother : c ≠ .rdmem := fun h => hrdmem (hc.trans (congrArg some h))
    exact may_sparesInterface hout hother (fun hcommand => hline.named
      (hcommand.imp (hc.trans <| congrArg some ·) (hc.trans <| congrArg some ·))) hmay

/-! ## 3. Sessions -/

/-- A session with what each of its lines returns, which decides about the message behind it. -/
def reportLines (polls : Nat) : List (List Byte) → HDACodec → ConsoleM (List Bool × HDACodec)
  | [], codec => pure ([], codec)
  | line :: lines, codec => do
    let (executed, codec) ← execute polls (lineMemory line) codec ⟨some 0, line.length⟩
    let (results, codec) ← reportLines polls lines codec
    pure (executed :: results, codec)

/-- It is the session. -/
theorem runLines_eq (polls : Nat) (lines : List (List Byte)) (codec : HDACodec) :
    runLines polls lines codec = (reportLines polls lines codec >>= fun r => pure r.2) := by
  induction lines generalizing codec with
  | nil => exact (pure_bind _ _).symm
  | cons line lines ih =>
      rw [runLines, reportLines, bind_assoc]
      refine congrArg _ (funext fun r => ?_)
      dsimp only
      rw [ih r.2, bind_assoc]
      exact congrArg _ (funext fun _ => (pure_bind _ _).symm)

/-- **A session of such lines** does not touch the interface. -/
theorem reportLines_sparesInterface {m_base : BitVec 64} (polls : Nat) (lines : List (List Byte))
    (codec : HDACodec) (hout : 0x80 ≤ codec.m_outputDescriptor)
    (hlines : ∀ line ∈ lines, LineSparesInterface m_base line) :
    Confined (SparesInterface m_base) (reportLines polls lines codec) := by
  have hsession : Confined (SparesInterface m_base) (runLines polls lines codec) := by
    refine runLines_confined polls fun line hline codec' hcodec' => ?_
    refine execute_sparesInterface polls ?_ (hlines line hline)
    rw [hcodec'.members]
    exact hout
  rw [runLines_eq] at hsession
  exact Prog.Avoids.left hsession

/-- **A session on the registers is the session with the codec asked directly**: each of its lines
    returns the same, it prints the same, and it leaves the same table, the rest of the machine and
    the codec in the same state, and the controller idle. For every machine, every codec with a
    state and every number of accesses below 1024 each of its commands may need, as long as no line
    touches one of the three registers. -/
theorem reportLines_onRegisters {σ τ : Type} (m_base : BitVec 64) (codec : Codec σ)
    {latency : Nat → Nat} (hlatency : ∀ n, latency n < 1024) (m : Prog.Device Console τ)
    (polls : Nat) (lines : List (List Byte))
    (hlines : ∀ line ∈ lines, LineSparesInterface m_base line) (hda : HDACodec)
    (hout : 0x80 ≤ hda.m_outputDescriptor) (t : τ) {c : TimedController σ}
    (hidle : c.inFlight = none) :
    let session := (reportLines polls lines hda).run
    let below := (session.lower ConsoleOp.onRegisters).exec
      (onController m_base codec latency m) (t, c)
    let above := session.exec (asking codec m) (t, c.codec)
    below.1 = above.1 ∧ below.2.1 = above.2.1 ∧ below.2.2.codec = above.2.2 ∧
      below.2.2.inFlight = none ∧
      printedLines ((session.lower ConsoleOp.onRegisters).asks
        (onController m_base codec latency m) (t, c)) =
          printedLines (session.asks (asking codec m) (t, c.codec)) := by
  intro session below above
  have hspares := reportLines_sparesInterface polls lines hda hout hlines
  have hsame : SameMachine (t, c.codec) (t, c) := ⟨rfl, rfl, hidle⟩
  have hop : ∀ o s s', SparesInterface m_base o → SameMachine s s' →
      ((o.onRegisters.exec (onController m_base codec latency m) s').1 = (asking codec m o s).1 ∧
        SameMachine (asking codec m o s).2
          (o.onRegisters.exec (onController m_base codec latency m) s').2) :=
    fun o _ _ ho h => sameMachine_ask m_base codec latency m hlatency o ho h
  obtain ⟨hresult, hmachine, hcodec, hidle'⟩ := Prog.exec_lower_sim hop hspares hsame
  refine ⟨hresult, hmachine, hcodec, hidle', ?_⟩
  rw [printedLines_eq, printedLines_eq]
  exact Prog.asks_lower_sim hop
    (fun o _ s' _ _ => onRegisters_printed m_base codec latency m o s') hspares hsame

/-- A verb, a register, a dump of other memory and a line that is no command, on a controller that
    needs as long as it may. -/
theorem reportLines_onRegisters_slow :
    let lines := [bytes "nodeio 2 $F00 9", bytes "read gctl", bytes "rdmem $1000 2", bytes "mute 3"]
    let silent : Prog.Device Console Unit := fun o s => (Console.silent o, s)
    let session := (reportLines 0 lines ⟨[], 0, 0, 0, 0, 0x100⟩).run
    let below := (session.lower ConsoleOp.onRegisters).exec
      (onController 0xFEBF0000 counting (fun _ => 1023) silent) ((), .rest 0)
    let above := session.exec (asking counting silent) ((), 0)
    below.1 = above.1 ∧ below.2.1 = above.2.1 ∧ below.2.2.codec = above.2.2 ∧
      below.2.2.inFlight = none ∧
      printedLines ((session.lower ConsoleOp.onRegisters).asks
        (onController 0xFEBF0000 counting (fun _ => 1023) silent) ((), .rest 0)) =
          printedLines (session.asks (asking counting silent) ((), 0)) := by
  intro lines silent
  have hnamed : ∀ line ∈ lines, ∀ r ∈ getReg (firstParam (line.dropWhile isAlpha)),
      r.name ∉ verbRegisters := by decide +kernel
  have hrange : ∀ line ∈ lines, commandOf line = some .rdmem →
      dumpRange (lineMemory line) (.tail line (line.dropWhile isAlpha)) =
        .ok (some (0x1000, 2)) := by decide +kernel
  refine reportLines_onRegisters 0xFEBF0000 counting (fun _ => Nat.lt_succ_self 1023) silent 0 lines
    (fun line hline => ⟨fun _ => hnamed line hline, fun address hloads => ?_⟩)
    ⟨[], 0, 0, 0, 0, 0x100⟩ (by decide) () (c := .rest 0) rfl
  obtain ⟨hrdmem, first, words, hdump, i, hi, rfl⟩ := hloads
  cases (hrange line hline hrdmem).symm.trans hdump
  have hall : ∀ i < 2, ¬ (MmioOp.read32
      ((0x1000#64 + BitVec.ofNat 64 (4 * i)) - 0xFEBF0000).toNat).AtInterface := by decide
  exact hall i hi

end TinyOS64
