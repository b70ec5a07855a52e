/-
  File:      TinyOS64/Main/ConfigurationSpace.lean
  Subject:   What the audio part of efi_init does to the PCI configuration space.

  It takes the last controller the search reports, and sets its command register: over the whole
  program, whatever is typed, that is the only register of the configuration space that changes.
  Without a controller it is the command register of whatever function the variable holds.

  * `exec_search` -- the search leaves the space as it is;
  * `efiInitAudio_config` -- the space after the program.
-/
import TinyOS64.Main.AudioBootSafety
import TinyOS64.Pci.CommandReg

namespace TinyOS64

open Interaction RestartedSearch

/-! ## 1. The machine -/

/-- The ports are those before a configuration space whose status registers have the bits `w1c`;
    nothing else reaches the space. -/
structure KeepsConfig {σ : Type} (d : Prog.Device System σ) (view : σ → PciState)
    (w1c : BitVec 16) : Prop where
  ports : Prog.SeenThrough view (fun o s => d (.port o) s) (statusPorts w1c)
  others : ∀ o s, (∀ p, o ≠ .port p) → view (d o s).2 = view s

/-- A question that cannot reach the space. -/
def SystemOp.SparesConfig : SystemOp → Prop
  | port (.print ..) => True
  | port _ => False
  | boot _ | console _ => True

section Machine

variable {α σ : Type} {d : Prog.Device System σ} {view : σ → PciState} {w1c : BitVec 16}

/-- A port program runs as before the configuration space. -/
theorem KeepsConfig.exec_ports (hd : KeepsConfig d view w1c) (p : Prog Ports α) (s : σ) :
    (((p.lower System.onPort).exec d s).1, view ((p.lower System.onPort).exec d s).2) =
      p.exec (statusPorts w1c) (view s) := by
  have hlower : (p.lower System.onPort).exec d s = p.exec (fun o s => d (.port o) s) s :=
    Prog.exec_lower (fun _ _ => rfl) p s
  rw [hlower]
  exact hd.ports.exec p s

/-- Everything else leaves it. -/
theorem KeepsConfig.exec_spares (hd : KeepsConfig d view w1c) {p : Prog System α}
    (hp : p.AsksOnly SystemOp.SparesConfig) (s : σ) : view (p.exec d s).2 = view s := by
  refine hp.keeps (I := fun t => view t = view s) (fun o t ho ht => ?_) rfl
  cases o with
  | boot | console =>
      rw [← ht]
      exact hd.others _ t fun p => by simp
  | port o =>
      cases o with
      | print fmt va =>
          rw [← ht]
          exact congrArg Prod.snd (hd.ports (.print fmt va) t)
      | _ => exact ho.elim

end Machine

/-! ## 2. The search -/

section Search

variable {α : Type} {p : Prog Ports α} (hp : p.AsksOnly PortOp.Searches) (w1c : BitVec 16)

include hp

/-- **A search** meets no status register. -/
theorem exec_search (s : PciState) : p.exec (statusPorts w1c) s = p.exec pciPorts s := by
  refine hp.exec_congr (fun o s ho => ?_) s
  cases o with
  | inl | print => rfl
  | outl port val =>
      have hport : port = 0xCF8 := ho
      have hother : ¬ (port = 0xCFC ∧ s.address.getLsbD 31 = true ∧
          selectedRegister s.address = 0x04) := by
        rw [hport]
        exact fun h => absurd h.1 (by decide)
      exact if_neg hother

/-- And it leaves the space as it is. -/
theorem search_config (s : PciState) : (p.exec pciPorts s).2.config = s.config := by
  refine hp.keeps (I := fun t : PciState => t.config = s.config) (fun o t ho ht => ?_) rfl
  cases o with
  | inl | print => exact ht
  | outl port val =>
      cases ho
      exact ht

end Search

/-! ## 3. The program -/

/-- **What is chosen of the search's results**: the last, or what the variable held. -/
theorem chosen_location {config : ConfigSpace} {fuel : Nat} {r : List PciFunction}
    (hr : chase Reaches (audioFunctions config) fuel (audioFunctions config).head? = some r)
    {held : AudioDeviceResult} (hdevice : held.m_device.toNat < 32)
    (hfunc : held.m_func.toNat < 8) :
    let chosen := (r.map (foundAt config)).getLast?.getD held
    chosen.m_device.toNat < 32 ∧ chosen.m_func.toNat < 8 ∧
      if audioFunctions config = [] then chosen.location = held.location
      else chosen.location ∈ audioFunctions config ∧
        ∀ y ∈ audioFunctions config, ¬ Reaches chosen.location y := by
  obtain ⟨hhead, _, hmem⟩ := chase_spec (fun x hx => List.mem_of_mem_head? hx) hr
  intro chosen
  cases hlast : r.getLast? with
  | none =>
      have hnil : r = [] := List.getLast?_eq_none_iff.mp hlast
      have hchosen : chosen = held := by
        show (r.map (foundAt config)).getLast?.getD held = held
        rw [hnil]
        rfl
      rw [hnil] at hhead
      rw [hchosen, if_pos (List.head?_eq_none_iff.mp hhead.symm)]
      exact ⟨hdevice, hfunc, rfl⟩
  | some x =>
      have hx : x ∈ audioFunctions config := hmem x (List.mem_of_getLast? hlast)
      have hscan : InScan x := (mem_audioFunctions.mp hx).1
      have hchosen : chosen = foundAt config x := by
        show (r.map (foundAt config)).getLast?.getD held = _
        rw [List.getLast?_map, hlast]
        rfl
      have hloc : (foundAt config x).location = x := location_foundAt hscan
      have hnone := List.find?_eq_none.mp (chase_last hr x hlast)
      rw [hchosen, if_neg (List.ne_nil_of_mem hx), hloc]
      refine ⟨?_, ?_, hx, fun y hy hreach => hnone y hy (decide_eq_true hreach)⟩
      · exact (congrArg PciFunction.device hloc).trans_lt hscan.2.1
      · exact (congrArg PciFunction.func hloc).trans_lt hscan.2.2

/-- What follows the command register asks no port but to print. -/
theorem afterCommand_spares (boot : BootInput) (address : BitVec 32) :
    (do
      let _ ← System.onPort (.print "Using codec address %x\n\r" [.u32 address])
      let codec ← (constructHDACodec boot.input boot.output).lower System.onBoot
      (runAudio boot.polls boot.lines codec).run.lower System.onConsole
        : Prog System (Except Fault Unit)).AsksOnly SystemOp.SparesConfig := by
  have hboot : ∀ o, (System.onBoot o).AsksOnly SystemOp.SparesConfig :=
    fun _ => Prog.asksOnly_once trivial
  have hconsole : ∀ o, (System.onConsole o).AsksOnly SystemOp.SparesConfig :=
    fun o => Prog.asksOnly_lower (fun _ => Prog.asksOnly_once trivial) o.onRegisters
  exact Prog.avoids_bind (Prog.asksOnly_once trivial) fun _ =>
    Prog.avoids_bind (Prog.asksOnly_lower hboot _) fun _ => Prog.asksOnly_lower hconsole _

/-- **The configuration space after the program**: whatever the other hardware and the firmware
    answer and whatever is typed, one register of one function has changed. The function is an HD
    audio device behind which no further one is reached, or, where there is none, what the variable
    held; its command register holds 0x0406, and of its status the bits that clear when written. -/
theorem efiInitAudio_config {σ : Type} {d : Prog.Device System σ} {view : σ → PciState}
    {w1c : BitVec 16} (hd : KeepsConfig d view w1c) {boot : BootInput} (hpolls : 8 ≤ boot.polls)
    (hdevice : boot.audioDevice.m_device.toNat < 32) (hfunc : boot.audioDevice.m_func.toNat < 8)
    (s : σ) :
    let config := (view s).config
    ∃ x, (if audioFunctions config = [] then x = boot.audioDevice.location
        else x ∈ audioFunctions config ∧ ∀ y ∈ audioFunctions config, ¬ Reaches x y) ∧
      (view ((efiInitAudio boot).exec d s).2).config = fun g register =>
        if g = x ∧ register = 0x04 then
          dword (statusReg (config x 0x04) &&& ~~~(statusReg (config x 0x04) &&& w1c)) 0x0406
        else config g register := by
  intro config
  obtain ⟨extra, hextra⟩ := Nat.exists_eq_add_of_le hpolls
  obtain ⟨r, hr, hfound⟩ := exec_enumerateHDAudio (s := view s) extra (rfl : _ = config)
  have hsearches := enumerateHDAudio_searches boot.polls
  have hsearch := hd.exec_ports (enumerateHDAudio boot.polls) s
  rw [exec_search hsearches] at hsearch
  have hconfig := search_config hsearches (view s)
  rw [← hextra] at hfound
  unfold efiInitAudio
  rw [Prog.exec_bind]
  generalize ((enumerateHDAudio boot.polls).lower System.onPort).exec d s = run at hsearch ⊢
  obtain ⟨found, s₁⟩ := run
  have hfirst : found = some (r.map (foundAt config)) := (congrArg Prod.fst hsearch).trans hfound
  have hs₁ : (view s₁).config = config :=
    (congrArg (fun t => t.2.config) hsearch).trans hconfig
  subst hfirst
  obtain ⟨hdev, hfun, hchosen⟩ := chosen_location hr hdevice hfunc
  refine ⟨_, hchosen, ?_⟩
  dsimp only
  generalize (r.map (foundAt config)).getLast?.getD boot.audioDevice = chosen at hdev hfun ⊢
  rw [Prog.exec_bind, hd.exec_spares (afterCommand_spares boot chosen.m_address)]
  have hcommand := hd.exec_ports
    (setPCICommandReg chosen.m_bus chosen.m_device chosen.m_func 0x0406) s₁
  have hset := @exec_setPCICommandReg chosen.m_bus _ _ hdev hfun w1c 0x0406 (view s₁)
  rw [← hcommand, hs₁] at hset
  exact hset

/-- Registers of a controller that is out of its reset at once; nothing else answers. -/
def outOfReset : (o : ConsoleOp) → o.Ans
  | .register (.read32 a) => if a = 0x08 then 1 else 0
  | o => Console.silent o

/-- A machine that counts what it is asked besides the ports; the firmware grants no page. -/
def countingMachine (w1c : BitVec 16) : Prog.Device System (PciState × Nat) := fun o s =>
  match o with
  | .port o => ((statusPorts w1c o s.1).1, (statusPorts w1c o s.1).2, s.2)
  | .boot (.allocatePages ..) => (none, s.1, s.2 + 1)
  | .boot (.store16 ..) => ((), s.1, s.2 + 1)
  | .boot (.mmio o) => (outOfReset (.register o), s.1, s.2 + 1)
  | .console o => (outOfReset o, s.1, s.2 + 1)

theorem countingMachine_keeps (w1c : BitVec 16) :
    KeepsConfig (countingMachine w1c) Prod.fst w1c where
  ports _ _ := rfl
  others o s ho := by
    cases o with
    | port o => exact absurd rfl (ho o)
    | boot o => cases o <;> rfl
    | console => rfl

/-- One controller, with a status bit set that a write clears; the line is typed after its reset. -/
theorem efiInitAudio_config_one :
    let controller : ConfigSpace := fun x register =>
      if x = ⟨0, 27, 0⟩ then
        (if register = 0 then 0x293E8086 else if register = 4 then 0x20100000
          else if register = 8 then 0x04030000 else 0)
      else 0xFFFFFFFF
    let boot : BootInput := ⟨8, {}, 0, 0, [bytes "help"]⟩
    let s : PciState × Nat := (⟨0, controller⟩, 0)
    let config := s.1.config
    ∃ x, (if audioFunctions config = [] then x = boot.audioDevice.location
        else x ∈ audioFunctions config ∧ ∀ y ∈ audioFunctions config, ¬ Reaches x y) ∧
      ((efiInitAudio boot).exec (countingMachine 0xF900) s).2.1.config = fun g register =>
        if g = x ∧ register = 0x04 then
          dword (statusReg (config x 0x04) &&& ~~~(statusReg (config x 0x04) &&& 0xF900)) 0x0406
        else config g register := by
  intro controller boot s
  exact efiInitAudio_config (countingMachine_keeps 0xF900) (by decide) (by decide) (by decide) s

end TinyOS64
