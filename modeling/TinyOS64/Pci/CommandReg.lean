/-
  File:      TinyOS64/Pci/CommandReg.lean
  Subject:   setPCICommandReg and the status register above the command register (pci.cpp).

  The command register is the low half of a dword whose high half is the status register; a bit of
  that is cleared by writing a 1 to it. The routine writes back the status bits it has read, and
  so clears the ones that are set (`setPCICommandReg_iff`).
-/
import TinyOS64.Pci.Config

namespace TinyOS64

open Interaction WordFields

/-! ## 1. A configuration space with write-1-to-clear bits -/

/-- The halves of dword 0x04. -/
def commandReg (reg : BitVec 32) : BitVec 16 := reg.setWidth 16

def statusReg (reg : BitVec 32) : BitVec 16 := (reg >>> 16).setWidth 16

/-- A dword of two halves. -/
def dword (high low : BitVec 16) : BitVec 32 := (high.setWidth 32 <<< 16) ||| low.setWidth 32

/-- A write of `val` to dword 0x04 that holds `old`: the command is stored, and the status loses
    the bits of `w1c` that are written as 1. -/
def writeCommandStatus (w1c : BitVec 16) (old val : BitVec 32) : BitVec 32 :=
  dword (statusReg old &&& ~~~(statusReg val &&& w1c)) (commandReg val)

/-- The two ports before a configuration space whose status registers have the write-1-to-clear
    bits `w1c`. -/
def statusPorts (w1c : BitVec 16) : Prog.Device Ports PciState := fun o s =>
  match o with
  | .inl port => pciPorts (.inl port) s
  | .outl port val =>
    if port = 0xCFC ∧ s.address.getLsbD 31 ∧ selectedRegister s.address = 0x04 then
      pciPorts (.outl port
        (writeCommandStatus w1c (s.config (selected s.address) 0x04) val)) s
    else pciPorts (.outl port val) s
  | .print fmt va => pciPorts (.print fmt va) s

/-! ## 2. The halves -/

theorem dword_toNat (high low : BitVec 16) :
    (dword high low).toNat = high.toNat * 2 ^ 16 + low.toNat := by
  have hhigh := high.isLt
  have hlow := low.isLt
  have hset : ∀ x : BitVec 16, (x.setWidth 32).toNat = x.toNat := fun x => by
    rw [BitVec.toNat_setWidth]
    omega
  rw [dword, toNat_field_above _ (hset low) hlow (by rw [hset]; omega), hset]

@[simp] theorem commandReg_dword (high low : BitVec 16) : commandReg (dword high low) = low := by
  have hlow := low.isLt
  refine BitVec.eq_of_toNat_eq ?_
  rw [commandReg, BitVec.toNat_setWidth, dword_toNat]
  omega

@[simp] theorem statusReg_dword (high low : BitVec 16) : statusReg (dword high low) = high := by
  have hhigh := high.isLt
  have hlow := low.isLt
  refine BitVec.eq_of_toNat_eq ?_
  rw [statusReg, BitVec.toNat_setWidth, BitVec.toNat_ushiftRight, Nat.shiftRight_eq_div_pow,
    dword_toNat]
  omega

/-- What the routine writes: the status it has read above the command it is to set. -/
theorem commandWord (reg : BitVec 32) (value : BitVec 16) :
    (reg &&& 0xFFFF0000) ||| value.setWidth 32 = dword (statusReg reg) value := by
  have hreg := reg.isLt
  have hstatus : ((statusReg reg).setWidth 32).toNat = reg.toNat / 2 ^ 16 := by
    rw [statusReg, BitVec.toNat_setWidth, BitVec.toNat_setWidth, BitVec.toNat_ushiftRight,
      Nat.shiftRight_eq_div_pow]
    omega
  have hhigh : reg &&& (0xFFFF0000 : BitVec 32) = (statusReg reg).setWidth 32 <<< 16 := by
    refine BitVec.eq_of_toNat_eq ?_
    rw [toNat_and_high reg (k := 16) (m := 0xFFFF0000) rfl,
      toNat_shiftLeft_of_lt (by rw [hstatus]; omega), hstatus]
  rw [dword, ← hhigh]

/-- Clearing the marked bits that are set changes nothing exactly when none is. -/
theorem clear_eq_iff (x w : BitVec 16) : x &&& ~~~(x &&& w) = x ↔ x &&& w = 0 := by
  have hbit : ∀ i, i < 16 → (x &&& ~~~(x &&& w)).getLsbD i =
      (x.getLsbD i && !(x.getLsbD i && w.getLsbD i)) := fun i hi => by simp [hi]
  refine ⟨fun h => BitVec.eq_of_getLsbD_eq fun i hi => ?_,
    fun h => BitVec.eq_of_getLsbD_eq fun i hi => ?_⟩
  · have hi' := hbit i hi
    rw [h] at hi'
    rw [BitVec.getLsbD_and]
    cases hx : x.getLsbD i <;> cases hw : w.getLsbD i <;> simp_all
  · have hi' := congrArg (BitVec.getLsbD · i) h
    simp only [BitVec.getLsbD_and] at hi'
    rw [hbit i hi, hi']
    simp

/-! ## 3. The routine -/

/-- **What `setPCICommandReg` owes**: the command register of `f` has the value, and nothing else
    has changed, its status register included. -/
structure SetsCommandOnly (f : PciFunction) (value : BitVec 16) (config config' : ConfigSpace) :
    Prop where
  command : commandReg (config' f 0x04) = value
  status : statusReg (config' f 0x04) = statusReg (config f 0x04)
  others : ∀ g register, ¬ (g = f ∧ register = 0x04) → config' g register = config g register

/-- An enabled write to dword 0x04 through the data port. -/
theorem statusPorts_write (w1c : BitVec 16) (val : BitVec 32) {s : PciState}
    (henable : s.address.getLsbD 31 = true) (hreg : selectedRegister s.address = 0x04) :
    statusPorts w1c (.outl 0xCFC val) s = ((), { s with
      config := fun g register =>
        if g = selected s.address ∧ register = 0x04 then
          writeCommandStatus w1c (s.config (selected s.address) 0x04) val
        else s.config g register }) := by
  have hstatus : statusPorts w1c (.outl 0xCFC val) s =
      pciPorts (.outl 0xCFC
        (writeCommandStatus w1c (s.config (selected s.address) 0x04) val)) s :=
    if_pos ⟨rfl, henable, hreg⟩
  have hplain := pciPorts_write
    (writeCommandStatus w1c (s.config (selected s.address) 0x04) val) henable
  rw [hreg] at hplain
  rw [hstatus]
  exact hplain

section Routine

variable {bus device func : BitVec 8} (hdevice : device.toNat < 32) (hfunc : func.toNat < 8)

include hdevice hfunc

theorem exec_statusRead (w1c : BitVec 16) (offset : BitVec 8) (s : PciState) :
    (pciConfigReadWord bus device func offset).exec (statusPorts w1c) s =
      (s.config ⟨bus.toNat, device.toNat, func.toNat⟩ (offset.toNat / 4 * 4),
        { s with address := configAddress bus device func offset }) :=
  exec_pciConfigReadWord hdevice hfunc offset s

theorem exec_statusWrite (w1c : BitVec 16) (val : BitVec 32) (s : PciState) :
    (pciConfigWriteWord bus device func 0x04 val).exec (statusPorts w1c) s =
      ((), { address := configAddress bus device func 0x04
             config := fun g register =>
              if g = ⟨bus.toNat, device.toNat, func.toNat⟩ ∧ register = 0x04 then
                writeCommandStatus w1c
                  (s.config ⟨bus.toNat, device.toNat, func.toNat⟩ 0x04) val
              else s.config g register }) := by
  have henable : (configAddress bus device func 0x04).getLsbD 31 = true :=
    configAddress_enable hdevice hfunc 0x04
  have hsel : selected (configAddress bus device func 0x04) = _ :=
    selected_configAddress hdevice hfunc 0x04
  have hreg : selectedRegister (configAddress bus device func 0x04) = 0x04 :=
    selectedRegister_configAddress hdevice hfunc 0x04
  have hwrite := statusPorts_write w1c val
    (s := { s with address := configAddress bus device func 0x04 }) henable hreg
  rw [hsel] at hwrite
  exact hwrite

/-- **The configuration space after `setPCICommandReg`.** -/
theorem exec_setPCICommandReg (w1c value : BitVec 16) (s : PciState) :
    ((setPCICommandReg bus device func value).exec (statusPorts w1c) s).2.config =
      fun g register =>
        if g = ⟨bus.toNat, device.toNat, func.toNat⟩ ∧ register = 0x04 then
          dword (statusReg (s.config ⟨bus.toNat, device.toNat, func.toNat⟩ 0x04) &&&
            ~~~(statusReg (s.config ⟨bus.toNat, device.toNat, func.toNat⟩ 0x04) &&& w1c)) value
        else s.config g register := by
  have hfour : (0x04 : BitVec 8).toNat / 4 * 4 = 0x04 := rfl
  unfold setPCICommandReg
  rw [Prog.exec_bind, exec_statusRead hdevice hfunc, hfour]
  dsimp only
  rw [Prog.exec_bind, exec_statusWrite hdevice hfunc, commandWord, writeCommandStatus,
    statusReg_dword, commandReg_dword, Prog.exec_bind, exec_statusRead hdevice hfunc]
  rfl

/-- **Only the command register changes exactly when** no write-1-to-clear bit of the function's
    status register is set: for every configuration space, function and value. -/
theorem setPCICommandReg_iff (w1c value : BitVec 16) (s : PciState) :
    SetsCommandOnly ⟨bus.toNat, device.toNat, func.toNat⟩ value s.config
        ((setPCICommandReg bus device func value).exec (statusPorts w1c) s).2.config ↔
      statusReg (s.config ⟨bus.toNat, device.toNat, func.toNat⟩ 0x04) &&& w1c = 0 := by
  rw [exec_setPCICommandReg hdevice hfunc, ← clear_eq_iff]
  refine ⟨fun h => ?_, fun hclear => ⟨?_, ?_, fun g register hne => if_neg hne⟩⟩
  · have hstatus := h.status
    rw [if_pos ⟨rfl, rfl⟩, statusReg_dword] at hstatus
    exact hstatus
  · rw [if_pos ⟨rfl, rfl⟩, commandReg_dword]
  · rw [if_pos ⟨rfl, rfl⟩, statusReg_dword, hclear]

end Routine

/-- The capabilities bit is read-only, and stays. -/
theorem setPCICommandReg_iff_capabilities :
    SetsCommandOnly ⟨0, 27, 0⟩ 0x0406 (fun _ _ => 0x00100000)
      ((setPCICommandReg 0 27 0 0x0406).exec (statusPorts 0xF900)
        ⟨0, fun _ _ => 0x00100000⟩).2.config :=
  (@setPCICommandReg_iff 0 27 0 (by decide) (by decide) 0xF900 0x0406
    ⟨0, fun _ _ => 0x00100000⟩).mpr (by decide)

/-- A received master abort, bit 13 of the status register, is cleared. -/
theorem setPCICommandReg_clears :
    ¬ SetsCommandOnly ⟨0, 27, 0⟩ 0x0406 (fun _ _ => 0x20000000)
      ((setPCICommandReg 0 27 0 0x0406).exec (statusPorts 0xF900)
        ⟨0, fun _ _ => 0x20000000⟩).2.config := by
  intro h
  have hstatus := h.status
  have hexec := @exec_setPCICommandReg 0 27 0 (by decide) (by decide) 0xF900 0x0406
    ⟨0, fun _ _ => 0x20000000⟩
  rw [hexec] at hstatus
  exact absurd hstatus (by decide)

end TinyOS64
