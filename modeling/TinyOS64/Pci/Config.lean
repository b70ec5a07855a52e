/-
  File:      TinyOS64/Pci/Config.lean
  Subject:   Access to the PCI configuration space through the ports 0xCF8 and 0xCFC (pci.cpp).

  The address of a register is latched by a write to 0xCF8; 0xCFC then reads or writes the
  register. `exec_pciConfigReadWord` says that this reads the register asked for.
-/
import TinyOS64.Lib.Interaction
import TinyOS64.Lib.WordFields
import TinyOS64.Print.Format
import Mathlib.Algebra.Ring.Nat

namespace TinyOS64

open Interaction WordFields

/-! ## 1. Ports -/

/-- The questions of a program that drives I/O ports. -/
inductive PortOp where
  | inl (port : BitVec 16)
  | outl (port : BitVec 16) (val : BitVec 32)
  | print (fmt : String) (va : List Arg)

@[reducible] def PortOp.Ans : PortOp → Type
  | inl _ => BitVec 32
  | outl .. => Unit
  | print .. => Nat

/-- The signature of port programs. -/
@[reducible] def Ports : Sig := ⟨PortOp, PortOp.Ans⟩

namespace Ports

def inl (port : BitVec 16) : Prog Ports (BitVec 32) := .ask (S := Ports) (.inl port) .ret
def outl (port : BitVec 16) (val : BitVec 32) : Prog Ports Unit :=
  .ask (S := Ports) (.outl port val) .ret
def print (fmt : String) (va : List Arg) : Prog Ports Nat :=
  .ask (S := Ports) (.print fmt va) .ret

end Ports

/-- The configuration address of a register. -/
def configAddress (bus slot func offset : BitVec 8) : BitVec 32 :=
  (bus.setWidth 32 <<< 16) ||| (slot.setWidth 32 <<< 11) ||| (func.setWidth 32 <<< 8) |||
    (offset &&& 0xFC).setWidth 32 ||| 0x80000000

def pciConfigReadWord (bus slot func offset : BitVec 8) : Prog Ports (BitVec 32) := do
  Ports.outl 0xCF8 (configAddress bus slot func offset)
  Ports.inl 0xCFC

def pciConfigWriteWord (bus slot func offset : BitVec 8) (value : BitVec 32) :
    Prog Ports Unit := do
  Ports.outl 0xCF8 (configAddress bus slot func offset)
  Ports.outl 0xCFC value

def setPCICommandReg (bus device func : BitVec 8) (value : BitVec 16) : Prog Ports Unit := do
  let reg ← pciConfigReadWord bus device func 0x04
  let reg := (reg &&& 0xFFFF0000) ||| value.setWidth 32
  pciConfigWriteWord bus device func 0x04 reg
  let reg ← pciConfigReadWord bus device func 0x04
  let _ ← Ports.print "PCI command reg readback: %x\n\r" [.u32 reg]

/-! ## 2. The configuration space behind the ports -/

/-- A function of a device on a bus. -/
structure PciFunction where
  bus : Nat
  device : Nat
  func : Nat
  deriving DecidableEq, Repr

/-- The registers of every function, by dword offset. -/
abbrev ConfigSpace := PciFunction → Nat → BitVec 32

/-- The address latch and the configuration space. -/
structure PciState where
  address : BitVec 32
  config : ConfigSpace

/-- The function an address selects. -/
def selected (address : BitVec 32) : PciFunction where
  bus := ((address >>> 16) &&& 0xFF).toNat
  device := ((address >>> 11) &&& 0x1F).toNat
  func := ((address >>> 8) &&& 0x07).toNat

/-- The register an address selects. -/
def selectedRegister (address : BitVec 32) : Nat := (address.setWidth 8 &&& 0xFC).toNat

/-- The two ports; bit 31 of the address enables the access. -/
def pciPorts : Prog.Device Ports PciState := fun o s =>
  match o with
  | .inl port =>
    (if port = 0xCF8 then s.address
      else if port = 0xCFC ∧ s.address.getLsbD 31 then
        s.config (selected s.address) (selectedRegister s.address)
      else 0xFFFFFFFF, s)
  | .outl port val =>
    ((), if port = 0xCF8 then { s with address := val }
      else if port = 0xCFC ∧ s.address.getLsbD 31 then
        { s with config := fun f r =>
            if f = selected s.address ∧ r = selectedRegister s.address then val
            else s.config f r }
      else s)
  | .print fmt va =>
    (((TinyOS64.print (fun _ => 0) (bytes fmt ++ [0#8]) va).map Prod.snd).getD 0, s)

/-- An enabled write through the data port. -/
theorem pciPorts_write (val : BitVec 32) {s : PciState} (henable : s.address.getLsbD 31 = true) :
    pciPorts (.outl 0xCFC val) s = ((), { s with
      config := fun f r =>
        if f = selected s.address ∧ r = selectedRegister s.address then val
        else s.config f r }) := by
  have hport : ¬ (0xCFC : BitVec 16) = 0xCF8 := by decide
  unfold pciPorts
  simp only [if_neg hport, true_and, if_pos henable]

theorem toNat_and_fc (offset : BitVec 8) : (offset &&& 0xFC).toNat = offset.toNat / 4 * 4 :=
  toNat_and_high (k := 2) offset rfl

section Address

variable {bus slot func : BitVec 8} (hslot : slot.toNat < 32) (hfunc : func.toNat < 8)

include hslot hfunc

theorem configAddress_toNat (offset : BitVec 8) : (configAddress bus slot func offset).toNat =
    2 ^ 31 + (bus.toNat * 2 ^ 16 + (slot.toNat * 2 ^ 11 + (func.toNat * 2 ^ 8 +
      offset.toNat / 4 * 4))) := by
  have hb := bus.isLt
  have ho := offset.isLt
  have hreg : ((offset &&& 0xFC).setWidth 32).toNat = offset.toNat / 4 * 4 := by
    rw [BitVec.toNat_setWidth, toNat_and_fc]
    omega
  have hset : ∀ x : BitVec 8, (x.setWidth 32).toNat = x.toNat := fun x => by
    rw [BitVec.toNat_setWidth]
    omega
  have hone : (1#32).toNat = 1 := rfl
  have e : configAddress bus slot func offset = (1#32 <<< 31) ||| ((bus.setWidth 32 <<< 16) |||
      ((slot.setWidth 32 <<< 11) ||| ((func.setWidth 32 <<< 8) |||
        (offset &&& 0xFC).setWidth 32))) := by
    rw [configAddress, BitVec.or_comm]
    simp only [BitVec.or_assoc]
    rfl
  -- from the innermost field out: each lies above what is ORed below it
  have h₁ := toNat_field_above (func.setWidth 32) (k := 8) hreg (by omega) (by rw [hset]; omega)
  rw [hset] at h₁
  have h₂ := toNat_field_above (slot.setWidth 32) (k := 11) h₁ (by omega) (by rw [hset]; omega)
  rw [hset] at h₂
  have h₃ := toNat_field_above (bus.setWidth 32) (k := 16) h₂ (by omega) (by rw [hset]; omega)
  rw [hset] at h₃
  have h₄ := toNat_field_above (1#32) (k := 31) h₃ (by omega) (by rw [hone]; omega)
  rw [e, h₄, hone, Nat.one_mul]

/-- **The address selects what it was made from.** -/
theorem selected_configAddress (offset : BitVec 8) :
    selected (configAddress bus slot func offset) = ⟨bus.toNat, slot.toNat, func.toNat⟩ := by
  have hb := bus.isLt
  have ho := offset.isLt
  have h : (configAddress bus slot func offset).toNat = _ := configAddress_toNat hslot hfunc offset
  have hbus := toNat_field (configAddress bus slot func offset) 16 (m := 0xFF) (j := 8) rfl
  have hdev := toNat_field (configAddress bus slot func offset) 11 (m := 0x1F) (j := 5) rfl
  have hfun := toNat_field (configAddress bus slot func offset) 8 (m := 0x07) (j := 3) rfl
  rw [selected, hbus, hdev, hfun, h, PciFunction.mk.injEq]
  refine ⟨?_, ?_, ?_⟩ <;> omega

theorem selectedRegister_configAddress (offset : BitVec 8) :
    selectedRegister (configAddress bus slot func offset) = offset.toNat / 4 * 4 := by
  have ho := offset.isLt
  rw [selectedRegister, toNat_and_fc, BitVec.toNat_setWidth,
    configAddress_toNat hslot hfunc offset]
  omega

theorem configAddress_enable (offset : BitVec 8) :
    (configAddress bus slot func offset).getLsbD 31 = true := by
  have h : (configAddress bus slot func offset).toNat = _ := configAddress_toNat hslot hfunc offset
  have hmsb : (configAddress bus slot func offset).msb = true := by
    rw [BitVec.msb_eq_decide, h]
    simp
  exact hmsb

/-- **A configuration read** gives the register asked for and leaves the configuration space. -/
theorem exec_pciConfigReadWord (offset : BitVec 8) (s : PciState) :
    (pciConfigReadWord bus slot func offset).exec pciPorts s =
      (s.config ⟨bus.toNat, slot.toNat, func.toNat⟩ (offset.toNat / 4 * 4),
        { s with address := configAddress bus slot func offset }) := by
  have henable : (configAddress bus slot func offset).getLsbD 31 = true :=
    configAddress_enable hslot hfunc offset
  have hsel : selected (configAddress bus slot func offset) = _ :=
    selected_configAddress hslot hfunc offset
  have hreg : selectedRegister (configAddress bus slot func offset) = _ :=
    selectedRegister_configAddress hslot hfunc offset
  simp [pciConfigReadWord, Ports.outl, Ports.inl, pciPorts, henable, hsel, hreg]

end Address

end TinyOS64
