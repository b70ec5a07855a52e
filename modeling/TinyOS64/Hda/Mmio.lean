/-
  File:      TinyOS64/Hda/Mmio.lean
  Subject:   Register accesses of the driver, and the window that is plain memory.

  A register program reads and writes the codec's window (read8 .. write32 of hdacodec.cpp, by
  offset from `m_base`), stores to CPU memory through a pointer, and prints. `plainWindow` is the
  device whose window is plain bytes: what is written is read back, nothing happens by itself.
-/
import TinyOS64.Lib.ByteMemory
import TinyOS64.Lib.Interaction
import TinyOS64.Print.Format

namespace TinyOS64

open Interaction ByteMemory

/-- The questions of a register program. -/
inductive MmioOp where
  | read8 (offset : Nat)
  | read16 (offset : Nat)
  | read32 (offset : Nat)
  | write8 (offset : Nat) (v : BitVec 8)
  | write16 (offset : Nat) (v : BitVec 16)
  | write32 (offset : Nat) (v : BitVec 32)
  /-- A store through a pointer to CPU memory. -/
  | store32 (address : BitVec 64) (v : BitVec 32)
  | print (fmt : String) (va : List Arg)

/-- Their answers; `print` answers the number of characters it put. -/
@[reducible] def MmioOp.Ans : MmioOp → Type
  | read8 _ => BitVec 8
  | read16 _ => BitVec 16
  | read32 _ => BitVec 32
  | write8 .. | write16 .. | write32 .. | store32 .. => Unit
  | print .. => Nat

/-- The signature of register programs. -/
@[reducible] def Mmio : Sig := ⟨MmioOp, MmioOp.Ans⟩

namespace Mmio

def read8 (offset : Nat) : Prog Mmio (BitVec 8) := .ask (S := Mmio) (.read8 offset) .ret
def read16 (offset : Nat) : Prog Mmio (BitVec 16) := .ask (S := Mmio) (.read16 offset) .ret
def read32 (offset : Nat) : Prog Mmio (BitVec 32) := .ask (S := Mmio) (.read32 offset) .ret
def write8 (offset : Nat) (v : BitVec 8) : Prog Mmio Unit :=
  .ask (S := Mmio) (.write8 offset v) .ret
def write16 (offset : Nat) (v : BitVec 16) : Prog Mmio Unit :=
  .ask (S := Mmio) (.write16 offset v) .ret
def write32 (offset : Nat) (v : BitVec 32) : Prog Mmio Unit :=
  .ask (S := Mmio) (.write32 offset v) .ret
def store32 (address : BitVec 64) (v : BitVec 32) : Prog Mmio Unit :=
  .ask (S := Mmio) (.store32 address v) .ret
def print (fmt : String) (va : List Arg) : Prog Mmio Nat :=
  .ask (S := Mmio) (.print fmt va) .ret

end Mmio

/-- A question that touches a register of the device. -/
def MmioOp.IsRegister : MmioOp → Prop
  | read8 _ | read16 _ | read32 _ | write8 .. | write16 .. | write32 .. => True
  | store32 .. | print .. => False

/-! ## The plain window -/

/-- The codec's register window and the CPU's memory. -/
structure PlainState where
  window : Memory
  ram : Memory

/-- **The plain window**: registers are bytes of memory. -/
def plainWindow : Prog.Device Mmio PlainState := fun o s =>
  match o with
  | .read8 a => (BitVec.ofNat 8 (peek s.window a 1), s)
  | .read16 a => (BitVec.ofNat 16 (peek s.window a 2), s)
  | .read32 a => (BitVec.ofNat 32 (peek s.window a 4), s)
  | .write8 a v => ((), { s with window := poke s.window a 1 v.toNat })
  | .write16 a v => ((), { s with window := poke s.window a 2 v.toNat })
  | .write32 a v => ((), { s with window := poke s.window a 4 v.toNat })
  | .store32 a v => ((), { s with ram := poke s.ram a.toNat 4 v.toNat })
  | .print fmt va => (printCount fmt va, s)

section PlainWindow

variable {s : PlainState}

@[simp] theorem exec_write8 (a : Nat) (v : BitVec 8) : (Mmio.write8 a v).exec plainWindow s =
    ((), { s with window := poke s.window a 1 v.toNat }) := rfl

@[simp] theorem exec_write16 (a : Nat) (v : BitVec 16) : (Mmio.write16 a v).exec plainWindow s =
    ((), { s with window := poke s.window a 2 v.toNat }) := rfl

@[simp] theorem exec_write32 (a : Nat) (v : BitVec 32) : (Mmio.write32 a v).exec plainWindow s =
    ((), { s with window := poke s.window a 4 v.toNat }) := rfl

@[simp] theorem exec_store32 (a : BitVec 64) (v : BitVec 32) :
    (Mmio.store32 a v).exec plainWindow s =
      ((), { s with ram := poke s.ram a.toNat 4 v.toNat }) := rfl

@[simp] theorem exec_print (fmt : String) (va : List Arg) :
    (Mmio.print fmt va).exec plainWindow s = (printCount fmt va, s) := rfl

/-- The question stores to the window's byte `a`. -/
def MmioOp.Writes (a : Nat) : MmioOp → Prop
  | write8 offset _ => offset ≤ a ∧ a < offset + 1
  | write16 offset _ => offset ≤ a ∧ a < offset + 2
  | write32 offset _ => offset ≤ a ∧ a < offset + 4
  | _ => False

theorem plainWindow_frame {a : Nat} {o : MmioOp} (h : ¬ o.Writes a) :
    (plainWindow o s).2.window a = s.window a := by
  cases o with
  | write8 offset v => exact if_neg h
  | write16 offset v => exact if_neg h
  | write32 offset v => exact if_neg h
  | read8 | read16 | read32 | store32 | print => rfl

/-- **Frame**: a byte no question stores to keeps its value. -/
theorem exec_frame {α : Type} {a : Nat} {p : Prog Mmio α}
    (h : p.Avoids (MmioOp.Writes a)) : (p.exec plainWindow s).2.window a = s.window a := by
  induction p generalizing s with
  | ret x => rfl
  | ask o k ih => exact (ih _ (h.2 _)).trans (plainWindow_frame h.1)

end PlainWindow

end TinyOS64
