/-
  File:      TinyOS64/Hda/Independence.lean
  Subject:   Which named registers a write to another one leaves alone.

  The rows of `regs` give each register bytes of its own, with one exception in either group of
  stream registers: the three bytes of a control register are four in the table, and the fourth is
  the status register's (`regs_disjoint`, `regs_shared`).
-/
import TinyOS64.Hda.Registers

namespace TinyOS64

open Interaction ByteMemory

/-! ## 1. The table -/

/-- A control register and its status register, in either order. -/
def SharesByte (A B : RegDef) : Prop :=
  (A.name, B.name) ∈ [("sdnctl", "sdnsts"), ("sdnsts", "sdnctl"), ("osdnctl", "osdnsts"),
    ("osdnsts", "osdnctl")]

instance (A B : RegDef) : Decidable (SharesByte A B) := inferInstanceAs (Decidable (_ ∈ _))

/-- The byte of both: the status register. -/
def sharedByte (A B : RegDef) : Nat := max A.offset B.offset

/-- Two rows have no byte in common, or are one row, or share a byte. -/
theorem regs_bytes : ∀ A ∈ regs, ∀ B ∈ regs,
    Disjoint A.offset A.width B.offset B.width ∨ A = B ∨ SharesByte A B := by decide +kernel

/-- **All other pairs of rows have no byte in common.** -/
theorem regs_disjoint {A B : RegDef} (hA : A ∈ regs) (hB : B ∈ regs) (hne : A ≠ B)
    (hs : ¬ SharesByte A B) : Disjoint A.offset A.width B.offset B.width := by
  rcases regs_bytes A hA B hB with hd | he | hshared
  · exact hd
  · exact absurd he hne
  · exact absurd hshared hs

theorem SharesByte.name {A B : RegDef} (h : SharesByte A B) :
    A.name ∈ ["sdnctl", "sdnsts", "osdnctl", "osdnsts"] := by
  have hA : A.name ∈ [("sdnctl", "sdnsts"), ("sdnsts", "sdnctl"), ("osdnctl", "osdnsts"),
      ("osdnsts", "osdnctl")].map Prod.fst := List.mem_map_of_mem (f := Prod.fst) h
  exact hA

/-- **A control register shares one byte with its status register.** -/
theorem regs_shared : ∀ A ∈ regs, A.name ∈ ["sdnctl", "sdnsts", "osdnctl", "osdnsts"] →
    ∀ B ∈ regs, SharesByte A B →
      sharedByte A B < A.offset + A.width ∧ sharedByte A B < B.offset + B.width ∧
        min (A.offset + A.width) (B.offset + B.width) = sharedByte A B + 1 := by decide +kernel

/-- **What two registers owe each other**: a write to `A` leaves what is read from `B`, and does
    the same before a write to `B` and after it. -/
structure IndependentAt (A B : RegDef) (s : PlainState) (v w : BitVec 64) : Prop where
  unchanged : ((readReg (bytes B.name)).exec plainWindow
    ((writeReg (bytes A.name) v).exec plainWindow s).2).1 =
      ((readReg (bytes B.name)).exec plainWindow s).1
  commute : ((writeReg (bytes A.name) v >>= fun _ => writeReg (bytes B.name) w).exec
      plainWindow s).2 =
    ((writeReg (bytes B.name) w >>= fun _ => writeReg (bytes A.name) v).exec plainWindow s).2

/-! ## 2. Two writes -/

section Pair

variable {A B : RegDef} (hA : A ∈ regs) (hB : B ∈ regs) (hne : A ≠ B)

include hA hB hne

/-- What is asked of all bytes two registers share is asked of one byte at most. -/
theorem forall_shared_iff (P : Nat → Prop) :
    (∀ b, A.offset ≤ b → b < A.offset + A.width → B.offset ≤ b → b < B.offset + B.width → P b) ↔
      (SharesByte A B → P (sharedByte A B)) := by
  refine ⟨fun h hs => ?_, fun h b h₁ h₂ h₃ h₄ => ?_⟩
  · obtain ⟨hinA, hinB, _⟩ := regs_shared A hA hs.name B hB hs
    exact h _ (Nat.le_max_left _ _) hinA (Nat.le_max_right _ _) hinB
  · by_cases hs : SharesByte A B
    · obtain ⟨_, _, hone⟩ := regs_shared A hA hs.name B hB hs
      have hb : b = sharedByte A B := by
        have hle : sharedByte A B ≤ b := Nat.max_le.mpr ⟨h₁, h₃⟩
        omega
      rw [hb]
      exact h hs
    · rcases regs_disjoint hA hB hne hs with hd | hd
      · omega
      · omega

omit hA hne in
/-- Two windows read the same by name exactly when the register's bytes give one number. -/
theorem readReg_eq_iff (s s' : PlainState) :
    ((readReg (bytes B.name)).exec plainWindow s).1 =
        ((readReg (bytes B.name)).exec plainWindow s').1 ↔
      peek s.window B.offset B.width = peek s'.window B.offset B.width := by
  have hsmall : ∀ m : Memory, peek m B.offset B.width < 2 ^ 64 := by
    intro m
    have hlt := peek_lt m B.offset B.width
    rcases regs_width B hB with hw | hw | hw <;> rw [hw] at hlt ⊢ <;> omega
  rw [exec_readReg (getReg_name hB), exec_readReg (getReg_name hB)]
  refine ⟨fun h => ?_, fun h => by rw [h]⟩
  have hnat := congrArg BitVec.toNat h
  rw [BitVec.toNat_ofNat, BitVec.toNat_ofNat, Nat.mod_eq_of_lt (hsmall _),
    Nat.mod_eq_of_lt (hsmall _)] at hnat
  exact hnat

variable (s : PlainState) (v w : BitVec 64)

/-- A write shows in another register through the shared byte only. -/
theorem writeReg_unchanged_iff :
    ((readReg (bytes B.name)).exec plainWindow
        ((writeReg (bytes A.name) v).exec plainWindow s).2).1 =
        ((readReg (bytes B.name)).exec plainWindow s).1 ↔
      (SharesByte A B →
        byteOf v.toNat (sharedByte A B - A.offset) = s.window (sharedByte A B)) := by
  rw [readReg_eq_iff hB, exec_writeReg (getReg_name hA), peek_poke_eq_iff,
    forall_shared_iff hA hB hne fun b => byteOf v.toNat (b - A.offset) = s.window b]

/-- Two writes can be told apart in the shared byte only. -/
theorem writeReg_commute_iff :
    ((writeReg (bytes A.name) v >>= fun _ => writeReg (bytes B.name) w).exec plainWindow s).2 =
        ((writeReg (bytes B.name) w >>= fun _ => writeReg (bytes A.name) v).exec plainWindow s).2 ↔
      (SharesByte A B → byteOf v.toNat (sharedByte A B - A.offset) =
        byteOf w.toNat (sharedByte A B - B.offset)) := by
  rw [← forall_shared_iff hA hB hne fun b =>
      byteOf v.toNat (b - A.offset) = byteOf w.toNat (b - B.offset), ← poke_comm_iff s.window]
  simp only [Prog.exec_bind, exec_writeReg (getReg_name hA), exec_writeReg (getReg_name hB),
    PlainState.mk.injEq, and_true]

/-- **Writes to two named registers are independent exactly when** the registers are not a control
    register and its status register, or the byte these share gets what it holds and what the
    other write puts there. -/
theorem writeReg_independent_iff : IndependentAt A B s v w ↔
    (SharesByte A B →
      byteOf v.toNat (sharedByte A B - A.offset) = s.window (sharedByte A B) ∧
        byteOf v.toNat (sharedByte A B - A.offset) =
          byteOf w.toNat (sharedByte A B - B.offset)) := by
  have hframe := writeReg_unchanged_iff hA hB hne s v
  have hcomm := writeReg_commute_iff hA hB hne s v w
  exact ⟨fun h hs => ⟨hframe.mp h.unchanged hs, hcomm.mp h.commute hs⟩,
    fun h => ⟨hframe.mpr fun hs => (h hs).1, hcomm.mpr fun hs => (h hs).2⟩⟩

end Pair

theorem writeReg_independent_iff_run : IndependentAt ⟨0x80, 4, "sdnctl"⟩ ⟨0x83, 1, "sdnsts"⟩
    ⟨fun _ => 0, fun _ => 0⟩ 0x00140002 0 :=
  (writeReg_independent_iff (by decide) (by decide) (by decide) _ _ _).mpr (by decide)

/-- Bit 26 written to `sdnctl` is read from `sdnsts`. -/
theorem writeReg_reaches_status : ¬ IndependentAt ⟨0x80, 4, "sdnctl"⟩ ⟨0x83, 1, "sdnsts"⟩
    ⟨fun _ => 0, fun _ => 0⟩ 0x04000000 0 := by
  intro h
  have hbyte := (writeReg_unchanged_iff (by decide) (by decide) (by decide) _ _).mp h.unchanged
    (by decide)
  exact absurd hbyte (by decide)

end TinyOS64
