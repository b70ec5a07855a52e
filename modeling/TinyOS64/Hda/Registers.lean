/-
  File:      TinyOS64/Hda/Registers.lean
  Subject:   The register table of HDACodec, its lookup by name, and access by name.

  `getReg` compares through the overload `strncmp(string_view, const char*)`, which stops at the
  end of the FIRST string: it accepts every prefix of a register name. `lookup_exact_iff` says for
  which names the lookup is nevertheless exact.
-/
import TinyOS64.Hda.Mmio

namespace TinyOS64

open Interaction ByteMemory

/-- `RegDef`: offset, width in bytes, name. -/
structure RegDef where
  offset : Nat
  width : Nat
  name : String
  deriving DecidableEq, Repr

/-- `HDACodec::regs`. -/
def regs : List RegDef :=
  [⟨0x00, 2, "gcap"⟩, ⟨0x02, 1, "vmin"⟩, ⟨0x03, 1, "vmax"⟩, ⟨0x04, 2, "outpay"⟩,
   ⟨0x08, 4, "gctl"⟩, ⟨0x0C, 2, "wakeen"⟩, ⟨0x0E, 2, "statests"⟩, ⟨0x10, 2, "gsts"⟩,
   ⟨0x18, 2, "outstrmpay"⟩, ⟨0x1A, 2, "instrmpay"⟩, ⟨0x20, 4, "intctl"⟩, ⟨0x24, 4, "intsts"⟩,
   ⟨0x30, 4, "wallclock"⟩, ⟨0x38, 4, "ssync"⟩, ⟨0x40, 4, "corblbase"⟩, ⟨0x44, 4, "corbubase"⟩,
   ⟨0x48, 2, "corbwp"⟩, ⟨0x4A, 2, "corbrp"⟩, ⟨0x4C, 1, "corbctl"⟩, ⟨0x4D, 1, "corbsts"⟩,
   ⟨0x4E, 1, "corbsize"⟩, ⟨0x50, 4, "rirblbase"⟩, ⟨0x54, 4, "rirbubase"⟩, ⟨0x58, 2, "rirbwp"⟩,
   ⟨0x5A, 2, "rintcnt"⟩, ⟨0x5C, 1, "rirbctl"⟩, ⟨0x5D, 1, "rirbsts"⟩, ⟨0x5E, 1, "rirbsize"⟩,
   ⟨0x70, 4, "dplbase"⟩, ⟨0x74, 4, "dpubase"⟩, ⟨0x80, 4, "sdnctl"⟩, ⟨0x83, 1, "sdnsts"⟩,
   ⟨0x84, 4, "sdnlpib"⟩, ⟨0x88, 4, "sdncbl"⟩, ⟨0x8C, 4, "sdnlvi"⟩, ⟨0x90, 2, "sdnfifos"⟩,
   ⟨0x92, 2, "sdnfmt"⟩, ⟨0x98, 4, "sdnbdpl"⟩, ⟨0x9C, 2, "sdnbdpu"⟩, ⟨0x60, 4, "icw"⟩,
   ⟨0x64, 4, "irr"⟩, ⟨0x68, 2, "ics"⟩, ⟨0x80 + 0x80, 4, "osdnctl"⟩, ⟨0x83 + 0x80, 1, "osdnsts"⟩,
   ⟨0x84 + 0x80, 4, "osdnlpib"⟩, ⟨0x88 + 0x80, 4, "osdncbl"⟩, ⟨0x8C + 0x80, 4, "osdnlvi"⟩,
   ⟨0x90 + 0x80, 2, "osdnfifos"⟩, ⟨0x92 + 0x80, 2, "osdnfmt"⟩, ⟨0x98 + 0x80, 4, "osdnbdpl"⟩,
   ⟨0x9C + 0x80, 2, "osdnbdpu"⟩]

/-! ## 1. The lookup -/

/-- `strncmp(const std::string_view &s1, const char *s2)`: true when no character of `s1` differs
    from the one of `s2` at its place. Past its last character `s2` holds its terminator. -/
def strncmp : List Byte → List Byte → Bool
  | [], _ => true
  | c :: s1, s2 => if c ≠ s2.headD 0 then false else strncmp s1 s2.tail

/-- `getReg`: the first entry of the table that compares equal. -/
def getReg (regname : List Byte) : Option RegDef :=
  regs.find? fun reg => strncmp regname (bytes reg.name)

/-- `readReg`; an unknown name is reported and reads as 0. -/
def readReg (regname : List Byte) : Prog Mmio (BitVec 64) :=
  let error := do
    let _ ← Mmio.print "ERROR: readReg cannot find register\n\r" []
    pure 0
  match getReg regname with
  | some reg =>
    match reg.width with
    | 1 => do pure ((← Mmio.read8 reg.offset).setWidth 64)
    | 2 => do pure ((← Mmio.read16 reg.offset).setWidth 64)
    | 4 => do pure ((← Mmio.read32 reg.offset).setWidth 64)
    | _ => error
  | none => error

/-- `writeReg`; the value is cut to the register's width. -/
def writeReg (regname : List Byte) (v : BitVec 64) : Prog Mmio Bool :=
  let error := do
    let _ ← Mmio.print "ERROR: writeReg cannot find register\n\r" []
    pure false
  match getReg regname with
  | some reg =>
    match reg.width with
    | 1 => do Mmio.write8 reg.offset (v.setWidth 8); pure true
    | 2 => do Mmio.write16 reg.offset (v.setWidth 16); pure true
    | 4 => do Mmio.write32 reg.offset (v.setWidth 32); pure true
    | _ => error
  | none => error

/-! ## 2. The table -/

/-- Every entry has one of the three widths the accessors know. -/
theorem regs_width : ∀ r ∈ regs, r.width = 1 ∨ r.width = 2 ∨ r.width = 4 := by decide

/-- No register name is a prefix of another entry's name. -/
theorem regs_prefix_free : ∀ r ∈ regs, ∀ r' ∈ regs,
    bytes r.name <+: bytes r'.name → r = r' := by decide +kernel

/-- No register name holds a 0. -/
theorem regs_terminated : ∀ r ∈ regs, 0#8 ∉ bytes r.name := by decide +kernel

/-! ## 3. Access by a name that is found -/

section Access

variable {regname : List Byte} {r : RegDef}

theorem readReg_two (h : getReg regname = some r) (hw : r.width = 2) :
    readReg regname = (Mmio.read16 r.offset >>= fun x => pure (x.setWidth 64)) := by
  unfold readReg
  rw [h]
  simp only [hw]

theorem readReg_four (h : getReg regname = some r) (hw : r.width = 4) :
    readReg regname = (Mmio.read32 r.offset >>= fun x => pure (x.setWidth 64)) := by
  unfold readReg
  rw [h]
  simp only [hw]

theorem writeReg_two (h : getReg regname = some r) (hw : r.width = 2) (v : BitVec 64) :
    writeReg regname v = (Mmio.write16 r.offset (v.setWidth 16) >>= fun _ => pure true) := by
  unfold writeReg
  rw [h]
  simp only [hw]

theorem writeReg_four (h : getReg regname = some r) (hw : r.width = 4) (v : BitVec 64) :
    writeReg regname v = (Mmio.write32 r.offset (v.setWidth 32) >>= fun _ => pure true) := by
  unfold writeReg
  rw [h]
  simp only [hw]

/-- What is read from a register of `n` bytes, as a 64-bit number. -/
theorem widen_peek (m : Memory) (a n : Nat) :
    (BitVec.ofNat (8 * n) (peek m a n)).setWidth 64 = BitVec.ofNat 64 (peek m a n) := by
  have hlt := peek_lt m a n
  rw [show 256 = 2 ^ 8 from rfl, ← pow_mul] at hlt
  refine BitVec.eq_of_toNat_eq ?_
  rw [BitVec.toNat_setWidth, BitVec.toNat_ofNat, Nat.mod_eq_of_lt hlt, BitVec.toNat_ofNat]

/-- **Read by name on the plain window**: the bytes of the register. -/
theorem exec_readReg (h : getReg regname = some r) (s : PlainState) :
    (readReg regname).exec plainWindow s =
      (BitVec.ofNat 64 (peek s.window r.offset r.width), s) := by
  have hr : r ∈ regs := List.mem_of_find?_eq_some h
  unfold readReg
  rw [h]
  rcases regs_width r hr with hw | hw | hw
  · simp only [hw]
    exact congrArg (·, s) (widen_peek s.window r.offset 1)
  · simp only [hw]
    exact congrArg (·, s) (widen_peek s.window r.offset 2)
  · simp only [hw]
    exact congrArg (·, s) (widen_peek s.window r.offset 4)

/-- **Write by name on the plain window**: the bytes of the register take the value's. -/
theorem exec_writeReg (h : getReg regname = some r) (v : BitVec 64) (s : PlainState) :
    (writeReg regname v).exec plainWindow s =
      (true, { s with window := poke s.window r.offset r.width v.toNat }) := by
  have hr : r ∈ regs := List.mem_of_find?_eq_some h
  have hcut : ∀ n, poke s.window r.offset n (v.setWidth (8 * n)).toNat =
      poke s.window r.offset n v.toNat := by
    intro n
    rw [BitVec.toNat_setWidth, pow_mul]
    exact poke_mod _ _ _ _
  unfold writeReg
  rw [h]
  rcases regs_width r hr with hw | hw | hw
  · simp only [hw, Prog.exec_bind, exec_write8, ← hcut 1]
    rfl
  · simp only [hw, Prog.exec_bind, exec_write16, ← hcut 2]
    rfl
  · simp only [hw, Prog.exec_bind, exec_write32, ← hcut 4]
    rfl

end Access

/-! ## 4. Which names are looked up exactly -/

/-- For a name without 0 the comparison is "is a prefix of". -/
theorem strncmp_iff {s1 s2 : List Byte} (h0 : 0#8 ∉ s1) : strncmp s1 s2 = true ↔ s1 <+: s2 := by
  induction s1 generalizing s2 with
  | nil => simp [strncmp]
  | cons c s1 ih =>
      have hc : c ≠ 0#8 := fun e => h0 (e ▸ List.mem_cons_self)
      have hs : 0#8 ∉ s1 := fun h => h0 (List.mem_cons_of_mem _ h)
      cases s2 with
      | nil => simp [strncmp, hc]
      | cons d s2 =>
          rw [strncmp, List.headD_cons, List.tail_cons, List.cons_prefix_cons, ← ih hs]
          by_cases hcd : c = d <;> simp [hcd]

/-- Some register name has `regname` as a proper prefix. -/
def ProperPrefix (regname : List Byte) : Prop :=
  ∃ r ∈ regs, regname <+: bytes r.name ∧ regname ≠ bytes r.name

instance (regname : List Byte) : Decidable (ProperPrefix regname) :=
  inferInstanceAs (Decidable (∃ r ∈ regs, _))

/-- **Exact lookup** of one name: `getReg` finds the entry of that name and no other; a name of
    no entry is not found, and then no register is touched and `writeReg` fails. -/
structure LooksUpExactly (regname : List Byte) : Prop where
  finds : ∀ r, getReg regname = some r ↔ r ∈ regs ∧ bytes r.name = regname
  unknown : (∀ r ∈ regs, bytes r.name ≠ regname) →
    getReg regname = none ∧ (readReg regname).Avoids MmioOp.IsRegister ∧
      ∀ v, (writeReg regname v).Avoids MmioOp.IsRegister ∧
        (writeReg regname v).Always (· = false)

/-- A name that is not found: both accessors only report it. -/
theorem access_unknown {regname : List Byte} (h : getReg regname = none) :
    (readReg regname).Avoids MmioOp.IsRegister ∧
      ∀ v, (writeReg regname v).Avoids MmioOp.IsRegister ∧
        (writeReg regname v).Always (· = false) := by
  have hp : ∀ va, ¬ (MmioOp.print va []).IsRegister := fun _ h => h
  unfold readReg writeReg
  rw [h]
  refine ⟨⟨hp _, fun _ => trivial⟩, fun v => ⟨⟨hp _, fun _ => trivial⟩, ?_⟩⟩
  intro a h
  rcases h with ⟨_, _, rfl⟩
  rfl

theorem getReg_eq_none {regname : List Byte} (h0 : 0#8 ∉ regname) :
    getReg regname = none ↔ ∀ r ∈ regs, ¬ regname <+: bytes r.name := by
  rw [getReg, List.find?_eq_none]
  exact forall₂_congr fun r _ => not_congr (strncmp_iff h0)

/-- What is found is an entry with the name as a prefix. -/
theorem getReg_prefix {regname : List Byte} (h0 : 0#8 ∉ regname) {r : RegDef}
    (h : getReg regname = some r) : r ∈ regs ∧ regname <+: bytes r.name := by
  unfold getReg at h
  have hs := List.find?_some h
  exact ⟨List.mem_of_find?_eq_some h, (strncmp_iff h0).mp hs⟩

/-- **A full register name finds its own entry.** -/
theorem getReg_full {r : RegDef} (hr : r ∈ regs) (h0 : 0#8 ∉ bytes r.name) :
    getReg (bytes r.name) = some r := by
  cases h : getReg (bytes r.name) with
  | none => exact absurd List.prefix_rfl ((getReg_eq_none h0).mp h r hr)
  | some r' =>
      obtain ⟨hr', hp⟩ := getReg_prefix h0 h
      rw [regs_prefix_free r hr r' hr' hp]

/-- Every entry is found by its name. -/
theorem getReg_name {r : RegDef} (hr : r ∈ regs) : getReg (bytes r.name) = some r :=
  getReg_full hr (regs_terminated r hr)

/-- **The lookup is exact for exactly the names that are no proper prefix of a register name.** -/
theorem lookup_exact_iff (regname : List Byte) (h0 : 0#8 ∉ regname) :
    LooksUpExactly regname ↔ ¬ ProperPrefix regname := by
  refine ⟨fun hx h => ?_, fun hnp => ?_⟩
  · rcases h with ⟨r, hr, hp, hne⟩
    by_cases hfull : ∃ r' ∈ regs, bytes r'.name = regname
    · obtain ⟨r', hr', rfl⟩ := hfull
      exact hne (regs_prefix_free r' hr' r hr hp ▸ rfl)
    · have hnone := (hx.unknown fun r' hr' e => hfull ⟨r', hr', e⟩).1
      exact (getReg_eq_none h0).mp hnone r hr hp
  · have heq : ∀ r ∈ regs, regname <+: bytes r.name → regname = bytes r.name := by
      intro r hr hp
      by_contra hne
      exact hnp ⟨r, hr, hp, hne⟩
    refine ⟨fun r => ⟨fun h => ?_, ?_⟩, fun hfull => ?_⟩
    · obtain ⟨hr, hp⟩ := getReg_prefix h0 h
      exact ⟨hr, (heq r hr hp).symm⟩
    · intro h
      rcases h with ⟨hr, rfl⟩
      exact getReg_full hr h0
    · have hnone : getReg regname = none :=
        (getReg_eq_none h0).mpr fun r hr hp => hfull r hr (heq r hr hp).symm
      exact ⟨hnone, access_unknown hnone⟩

theorem lookup_exact_iff_ics : LooksUpExactly (bytes "ics") ↔ ¬ ProperPrefix (bytes "ics") :=
  lookup_exact_iff (bytes "ics") (by decide)

/-- The one-letter name `g` finds `gcap`. -/
theorem lookup_letter : ¬ LooksUpExactly (bytes "g") := by
  intro h
  have hg : getReg (bytes "g") = some ⟨0x00, 2, "gcap"⟩ := by decide +kernel
  exact absurd ((h.finds _).mp hg).2 (by decide)

end TinyOS64
