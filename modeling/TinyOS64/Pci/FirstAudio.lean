/-
  File:      TinyOS64/Pci/FirstAudio.lean
  Subject:   What one findHDAudioDevice reports, against the whole PCI bus and the PCI base address.

  The bus counter stops AT 0xFF, so bus 255 is never looked at (`find_first_iff`); and the result's
  address is base address register 0 as read, with its type bits (`find_base_iff`).
-/
import TinyOS64.Pci.FindAudio

namespace TinyOS64

open Interaction WordFields

/-! ## 1. The first audio function -/

/-- A function of the PCI bus. -/
def OnBus (x : PciFunction) : Prop := x.bus < 256 ∧ x.device < 32 ∧ x.func < 8

/-- `x` is an HD audio device, and no other one comes before it. -/
structure IsFirstAudio (config : ConfigSpace) (x : PciFunction) : Prop where
  onBus : OnBus x
  audio : IsHDAudio config x
  first : ∀ y, OnBus y → IsHDAudio config y → y = x ∨ Before x y

/-- A result that gives the place, the IDs and the interrupt of `x`. -/
structure IsAbout (config : ConfigSpace) (x : PciFunction) (r : AudioDeviceResult) : Prop where
  place : r.location = x
  vendorId : r.m_vendorId.toNat = (config x 0).toNat % 2 ^ 16
  deviceId : r.m_deviceId.toNat = (config x 0).toNat / 2 ^ 16
  intPin : r.m_intPin.toNat = (config x 0x3C).toNat / 2 ^ 8 % 2 ^ 8
  intLine : r.m_intLine.toNat = (config x 0x3C).toNat % 2 ^ 8

/-- **What a search owes**: a valid result exactly when there is an HD audio device, and then one
    about the first. -/
structure ReportsFirst (config : ConfigSpace) (r : AudioDeviceResult) : Prop where
  valid : r.m_valid = true ↔ ∃ x, OnBus x ∧ IsHDAudio config x
  first : r.m_valid = true → ∃ x, IsFirstAudio config x ∧ IsAbout config x r

/-- Where a search in order stops, nothing it looks for comes before. -/
theorem find?_first {l : List PciFunction} (hl : l.Pairwise Before) {p : PciFunction → Prop}
    [DecidablePred p] {x : PciFunction} (h : l.find? (fun y => p y) = some x) :
    ∀ y ∈ l, p y → y = x ∨ Before x y := by
  obtain ⟨_, pre, suf, rfl, hpre⟩ := List.find?_eq_some_iff_append.mp h
  obtain ⟨_, htail, _⟩ := List.pairwise_append.mp hl
  intro y hy hp
  rcases List.mem_append.mp hy with hy | hy
  · exact absurd (decide_eq_true hp) (by simpa using hpre y hy)
  · rcases List.mem_cons.mp hy with rfl | hy
    · exact .inl rfl
    · exact .inr ((List.pairwise_cons.mp htail).1 y hy)

section Search

variable (config : ConfigSpace) (address : BitVec 32)

/-- The first HD audio device from these start values on, in the order of the three loops. -/
def firstFrom (b d f : Nat) : Option PciFunction :=
  (functionsFrom b d f).find? fun x => IsHDAudio config x

/-- **One search** reports what it comes to first. -/
theorem exec_find (b d f : BitVec 8) :
    ((findHDAudioDevice b d f).exec pciPorts ⟨address, config⟩).1 =
      ((firstFrom config b.toNat d.toNat f.toNat).map (foundAt config)).getD {} :=
  (exec_findHDAudioDevice b d f rfl).1

variable {config}

theorem isAbout_foundAt {x : PciFunction} (hx : InScan x) :
    IsAbout config x (foundAt config x) where
  place := location_foundAt hx
  vendorId := by
    show ((config x 0 &&& 0xFFFF).setWidth 16).toNat = _
    rw [BitVec.toNat_setWidth, toNat_and_low (j := 16) _ rfl, Nat.mod_mod]
  deviceId := by
    have hreg := (config x 0).isLt
    show ((config x 0 >>> 16).setWidth 16).toNat = _
    rw [BitVec.toNat_setWidth, BitVec.toNat_ushiftRight, Nat.shiftRight_eq_div_pow]
    omega
  intPin := by
    show (((config x 0x3C >>> 8) &&& 0xFF).setWidth 8).toNat = _
    rw [BitVec.toNat_setWidth, toNat_field (j := 8) _ 8 rfl, Nat.mod_mod]
  intLine := by
    show ((config x 0x3C &&& 0xFF).setWidth 8).toNat = _
    rw [BitVec.toNat_setWidth, toNat_and_low (j := 8) _ rfl, Nat.mod_mod]

/-- What the search comes to is an HD audio device within the scan. -/
theorem firstFrom_spec {b d f : Nat} {x : PciFunction} (h : firstFrom config b d f = some x) :
    InScan x ∧ IsHDAudio config x := by
  obtain ⟨hb, hd, hf⟩ := mem_functionsFrom.mp (List.mem_of_find?_eq_some h)
  have haudio : decide (IsHDAudio config x) = true :=
    List.find?_some (p := fun y => decide (IsHDAudio config y)) h
  exact ⟨⟨hb.2, hd.2, hf.2⟩, of_decide_eq_true haudio⟩

/-- From the start, the scan covers all buses but the last. -/
theorem mem_scan {x : PciFunction} : x ∈ functionsFrom 0 0 0 ↔ OnBus x ∧ x.bus ≠ 255 := by
  rw [mem_functionsFrom, OnBus]
  omega

theorem reportsFirst_found {x : PciFunction} (h : firstFrom config 0 0 0 = some x) :
    ReportsFirst config (foundAt config x) := by
  obtain ⟨hx, haudio⟩ := firstFrom_spec h
  have hbus : OnBus x := ⟨Nat.lt_succ_of_lt hx.1, hx.2⟩
  refine ⟨iff_of_true rfl ⟨x, hbus, haudio⟩, fun _ => ⟨x, ⟨hbus, haudio, fun y hy hya => ?_⟩,
    isAbout_foundAt hx⟩⟩
  by_cases hlast : y.bus = 255
  · have hlt := hx.1
    exact .inr (.inl (by omega))
  · exact find?_first (pairwise_functionsFrom 0 0 0) h y (mem_scan.mpr ⟨hy, hlast⟩) hya

theorem firstFrom_none (h : firstFrom config 0 0 0 = none) {x : PciFunction} (hx : OnBus x)
    (haudio : IsHDAudio config x) : x.bus = 255 := by
  by_contra hne
  exact List.find?_eq_none.mp h x (mem_scan.mpr ⟨hx, hne⟩) (decide_eq_true haudio)

/-- Without a find the report is right when the last bus has no HD audio device either. -/
theorem reportsFirst_none_iff (h : firstFrom config 0 0 0 = none) :
    ReportsFirst config {} ↔ ∀ x, OnBus x → x.bus = 255 → ¬ IsHDAudio config x := by
  refine ⟨fun hr x hx _ haudio => ?_, fun hlast => ⟨?_, fun hv => nomatch hv⟩⟩
  · exact nomatch hr.valid.mpr ⟨x, hx, haudio⟩
  · refine iff_of_false (fun hv => nomatch hv) fun hex => ?_
    obtain ⟨x, hx, haudio⟩ := hex
    exact hlast x hx (firstFrom_none h hx haudio) haudio

/-- **A search from the start is right exactly when** there is an HD audio device on the buses 0
    to 254, or none on bus 255: for every configuration space. -/
theorem find_first_iff :
    ReportsFirst config ((findHDAudioDevice 0 0 0).exec pciPorts ⟨address, config⟩).1 ↔
      (∃ x, InScan x ∧ IsHDAudio config x) ∨
        ∀ x, OnBus x → x.bus = 255 → ¬ IsHDAudio config x := by
  rw [exec_find]
  cases h : firstFrom config (0 : BitVec 8).toNat (0 : BitVec 8).toNat (0 : BitVec 8).toNat with
  | some x => exact iff_of_true (reportsFirst_found h) (.inl ⟨x, firstFrom_spec h⟩)
  | none =>
      refine (reportsFirst_none_iff h).trans ⟨.inr, fun hor => ?_⟩
      rcases hor with ⟨x, hx, haudio⟩ | hlast
      · have hbus := firstFrom_none h ⟨Nat.lt_succ_of_lt hx.1, hx.2⟩ haudio
        exact absurd hx.1 (by omega)
      · exact hlast

end Search

/-- One audio controller, on bus 255. -/
def lastBus : ConfigSpace := fun x register =>
  if x = ⟨255, 0, 0⟩ then
    (if register = 0 then 0x293E8086 else if register = 8 then 0x04030000 else 0)
  else 0xFFFFFFFF

/-- It is not found. -/
theorem find_misses_last_bus :
    ¬ ReportsFirst lastBus ((findHDAudioDevice 0 0 0).exec pciPorts ⟨0, lastBus⟩).1 := by
  have hnone : firstFrom lastBus (0 : BitVec 8).toNat (0 : BitVec 8).toNat (0 : BitVec 8).toNat =
      none := by
    refine List.find?_eq_none.mpr fun x hx haudio => ?_
    have hne : x ≠ ⟨255, 0, 0⟩ := fun e => (mem_scan.mp hx).2 (e ▸ rfl)
    have hvendor := (of_decide_eq_true haudio).1
    rw [lastBus, if_neg hne] at hvendor
    exact absurd hvendor (by decide)
  rw [exec_find, hnone]
  intro h
  exact (reportsFirst_none_iff hnone).mp h ⟨255, 0, 0⟩ ⟨by decide, by decide, by decide⟩ rfl
    (by decide)

/-! ## 2. The register base -/

/-- The memory base that base address registers 0 and 1 denote; an I/O register denotes none. -/
def memoryBase (bar0 bar1 : BitVec 32) : Option Nat :=
  if bar0.getLsbD 0 then none
  else
    let low := (bar0 &&& 0xFFFFFFF0).toNat
    some (if (bar0 >>> 1) &&& 0x3 = 0x2 then bar1.toNat * 2 ^ 32 + low else low)

/-- `m_base` of a codec constructed with this address. -/
def m_base (baseAddress : BitVec 32) : BitVec 64 := baseAddress.setWidth 64

/-- **What a result owes the codec constructed with it**: a base that the function's registers
    denote, below 2^32. -/
def GivesBase (config : ConfigSpace) (r : AudioDeviceResult) : Prop :=
  r.m_valid = true → ∃ base,
    memoryBase (config r.location 0x10) (config r.location 0x14) = some base ∧ base < 2 ^ 32 ∧
      (m_base r.m_address).toNat = base

/-- The base as a number. -/
theorem memoryBase_eq (bar0 bar1 : BitVec 32) : memoryBase bar0 bar1 =
    if bar0.toNat % 2 = 1 then none
    else some (if bar0.toNat / 2 % 4 = 2 then bar1.toNat * 2 ^ 32 + bar0.toNat / 16 * 16
      else bar0.toNat / 16 * 16) := by
  have hhigh : (bar0 &&& 0xFFFFFFF0).toNat = bar0.toNat / 16 * 16 := toNat_and_high (k := 4) _ rfl
  have hio : bar0.getLsbD 0 = decide (bar0.toNat % 2 = 1) := Nat.testBit_zero _
  have htype : (bar0 >>> 1) &&& 0x3 = 0x2 ↔ bar0.toNat / 2 % 4 = 2 := by
    rw [← BitVec.toNat_inj, toNat_field (j := 2) _ 1 rfl]
    rfl
  simp only [memoryBase, hhigh, hio, htype, decide_eq_true_eq]

/-- **A register taken as it is read is a base exactly when its four low bits are 0.** -/
theorem memoryBase_raw_iff (bar0 bar1 : BitVec 32) :
    (∃ base, memoryBase bar0 bar1 = some base ∧ base < 2 ^ 32 ∧ (m_base bar0).toNat = base) ↔
      bar0 &&& 0xF = 0 := by
  have hraw : (m_base bar0).toNat = bar0.toNat := by
    have hlt := bar0.isLt
    rw [m_base, BitVec.toNat_setWidth]
    omega
  have hzero : bar0 &&& 0xF = 0 ↔ bar0.toNat % 16 = 0 := by
    rw [← BitVec.toNat_inj, toNat_and_low (j := 4) _ rfl]
    rfl
  rw [memoryBase_eq, hraw, hzero]
  refine ⟨fun hex => ?_, fun hz => ⟨bar0.toNat, ?_, bar0.isLt, rfl⟩⟩
  · obtain ⟨base, hbase, hlt, rfl⟩ := hex
    split at hbase
    · cases hbase
    · have hbase := Option.some.inj hbase
      split at hbase <;> omega
  · rw [if_neg (by omega), if_neg (by omega)]
    congr 1
    omega

theorem givesBase_found {config : ConfigSpace} {b d f : Nat} {x : PciFunction}
    (h : firstFrom config b d f = some x) :
    GivesBase config (foundAt config x) ↔ config x 0x10 &&& 0xF = 0 := by
  have hplace : (foundAt config x).location = x := location_foundAt (firstFrom_spec h).1
  rw [← memoryBase_raw_iff _ (config x 0x14), GivesBase, hplace]
  exact ⟨fun hall => hall rfl, fun hex _ => hex⟩

/-- **A search gives the codec its base exactly when** the function found, if any, has the four
    type bits of base address register 0 clear: for all start values and configuration spaces. -/
theorem find_base_iff (config : ConfigSpace) (address : BitVec 32) (b d f : BitVec 8) :
    GivesBase config ((findHDAudioDevice b d f).exec pciPorts ⟨address, config⟩).1 ↔
      ∀ x ∈ firstFrom config b.toNat d.toNat f.toNat, config x 0x10 &&& 0xF = 0 := by
  rw [exec_find]
  cases h : firstFrom config b.toNat d.toNat f.toNat with
  | none => exact iff_of_true (fun hv => nomatch hv) fun x hx => nomatch hx
  | some x =>
      refine (givesBase_found h).trans ⟨fun hx y hy => ?_, fun hall => hall x rfl⟩
      rw [← Option.some.inj hy]
      exact hx

/-- An audio controller whose base address register says 64 bits wide, at 0xFEBF0000. -/
def wideController : ConfigSpace := fun x register =>
  if x = ⟨0, 27, 0⟩ then
    (if register = 0 then 0x293E8086 else if register = 8 then 0x04030000
      else if register = 0x10 then 0xFEBF0004 else 0)
  else 0xFFFFFFFF

/-- The codec gets 0xFEBF0004. -/
theorem find_keeps_type_bits :
    ¬ GivesBase wideController ((findHDAudioDevice 0 0 0).exec pciPorts ⟨0, wideController⟩).1 := by
  rw [exec_find]
  cases h : firstFrom wideController (0 : BitVec 8).toNat (0 : BitVec 8).toNat
      (0 : BitVec 8).toNat with
  | none =>
      have hbus := firstFrom_none h (x := ⟨0, 27, 0⟩) ⟨by decide, by decide, by decide⟩ (by decide)
      exact absurd hbus (by decide)
  | some x =>
      have hx : x = ⟨0, 27, 0⟩ := by
        by_contra hne
        have hvendor := (firstFrom_spec h).2.1
        rw [wideController, if_neg hne] at hvendor
        exact absurd hvendor (by decide)
      subst hx
      intro hbase
      exact absurd ((givesBase_found h).mp hbase) (by decide)

end TinyOS64
