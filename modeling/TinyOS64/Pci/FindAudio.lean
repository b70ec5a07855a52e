/-
  File:      TinyOS64/Pci/FindAudio.lean
  Subject:   findHDAudioDevice (pci.cpp) and the enumeration loop of efi_init (main.cpp).

  The three loops of `findHDAudioDevice` start at the caller's bus, device and function, but the
  inner two start there again for EVERY bus and device. A search continued behind a hit therefore
  never comes back to smaller device or function numbers (`enumerate_reports_iff`).
-/
import TinyOS64.Pci.Config
import TinyOS64.Lib.RestartedSearch

namespace TinyOS64

open Interaction RestartedSearch WordFields

/-! ## 1. The search -/

/-- `AudioDeviceResult`; the fields of an invalid result are never set, here they are 0. -/
structure AudioDeviceResult where
  m_bus : BitVec 8 := 0
  m_device : BitVec 8 := 0
  m_func : BitVec 8 := 0
  m_intPin : BitVec 8 := 0
  m_intLine : BitVec 8 := 0
  m_vendorId : BitVec 16 := 0
  m_deviceId : BitVec 16 := 0
  m_address : BitVec 32 := 0
  m_valid : Bool := false
  deriving DecidableEq, Repr

/-- What is read and reported of a function that is an HD audio device. -/
def reportDevice (bus device func : BitVec 8) (vendorID deviceID : BitVec 32) :
    Prog Ports AudioDeviceResult := do
  let _ ← Ports.print "HD Audio device found on bus %d device %d func %d [%x:%x]\n\r"
    [.u32 (bus.setWidth 32), .u32 (device.setWidth 32), .u32 (func.setWidth 32), .u32 vendorID,
      .u32 deviceID]
  let address ← pciConfigReadWord bus device func 0x10
  let _ ← Ports.print "  base address #0: %x\n\r" [.u32 address]
  let _ ← Ports.print "  base address #1: %x\n\r" [.u32 (← pciConfigReadWord bus device func 0x14)]
  let _ ← Ports.print "  base address #2: %x\n\r" [.u32 (← pciConfigReadWord bus device func 0x18)]
  let _ ← Ports.print "  base address #3: %x\n\r" [.u32 (← pciConfigReadWord bus device func 0x1C)]
  let _ ← Ports.print "  base address #4: %x\n\r" [.u32 (← pciConfigReadWord bus device func 0x20)]
  let _ ← Ports.print "  base address #5: %x\n\r" [.u32 (← pciConfigReadWord bus device func 0x24)]
  let reg0F ← pciConfigReadWord bus device func 0x3C
  let intPin := (reg0F >>> 8) &&& 0xFF
  let intLine := reg0F &&& 0xFF
  let _ ← Ports.print "  int line: %d   - int pin: %d\n\r" [.u32 intPin, .u32 intLine]
  pure { m_bus := bus, m_device := device, m_func := func
         m_intPin := intPin.setWidth 8, m_intLine := intLine.setWidth 8
         m_vendorId := vendorID.setWidth 16, m_deviceId := deviceID.setWidth 16
         m_address := address, m_valid := true }

/-- The innermost loop's body. -/
def probeFunction (bus device func : BitVec 8) : Prog Ports (Option AudioDeviceResult) := do
  let IDs ← pciConfigReadWord bus device func 0
  let vendorID := IDs &&& 0xFFFF
  let deviceID := IDs >>> 16
  if vendorID ≠ 0xFFFF then
    let reg02 ← pciConfigReadWord bus device func 8
    let classCode := (reg02 >>> 24) &&& 0xFF
    let subclassCode := (reg02 >>> 16) &&& 0xFF
    if classCode = 0x04 ∧ subclassCode = 0x03 then
      pure (some (← reportDevice bus device func vendorID deviceID))
    else pure none
  else pure none

/-- `findHDAudioDevice`: buses up to 254, devices up to 31, functions up to 7. -/
def findHDAudioDevice (busStart deviceStart funcStart : BitVec 8) :
    Prog Ports AudioDeviceResult := do
  let found ← (List.range' busStart.toNat (255 - busStart.toNat)).findSomeM? fun bus =>
    (List.range' deviceStart.toNat (32 - deviceStart.toNat)).findSomeM? fun device =>
      (List.range' funcStart.toNat (8 - funcStart.toNat)).findSomeM? fun func =>
        probeFunction (BitVec.ofNat 8 bus) (BitVec.ofNat 8 device) (BitVec.ofNat 8 func)
  pure (found.getD {})

/-- The loop of `efi_init` from a result on, with every valid result it goes through; `none` when
    there are more than `fuel`. -/
def enumerateFrom : Nat → AudioDeviceResult → Prog Ports (Option (List AudioDeviceResult))
  | fuel, HDADeviceInfo =>
    if HDADeviceInfo.m_valid then
      match fuel with
      | 0 => pure none
      | fuel + 1 => do
        let next ← findHDAudioDevice HDADeviceInfo.m_bus HDADeviceInfo.m_device
          (HDADeviceInfo.m_func + 1)
        let rest ← enumerateFrom fuel next
        pure (rest.map (HDADeviceInfo :: ·))
    else pure (some [])

/-- The enumeration of `efi_init`. -/
def enumerateHDAudio (fuel : Nat) : Prog Ports (Option (List AudioDeviceResult)) := do
  enumerateFrom fuel (← findHDAudioDevice 0 0 0)

/-! ## 2. What the search looks at -/

/-- The functions the three loops go through, in their order. -/
def functionsFrom (busStart deviceStart funcStart : Nat) : List PciFunction :=
  (List.range' busStart (255 - busStart)).flatMap fun bus =>
    (List.range' deviceStart (32 - deviceStart)).flatMap fun device =>
      (List.range' funcStart (8 - funcStart)).map fun func => ⟨bus, device, func⟩

theorem mem_functionsFrom {b d f : Nat} {x : PciFunction} : x ∈ functionsFrom b d f ↔
    (b ≤ x.bus ∧ x.bus < 255) ∧ (d ≤ x.device ∧ x.device < 32) ∧ f ≤ x.func ∧ x.func < 8 := by
  obtain ⟨bus, device, func⟩ := x
  simp only [functionsFrom, List.mem_flatMap, List.mem_map, List.mem_range'_1,
    PciFunction.mk.injEq]
  refine ⟨fun h => ?_, fun h => ?_⟩
  · rcases h with ⟨_, hb, _, hd, _, hf, rfl, rfl, rfl⟩
    omega
  · exact ⟨bus, by omega, device, by omega, func, by omega, rfl, rfl, rfl⟩

/-- `x` comes before `y`: by bus, then device, then function. -/
def Before (x y : PciFunction) : Prop :=
  x.bus < y.bus ∨ x.bus = y.bus ∧
    (x.device < y.device ∨ x.device = y.device ∧ x.func < y.func)

theorem before_asymm (x y : PciFunction) (h : Before x y) : ¬ Before y x := by
  unfold Before at *
  omega

theorem pairwise_functionsFrom (b d f : Nat) : (functionsFrom b d f).Pairwise Before := by
  have hrange : ∀ s n, (List.range' s n).Pairwise (· < ·) := fun s n => List.pairwise_lt_range'
  rw [functionsFrom, List.pairwise_flatMap]
  refine ⟨fun bus _ => ?_, (hrange _ _).imp fun hlt x hx y hy => ?_⟩
  · rw [List.pairwise_flatMap]
    refine ⟨fun device _ => ?_, (hrange _ _).imp fun hlt x hx y hy => ?_⟩
    · exact List.pairwise_map.mpr ((hrange _ _).imp fun hlt => .inr ⟨rfl, .inr ⟨rfl, hlt⟩⟩)
    · obtain ⟨_, _, rfl⟩ := List.mem_map.mp hx
      obtain ⟨_, _, rfl⟩ := List.mem_map.mp hy
      exact .inr ⟨rfl, .inl hlt⟩
  · obtain ⟨_, _, hx⟩ := List.mem_flatMap.mp hx
    obtain ⟨_, _, hy⟩ := List.mem_flatMap.mp hy
    obtain ⟨_, _, rfl⟩ := List.mem_map.mp hx
    obtain ⟨_, _, rfl⟩ := List.mem_map.mp hy
    exact .inl hlt

/-- A search continued behind `x` still looks at `y`. -/
def Reaches (x y : PciFunction) : Prop :=
  x.bus ≤ y.bus ∧ x.device ≤ y.device ∧ x.func < y.func

instance : DecidableRel Reaches := fun _ _ => inferInstanceAs (Decidable (_ ∧ _))

theorem reaches_before (x y : PciFunction) (h : Reaches x y) : Before x y := by
  unfold Reaches at h
  unfold Before
  omega

theorem reaches_trans (x y z : PciFunction) (h : Reaches x y) (h' : Reaches y z) :
    Reaches x z := by
  unfold Reaches at *
  omega

theorem functionsFrom_behind (x : PciFunction) :
    functionsFrom x.bus x.device (x.func + 1) =
      (functionsFrom 0 0 0).filter fun y => Reaches x y := by
  refine eq_of_pairwise_of_mem_iff before_asymm (pairwise_functionsFrom _ _ _)
    ((pairwise_functionsFrom 0 0 0).filter _) fun y => ?_
  rw [List.mem_filter, mem_functionsFrom, mem_functionsFrom, decide_eq_true_iff, Reaches]
  omega

/-- A search through nested lists. -/
theorem findSome?_flatMap {α β γ : Type} (l : List α) (f : α → List β) (g : β → Option γ) :
    (l.flatMap f).findSome? g = l.findSome? fun a => (f a).findSome? g := by
  induction l with
  | nil => rfl
  | cons a l ih =>
      rw [List.flatMap_cons, List.findSome?_append, List.findSome?_cons, ih]
      cases (f a).findSome? g <;> rfl

theorem findSome?_ite {α β : Type} (l : List α) (p : α → Prop) [DecidablePred p] (h : α → β) :
    (l.findSome? fun a => if p a then some (h a) else none) =
      (l.find? fun a => p a).map h := by
  induction l with
  | nil => rfl
  | cons a l ih =>
      rw [List.findSome?_cons, List.find?_cons]
      by_cases ha : p a
      · simp [ha]
      · simp [ha, ih]

/-- The three loops search `functionsFrom`. -/
theorem findSome?_functionsFrom {β : Type} (b d f : Nat) (g : PciFunction → Option β) :
    (functionsFrom b d f).findSome? g =
      (List.range' b (255 - b)).findSome? fun bus =>
        (List.range' d (32 - d)).findSome? fun device =>
          (List.range' f (8 - f)).findSome? fun func => g ⟨bus, device, func⟩ := by
  simp only [functionsFrom, findSome?_flatMap, List.findSome?_map]
  rfl

/-- A function that is an HD audio device: a vendor ID, class 4, subclass 3. -/
def IsHDAudio (config : ConfigSpace) (x : PciFunction) : Prop :=
  config x 0 &&& 0xFFFF ≠ 0xFFFF ∧ (config x 8 >>> 24) &&& 0xFF = 0x04 ∧
    (config x 8 >>> 16) &&& 0xFF = 0x03

instance (config : ConfigSpace) (x : PciFunction) : Decidable (IsHDAudio config x) :=
  inferInstanceAs (Decidable (_ ∧ _))

/-- The HD audio devices on the buses the scan covers, in order. -/
def audioFunctions (config : ConfigSpace) : List PciFunction :=
  (functionsFrom 0 0 0).filter fun x => IsHDAudio config x

theorem mem_audioFunctions {config : ConfigSpace} {x : PciFunction} :
    x ∈ audioFunctions config ↔
      (x.bus < 255 ∧ x.device < 32 ∧ x.func < 8) ∧ IsHDAudio config x := by
  rw [audioFunctions, List.mem_filter, mem_functionsFrom, decide_eq_true_iff]
  simp

theorem pairwise_audioFunctions (config : ConfigSpace) :
    (audioFunctions config).Pairwise Before := (pairwise_functionsFrom 0 0 0).filter _

theorem find_behind (config : ConfigSpace) (x : PciFunction) :
    (functionsFrom x.bus x.device (x.func + 1)).find? (fun y => IsHDAudio config y) =
      next Reaches (audioFunctions config) x := by
  rw [functionsFrom_behind, next, audioFunctions, List.find?_filter, List.find?_filter]
  simp only [and_comm]

/-! ## 3. What the search finds -/

/-- The result for a function that is an HD audio device. -/
def foundAt (config : ConfigSpace) (x : PciFunction) : AudioDeviceResult where
  m_bus := BitVec.ofNat 8 x.bus
  m_device := BitVec.ofNat 8 x.device
  m_func := BitVec.ofNat 8 x.func
  m_intPin := ((config x 0x3C >>> 8) &&& 0xFF).setWidth 8
  m_intLine := (config x 0x3C &&& 0xFF).setWidth 8
  m_vendorId := (config x 0 &&& 0xFFFF).setWidth 16
  m_deviceId := (config x 0 >>> 16).setWidth 16
  m_address := config x 0x10
  m_valid := true

/-- The functions a scan can meet. -/
def InScan (x : PciFunction) : Prop := x.bus < 255 ∧ x.device < 32 ∧ x.func < 8

section Exec

variable {config : ConfigSpace} {s : PciState} {x : PciFunction}

/-- A configuration read of a function the scan meets. -/
theorem exec_read (hx : InScan x) (offset : BitVec 8) (s : PciState) :
    (pciConfigReadWord (BitVec.ofNat 8 x.bus) (BitVec.ofNat 8 x.device)
      (BitVec.ofNat 8 x.func) offset).exec pciPorts s =
        (s.config x (offset.toNat / 4 * 4), { s with
          address := configAddress (BitVec.ofNat 8 x.bus) (BitVec.ofNat 8 x.device)
            (BitVec.ofNat 8 x.func) offset }) := by
  obtain ⟨bus, device, func⟩ := x
  obtain ⟨hb, hd, hf⟩ := hx
  dsimp only at hb hd hf
  have eb : (BitVec.ofNat 8 bus).toNat = bus := toNat_ofNat_of_lt (by omega)
  have ed : (BitVec.ofNat 8 device).toNat = device := toNat_ofNat_of_lt (by omega)
  have ef : (BitVec.ofNat 8 func).toNat = func := toNat_ofNat_of_lt (by omega)
  have h := @exec_pciConfigReadWord (BitVec.ofNat 8 bus) (BitVec.ofNat 8 device)
    (BitVec.ofNat 8 func) (by omega) (by omega) offset s
  rw [eb, ed, ef] at h
  exact h

theorem exec_portsPrint (fmt : String) (va : List Arg) (s : PciState) :
    ((Ports.print fmt va).exec pciPorts s).2 = s := rfl

/-- The report of a function: its registers are read, the configuration space stays. -/
theorem exec_reportDevice (hx : InScan x) (s : PciState) :
    ((reportDevice (BitVec.ofNat 8 x.bus) (BitVec.ofNat 8 x.device) (BitVec.ofNat 8 x.func)
        (s.config x 0 &&& 0xFFFF) (s.config x 0 >>> 16)).exec pciPorts s).1 = foundAt s.config x ∧
    ((reportDevice (BitVec.ofNat 8 x.bus) (BitVec.ofNat 8 x.device) (BitVec.ofNat 8 x.func)
        (s.config x 0 &&& 0xFFFF) (s.config x 0 >>> 16)).exec pciPorts s).2.config = s.config := by
  unfold reportDevice
  simp only [Prog.exec_bind, exec_read hx, exec_portsPrint]
  exact ⟨rfl, rfl⟩

/-- One probe: the result for an HD audio device; the configuration space stays. -/
theorem exec_probeFunction (hx : InScan x) (hs : s.config = config) :
    ((probeFunction (BitVec.ofNat 8 x.bus) (BitVec.ofNat 8 x.device)
        (BitVec.ofNat 8 x.func)).exec pciPorts s).1 =
      (if IsHDAudio config x then some (foundAt config x) else none) ∧
    ((probeFunction (BitVec.ofNat 8 x.bus) (BitVec.ofNat 8 x.device)
        (BitVec.ofNat 8 x.func)).exec pciPorts s).2.config = config := by
  subst hs
  have h0 : s.config x ((0 : BitVec 8).toNat / 4 * 4) = s.config x 0 := rfl
  have h8 : s.config x ((8 : BitVec 8).toNat / 4 * 4) = s.config x 8 := rfl
  unfold probeFunction
  simp only [Prog.exec_bind, exec_read hx, h0]
  split
  · rename_i hv
    simp only [Prog.exec_bind, exec_read hx, h8]
    split
    · rename_i hc
      rw [if_pos (show IsHDAudio s.config x from ⟨hv, hc⟩), Prog.exec_bind]
      obtain ⟨hres, hcfg⟩ := exec_reportDevice hx { s with
        address := configAddress (BitVec.ofNat 8 x.bus) (BitVec.ofNat 8 x.device)
          (BitVec.ofNat 8 x.func) 8 }
      exact ⟨congrArg some hres, hcfg⟩
    · rename_i hc
      rw [if_neg (show ¬ IsHDAudio s.config x from fun h => hc h.2)]
      exact ⟨rfl, rfl⟩
  · rename_i hv
    rw [if_neg (show ¬ IsHDAudio s.config x from fun h => hv h.1)]
    exact ⟨rfl, rfl⟩

/-- **One search**: the first HD audio device the three loops come to. -/
theorem exec_findHDAudioDevice (b d f : BitVec 8) (hs : s.config = config) :
    ((findHDAudioDevice b d f).exec pciPorts s).1 =
      (((functionsFrom b.toNat d.toNat f.toNat).find? fun x => IsHDAudio config x).map
        (foundAt config)).getD {} ∧
    ((findHDAudioDevice b d f).exec pciPorts s).2.config = config := by
  have hmem : ∀ {a n m : Nat}, a ∈ List.range' n (m - n) → a < m := fun ha => by
    have := List.mem_range'_1.mp ha
    omega
  obtain ⟨hres, hcfg⟩ := Prog.exec_findSomeM? pciPorts (I := fun s => s.config = config)
    (fun bus hbus s hs => Prog.exec_findSomeM? pciPorts (I := fun s => s.config = config)
      (fun device hdev s hs => Prog.exec_findSomeM? pciPorts (I := fun s => s.config = config)
        (fun func hfunc s hs => exec_probeFunction (x := ⟨bus, device, func⟩)
          ⟨hmem hbus, hmem hdev, hmem hfunc⟩ hs)
        (l := List.range' f.toNat (8 - f.toNat)) hs)
      (l := List.range' d.toNat (32 - d.toNat)) hs)
    (l := List.range' b.toNat (255 - b.toNat)) hs
  rw [← findSome?_ite, findSome?_functionsFrom, ← hres]
  unfold findHDAudioDevice
  rw [Prog.exec_bind]
  exact ⟨rfl, hcfg⟩

/-! ## 4. The enumeration -/

/-- **The enumeration from a result on** goes through the hits of a restarted search. -/
theorem exec_enumerateFrom (fuel : Nat) (start : Option PciFunction)
    (hstart : ∀ x ∈ start, x ∈ audioFunctions config) (hs : s.config = config) :
    ((enumerateFrom fuel ((start.map (foundAt config)).getD {})).exec pciPorts s).1 =
      (chase Reaches (audioFunctions config) fuel start).map (List.map (foundAt config)) := by
  induction fuel generalizing start s with
  | zero =>
      cases start with
      | none => rfl
      | some x => rfl
  | succ fuel ih =>
      cases start with
      | none => rfl
      | some x =>
          obtain ⟨hb, hd, hf⟩ := (mem_audioFunctions.mp (hstart x rfl)).1
          have eb : (foundAt config x).m_bus.toNat = x.bus := by
            rw [foundAt, BitVec.toNat_ofNat]
            omega
          have ed : (foundAt config x).m_device.toNat = x.device := by
            rw [foundAt, BitVec.toNat_ofNat]
            omega
          have ef : ((foundAt config x).m_func + 1).toNat = x.func + 1 := by
            have h1 : (1 : BitVec 8).toNat = 1 := rfl
            rw [foundAt, BitVec.toNat_add, BitVec.toNat_ofNat, h1]
            omega
          obtain ⟨hres, hcfg⟩ := exec_findHDAudioDevice (foundAt config x).m_bus
            (foundAt config x).m_device ((foundAt config x).m_func + 1) hs
          rw [eb, ed, ef, find_behind] at hres
          have hrest := ih (next Reaches (audioFunctions config) x)
            (fun y hy => (next_spec hy).1) hcfg
          rw [← hres] at hrest
          have hvalid : (foundAt config x).m_valid = true := rfl
          rw [Option.map_some, Option.getD_some, enumerateFrom, if_pos hvalid]
          simp only [Prog.exec_bind, hrest, chase, Option.map_map]
          rfl

/-- **The enumeration ends, and its results are the restarted search's hits.** -/
theorem exec_enumerateHDAudio (extra : Nat) (hs : s.config = config) :
    ∃ r, chase Reaches (audioFunctions config) (8 + extra) (audioFunctions config).head? = some r ∧
      ((enumerateHDAudio (8 + extra)).exec pciPorts s).1 = some (r.map (foundAt config)) := by
  have hstart : ∀ x ∈ (audioFunctions config).head?, x ∈ audioFunctions config :=
    fun x hx => List.mem_of_mem_head? hx
  obtain ⟨hres, hcfg⟩ := exec_findHDAudioDevice 0 0 0 hs
  have hfirst : ((functionsFrom 0 0 0).find? fun x => IsHDAudio config x) =
      (audioFunctions config).head? := List.head?_filter.symm
  have hzero : (0 : BitVec 8).toNat = 0 := rfl
  rw [hzero, hfirst] at hres
  -- The function number grows from hit to hit, and there are 8 of them.
  obtain ⟨r, hr⟩ := chase_total (R := Reaches) (μ := PciFunction.func) (fun _ _ h => h.2.2)
    (fun x hx => (mem_audioFunctions.mp hx).1.2.2) (8 + extra) _ hstart (fun _ _ => by omega)
  have hrun := exec_enumerateFrom (8 + extra) _ hstart hcfg
  rw [← hres, hr] at hrun
  refine ⟨r, hr, ?_⟩
  rw [enumerateHDAudio, Prog.exec_bind]
  exact hrun

end Exec

/-! ## 5. Completeness -/

/-- The function a result is about. -/
def AudioDeviceResult.location (r : AudioDeviceResult) : PciFunction :=
  ⟨r.m_bus.toNat, r.m_device.toNat, r.m_func.toNat⟩

/-- **What the enumeration owes**: each HD audio device on buses 0 to 254, once, in order. -/
structure ReportsAll (config : ConfigSpace) (found : List AudioDeviceResult) : Prop where
  sound : ∀ r ∈ found, r.m_valid = true ∧ InScan r.location ∧ IsHDAudio config r.location
  complete : ∀ x, InScan x → IsHDAudio config x → x ∈ found.map AudioDeviceResult.location
  ordered : (found.map AudioDeviceResult.location).Pairwise Before

theorem location_foundAt {config : ConfigSpace} {x : PciFunction} (hx : InScan x) :
    (foundAt config x).location = x := by
  obtain ⟨bus, device, func⟩ := x
  obtain ⟨hb, hd, hf⟩ := hx
  dsimp only at hb hd hf
  rw [AudioDeviceResult.location, foundAt, PciFunction.mk.injEq]
  simp only [BitVec.toNat_ofNat]
  omega

theorem reportsAll_iff {config : ConfigSpace} {r : List PciFunction}
    (hr : ∀ x ∈ r, x ∈ audioFunctions config) :
    ReportsAll config (r.map (foundAt config)) ↔ r = audioFunctions config := by
  have hloc : (r.map (foundAt config)).map AudioDeviceResult.location = r := by
    have hid : r.map (AudioDeviceResult.location ∘ foundAt config) = r.map id :=
      List.map_congr_left fun x hx => location_foundAt (mem_audioFunctions.mp (hr x hx)).1
    rw [List.map_map, hid, List.map_id]
  refine ⟨fun h => ?_, fun h => ?_⟩
  · have hordered := h.ordered
    have hcomplete := h.complete
    rw [hloc] at hordered hcomplete
    refine eq_of_pairwise_of_mem_iff before_asymm hordered (pairwise_audioFunctions config)
      fun x => ⟨hr x, fun hx => ?_⟩
    obtain ⟨hscan, haudio⟩ := mem_audioFunctions.mp hx
    exact hcomplete x hscan haudio
  · refine ⟨fun res hres => ?_, fun x hscan haudio => ?_, ?_⟩
    · obtain ⟨x, hx, rfl⟩ := List.mem_map.mp hres
      obtain ⟨hscan, haudio⟩ := mem_audioFunctions.mp (hr x hx)
      rw [location_foundAt hscan]
      exact ⟨rfl, hscan, haudio⟩
    · rw [hloc, h]
      exact mem_audioFunctions.mpr ⟨hscan, haudio⟩
    · rw [hloc, h]
      exact pairwise_audioFunctions config

/-- **The enumeration is complete exactly when every HD audio device has at least the device
    number and more than the function number of the one before it**: for every configuration
    space. -/
theorem enumerate_reports_iff (config : ConfigSpace) (address : BitVec 32) (extra : Nat) :
    ∃ found, ((enumerateHDAudio (8 + extra)).exec pciPorts ⟨address, config⟩).1 = some found ∧
      (ReportsAll config found ↔ (audioFunctions config).IsChain Reaches) := by
  have hs : (⟨address, config⟩ : PciState).config = config := rfl
  obtain ⟨r, hr, hrun⟩ := exec_enumerateHDAudio extra hs
  refine ⟨_, hrun, ?_⟩
  rw [reportsAll_iff (chase_spec (fun x hx => List.mem_of_mem_head? hx) hr).2.2]
  exact chase_eq_iff before_asymm reaches_before (pairwise_audioFunctions config) hr

/-- Audio controllers at bus 0, device 27, function 0 and at bus 1, device 0, function 1. -/
def twoControllers : ConfigSpace := fun x register =>
  if x = ⟨0, 27, 0⟩ ∨ x = ⟨1, 0, 1⟩ then
    (if register = 0 then 0x293E8086 else if register = 8 then 0x04030000 else 0)
  else 0xFFFFFFFF

/-- The second controller has a smaller device number: it is not reported. -/
theorem enumerate_misses_controller :
    ∃ found, ((enumerateHDAudio 8).exec pciPorts ⟨0, twoControllers⟩).1 = some found ∧
      ¬ ReportsAll twoControllers found := by
  have hs : (⟨0, twoControllers⟩ : PciState).config = twoControllers := rfl
  obtain ⟨r, hr, hrun⟩ := exec_enumerateHDAudio 0 hs
  obtain ⟨_, hchain, hmem⟩ := chase_spec (fun x hx => List.mem_of_mem_head? hx) hr
  refine ⟨_, hrun, fun hall => ?_⟩
  rw [(reportsAll_iff hmem).mp hall] at hchain
  have h₁ : (⟨0, 27, 0⟩ : PciFunction) ∈ audioFunctions twoControllers :=
    mem_audioFunctions.mpr (by decide)
  have h₂ : (⟨1, 0, 1⟩ : PciFunction) ∈ audioFunctions twoControllers :=
    mem_audioFunctions.mpr (by decide)
  have hreach := reach_of_isChain before_asymm reaches_trans (pairwise_audioFunctions _) hchain
    h₁ h₂ (.inl (by decide))
  exact absurd hreach (by decide)

end TinyOS64
