/-
  File:      TinyOS64/Pci/Restart.lean
  Subject:   That the PCI scan and its restart come to an end, whatever the ports answer.

  The counters of findHDAudioDevice have eight bits and wrap. `forLoop` is a loop of the source
  over such a counter, with a bound on its turns; `findLoops_eq` says that 256 turns are always
  enough and that the three loops are then the search `findHDAudioDevice`. A hit lies at or above
  the start values, so the function number grows from hit to hit (`always_enumerate`).
-/
import TinyOS64.Lib.Counting
import TinyOS64.Pci.FindAudio

namespace TinyOS64

open Interaction WordFields

/-! ## 1. The loops of the source -/

/-- `for(uint8_t i=start; cond(i); i++)` with a body that may return from the function: `none`
    when the loop, or one in its body, has not ended within its turns. -/
def forLoop {β : Type} (cond : BitVec 8 → Bool) (body : BitVec 8 → Prog Ports (Option (Option β))) :
    Nat → BitVec 8 → Prog Ports (Option (Option β))
  | turns, i =>
    if cond i then
      match turns with
      | 0 => pure none
      | turns + 1 => do
        match ← body i with
        | some none => forLoop cond body turns (i + 1)
        | result => pure result
    else pure (some none)

/-- `findHDAudioDevice` with its loops, each within so many turns. -/
def findLoops (turns : Nat) (busStart deviceStart funcStart : BitVec 8) :
    Prog Ports (Option AudioDeviceResult) := do
  let found ← forLoop (fun bus => bus ≠ 0xff) (fun bus =>
    forLoop (fun device => device < 32) (fun device =>
      forLoop (fun func => func < 8) (fun func => some <$> probeFunction bus device func)
        turns funcStart) turns deviceStart) turns busStart
  pure (found.map (·.getD {}))

/-! ## 2. They end -/

/-- **A counting loop is a search through a range**, when the counter stops below 256 and the
    turns reach that far. -/
theorem forLoop_eq {β : Type} {cond : BitVec 8 → Bool} {limit : Nat}
    (hcond : ∀ i, cond i = true ↔ i.toNat < limit) (hlimit : limit < 256)
    (body : BitVec 8 → Prog Ports (Option β)) (turns : Nat) (i : BitVec 8)
    (hturns : limit ≤ turns + i.toNat) :
    forLoop cond (fun i => some <$> body i) turns i =
      some <$> (List.range' i.toNat (limit - i.toNat)).findSomeM? fun n => body (BitVec.ofNat 8 n) := by
  have hstop : ∀ i : BitVec 8, ¬ i.toNat < limit →
      some <$> (List.range' i.toNat (limit - i.toNat)).findSomeM?
        (fun n => body (BitVec.ofNat 8 n)) =
          (pure (some none) : Prog Ports (Option (Option β))) := by
    intro i hge
    rw [Nat.sub_eq_zero_of_le (Nat.not_lt.mp hge)]
    rfl
  induction turns generalizing i with
  | zero =>
      have hge : ¬ i.toNat < limit := by omega
      rw [hstop i hge, forLoop, if_neg (mt (hcond i).mp hge)]
  | succ turns ih =>
      by_cases hlt : i.toNat < limit
      · have hnext : (i + 1).toNat = i.toNat + 1 := by bv_omega
        have hrange : limit - i.toNat = limit - (i.toNat + 1) + 1 := by omega
        rw [forLoop, if_pos ((hcond i).mpr hlt), hrange, List.range'_succ, List.findSomeM?,
          BitVec.ofNat_toNat, BitVec.setWidth_eq, map_bind, bind_map_left]
        refine congrArg (body i >>= ·) (funext fun r => ?_)
        cases r with
        | some b => rfl
        | none =>
            have hrest := ih (i + 1) (by omega)
            rw [hnext] at hrest
            exact hrest
      · rw [hstop i hlt, forLoop, if_neg (mt (hcond i).mp hlt)]

/-- **The three loops end within 256 turns each, and are the search**: for all start values. -/
theorem findLoops_eq (turns : Nat) (hturns : 256 ≤ turns) (b d f : BitVec 8) :
    findLoops turns b d f = some <$> findHDAudioDevice b d f := by
  have hbus : ∀ i : BitVec 8, decide (i ≠ 0xff) = true ↔ i.toNat < 255 := by decide
  have hdevice : ∀ i : BitVec 8, decide (i < 32) = true ↔ i.toNat < 32 := by decide
  have hfunc : ∀ i : BitVec 8, decide (i < 8) = true ↔ i.toNat < 8 := by decide
  unfold findLoops findHDAudioDevice
  simp only [forLoop_eq hfunc (by decide) _ turns f (by omega),
    forLoop_eq hdevice (by decide) _ turns d (by omega),
    forLoop_eq hbus (by decide) _ turns b (by omega), map_bind, bind_map_left]
  rfl

/-! ## 3. What one search costs -/

/-- A read of the configuration data port. -/
def PortOp.isRead : PortOp → Bool
  | inl _ => true
  | outl .. | print .. => false

/-- The hit's report reads seven registers. -/
theorem within_reportDevice (bus device func : BitVec 8) (vendorID deviceID : BitVec 32) (n : Nat) :
    Prog.Within PortOp.isRead (fun _ => n + 7) n
      (reportDevice bus device func vendorID deviceID) := by
  intro _ _ _ _ _ _ _ _ _ _ _ _ _ _ _ _ _ _ _ _ _ _
  exact Nat.le_refl _

theorem searches_probeFunction (bus device func : BitVec 8) :
    Prog.Searches PortOp.isRead 2 7 (probeFunction bus device func) := by
  intro n _ IDs
  show Prog.Within _ _ (n + 1) (if IDs &&& 0xFFFF ≠ 0xFFFF then _ else _)
  split
  · intro _ reg02
    show Prog.Within _ _ (n + 2) (if _ then _ else _)
    split
    · refine Prog.within_bind (within_reportDevice bus device func _ _ (n + 2)) fun r m hm => ?_
      exact hm
    · exact Nat.le_refl (n + 2)
  · exact Nat.le_succ (n + 1)

/-- The reads of a search that looks at every function. -/
def maxReads : Nat := 255 * (32 * (8 * 2)) + 7

/-- **One search makes at most two reads for each function it looks at, and seven for its hit.** -/
theorem within_findHDAudioDevice (b d f : BitVec 8) :
    Prog.Within PortOp.isRead (fun _ => maxReads) 0 (findHDAudioDevice b d f) := by
  have hfuncs : ∀ bus device : BitVec 8, Prog.Searches PortOp.isRead ((8 - f.toNat) * 2) 7
      ((List.range' f.toNat (8 - f.toNat)).findSomeM? fun func =>
        probeFunction bus device (BitVec.ofNat 8 func)) := by
    intro bus device
    simpa using Prog.searches_findSomeM? (l := List.range' f.toNat (8 - f.toNat)) fun func _ =>
      searches_probeFunction bus device (BitVec.ofNat 8 func)
  have hdevices : ∀ bus : BitVec 8, Prog.Searches PortOp.isRead
      ((32 - d.toNat) * ((8 - f.toNat) * 2)) 7
      ((List.range' d.toNat (32 - d.toNat)).findSomeM? fun device =>
        (List.range' f.toNat (8 - f.toNat)).findSomeM? fun func =>
          probeFunction bus (BitVec.ofNat 8 device) (BitVec.ofNat 8 func)) := by
    intro bus
    simpa using Prog.searches_findSomeM? (l := List.range' d.toNat (32 - d.toNat)) fun device _ =>
      hfuncs bus (BitVec.ofNat 8 device)
  have hbuses := Prog.searches_findSomeM? (l := List.range' b.toNat (255 - b.toNat)) fun bus _ =>
    hdevices (BitVec.ofNat 8 bus)
  rw [List.length_range'] at hbuses
  have hle : (255 - b.toNat) * ((32 - d.toNat) * ((8 - f.toNat) * 2)) ≤ 255 * (32 * (8 * 2)) := by
    refine Nat.mul_le_mul (by omega) (Nat.mul_le_mul (by omega) (Nat.mul_le_mul_right 2 ?_))
    omega
  refine Prog.within_bind (hbuses 0) fun r m hm => ?_
  have hextra : (if r.isSome then 7 else 0) ≤ 7 := by split <;> omega
  show m ≤ maxReads
  unfold maxReads
  omega

/-- So many reads has every run of a search. -/
theorem reads_findHDAudioDevice {b d f : BitVec 8} {tr : List (Σ o, Ports.Ans o)}
    {r : AudioDeviceResult} (h : (findHDAudioDevice b d f).Transcript tr r) :
    tr.countP (fun e => PortOp.isRead e.1) ≤ maxReads := by
  have hreads := (within_findHDAudioDevice b d f).transcript h
  rw [Nat.zero_add] at hreads
  exact hreads

/-! ## 4. The restart -/

theorem always_reportDevice (bus device func : BitVec 8) (vendorID deviceID : BitVec 32) :
    (reportDevice bus device func vendorID deviceID).Always fun r =>
      r.m_bus = bus ∧ r.m_device = device ∧ r.m_func = func := by
  simp [reportDevice, pciConfigReadWord, Ports.outl, Ports.inl, Ports.print]

theorem always_probeFunction (bus device func : BitVec 8) :
    (probeFunction bus device func).Always fun r => ∀ res ∈ r,
      res.m_bus = bus ∧ res.m_device = device ∧ res.m_func = func := by
  unfold probeFunction
  refine Prog.always_bind.mpr fun IDs _ => ?_
  dsimp only
  split
  · refine Prog.always_bind.mpr fun reg02 _ => ?_
    dsimp only
    split
    · refine Prog.Always.bind (always_reportDevice bus device func _ _) fun r hr => ?_
      refine Prog.always_ret.mpr fun res hres => ?_
      rw [← Option.some.inj hres]
      exact hr
    · exact Prog.always_ret.mpr fun res hres => by cases hres
  · exact Prog.always_ret.mpr fun res hres => by cases hres

/-- A hit that a search from these start values can report. -/
def HitFrom (b d f : Nat) (x : PciFunction) : Prop :=
  b ≤ x.bus ∧ d ≤ x.device ∧ f ≤ x.func ∧ x.func < 8

/-- **Whatever the ports answer**, a hit lies at or above the start values. -/
theorem always_findHDAudioDevice (b d f : BitVec 8) :
    (findHDAudioDevice b d f).Always fun r =>
      r.m_valid = true → HitFrom b.toNat d.toNat f.toNat r.location := by
  have hsearch : ((List.range' b.toNat (255 - b.toNat)).findSomeM? fun bus =>
      (List.range' d.toNat (32 - d.toNat)).findSomeM? fun device =>
        (List.range' f.toNat (8 - f.toNat)).findSomeM? fun func =>
          probeFunction (BitVec.ofNat 8 bus) (BitVec.ofNat 8 device) (BitVec.ofNat 8 func)).Always
      fun r => ∀ res ∈ r, HitFrom b.toNat d.toNat f.toNat res.location := by
    refine Prog.always_findSomeM? fun bus hbus => Prog.always_findSomeM? fun device hdevice =>
      Prog.always_findSomeM? fun func hfunc => ?_
    refine (always_probeFunction _ _ _).mono fun r hr res hres => ?_
    obtain ⟨hb, hd, hf⟩ := hr res hres
    have hbus := List.mem_range'_1.mp hbus
    have hdevice := List.mem_range'_1.mp hdevice
    have hfunc := List.mem_range'_1.mp hfunc
    rw [AudioDeviceResult.location, hb, hd, hf, HitFrom, toNat_ofNat_of_lt (by omega),
      toNat_ofNat_of_lt (by omega), toNat_ofNat_of_lt (by omega)]
    dsimp only
    omega
  refine Prog.Always.bind hsearch fun found hfound => Prog.always_ret.mpr fun hvalid => ?_
  cases found with
  | none => cases hvalid
  | some res => exact hfound res rfl

/-- **What the restart keeps**, from a result on: it goes on from that result, each hit is within
    reach of the one before, and there are no more hits than function numbers left. -/
structure HitsFrom (r : AudioDeviceResult) (found : List AudioDeviceResult) : Prop where
  head : found.head? = if r.m_valid then some r else none
  chain : (found.map AudioDeviceResult.location).IsChain Reaches
  few : ∀ x ∈ found.head?, found.length + x.location.func ≤ 8

/-- No hit, no further ones. -/
theorem hitsFrom_nil {r : AudioDeviceResult} (hr : r.m_valid = false) : HitsFrom r [] where
  head := by rw [hr]; rfl
  chain := .nil
  few := fun x hx => by cases hx

/-- **One hit more**: the next search starts behind it. -/
theorem hitsFrom_cons {r next : AudioDeviceResult} {found : List AudioDeviceResult}
    (hvalid : r.m_valid = true) (hr : r.location.func < 8)
    (hnext : next.m_valid = true → Reaches r.location next.location)
    (h : HitsFrom next found) : HitsFrom r (r :: found) where
  head := by rw [hvalid]; rfl
  chain := by
    refine h.chain.cons fun y hy => ?_
    rw [List.head?_map, h.head] at hy
    split at hy
    · rename_i hv
      rw [← Option.some.inj hy]
      exact hnext hv
    · cases hy
  few := by
    intro x hx
    have hx : r = x := Option.some.inj hx
    subst hx
    rw [List.length_cons]
    cases found with
    | nil => exact Nat.add_comm _ _ ▸ hr
    | cons y rest =>
        have hhead := h.head
        split at hhead
        · rename_i hv
          obtain rfl : y = next := Option.some.inj hhead
          have hfew := h.few y rfl
          have hreach := (hnext hv).2.2
          omega
        · cases hhead

/-- An invalid result ends the loop. -/
theorem always_enumerateFrom_invalid (fuel : Nat) {r : AudioDeviceResult}
    (hv : r.m_valid = false) : (enumerateFrom fuel r).Always fun result =>
      ∃ found, result = some found ∧ HitsFrom r found := by
  have hstop : enumerateFrom fuel r = pure (some []) := by
    have hinvalid : ¬ r.m_valid = true := by rw [hv]; exact Bool.false_ne_true
    cases fuel <;> exact if_neg hinvalid
  rw [hstop]
  exact Prog.always_ret.mpr ⟨[], rfl, hitsFrom_nil hv⟩

theorem always_enumerateFrom (fuel : Nat) (r : AudioDeviceResult)
    (hr : r.m_valid = true → r.location.func < 8 ∧ 8 ≤ fuel + r.location.func) :
    (enumerateFrom fuel r).Always fun result => ∃ found, result = some found ∧ HitsFrom r found := by
  induction fuel generalizing r with
  | zero =>
      cases hv : r.m_valid with
      | false => exact always_enumerateFrom_invalid _ hv
      | true =>
          have := hr hv
          omega
  | succ fuel ih =>
      cases hv : r.m_valid with
      | false => exact always_enumerateFrom_invalid _ hv
      | true =>
          obtain ⟨hfunc, hfuel⟩ := hr hv
          -- below 8 the function number does not wrap
          have hnext : (r.m_func + 1).toNat = r.location.func + 1 := by
            unfold AudioDeviceResult.location at hfunc ⊢
            bv_omega
          rw [enumerateFrom, if_pos hv]
          refine Prog.Always.bind (always_findHDAudioDevice _ _ _) fun next hhit => ?_
          rw [hnext] at hhit
          refine Prog.Always.bind (ih next fun hv' => ?_) fun rest hrest => ?_
          · obtain ⟨_, _, hge, hlt⟩ := hhit hv'
            omega
          · obtain ⟨found, rfl, hfound⟩ := hrest
            refine Prog.always_ret.mpr ⟨r :: found, rfl, ?_⟩
            refine hitsFrom_cons hv hfunc (fun hv' => ?_) hfound
            obtain ⟨hb, hd, hf, _⟩ := hhit hv'
            exact ⟨hb, hd, hf⟩

/-- **The scan and its restart end, whatever the ports answer**: each search, with its 8-bit
    counters, within 256 turns of each loop and `maxReads` reads; the restart after at most eight
    hits, no two of them at one place. -/
theorem scan_ends :
    (∀ more b d f, findLoops (256 + more) b d f = some <$> findHDAudioDevice b d f ∧
      (findHDAudioDevice b d f).Within PortOp.isRead (fun _ => maxReads) 0) ∧
    ∀ extra, (enumerateHDAudio (8 + extra)).Always fun result => ∃ found, result = some found ∧
      found.length ≤ 8 ∧ (found.map AudioDeviceResult.location).Nodup := by
  refine ⟨fun more b d f => ⟨findLoops_eq _ (Nat.le_add_right _ _) b d f,
    within_findHDAudioDevice b d f⟩, fun extra => ?_⟩
  refine Prog.Always.bind (always_findHDAudioDevice 0 0 0) fun first hfirst => ?_
  refine (always_enumerateFrom (8 + extra) first fun hv => ?_).mono fun result hresult => ?_
  · exact ⟨(hfirst hv).2.2.2, by omega⟩
  · obtain ⟨found, rfl, hfound⟩ := hresult
    refine ⟨found, rfl, ?_, ?_⟩
    · cases found with
      | nil => exact Nat.zero_le 8
      | cons x rest => exact Nat.le_trans (Nat.le_add_right _ _) (hfound.few x rfl)
    · have : Trans Reaches Reaches Reaches := ⟨fun {a b c} => reaches_trans a b c⟩
      refine hfound.chain.pairwise.imp fun {x y} hreach hxy => ?_
      rw [hxy] at hreach
      exact absurd hreach.2.2 (Nat.lt_irrefl _)

end TinyOS64
