/-
  File:      TinyOS64/Hda/Boot.lean
  Subject:   The constructor of HDACodec: three allocations, the scan, and what they are used for.

  A refused allocation is only reported: its variable keeps 0xFFFFFFFF, and everything after it
  goes on as if these were pages. The contract of section 2 says what a session may do with the
  pages that were granted; `BootSafety` says in which outcomes it keeps to that.
-/
import TinyOS64.Hda.Scan
import TinyOS64.Hda.Stream
import TinyOS64.Lib.Contract

namespace TinyOS64

open Interaction

/-! ## 1. The constructor -/

/-- The variable `allocatePages` is given the address of. -/
inductive Buffer where
  | m_descriptorBuffer | m_audioBuffer | m_dmaPositionBuffer

/-- The questions of the constructor. -/
inductive BootOp where
  /-- `m_allocatePages(AllocateMaxAddress, EfiRuntimeServicesData, pages, &memory)`. -/
  | allocatePages (pages : Nat) (memory : Buffer)
  /-- A store of a sample to CPU memory. -/
  | store16 (address : BitVec 64) (v : BitVec 16)
  | mmio (o : MmioOp)

/-- Their answers; an allocation is answered with an address or refused. -/
@[reducible] def BootOp.Ans : BootOp → Type
  | allocatePages .. => Option (BitVec 64)
  | store16 .. => Unit
  | mmio o => o.Ans

/-- The signature of programs that allocate. -/
@[reducible] def Boot : Sig := ⟨BootOp, BootOp.Ans⟩

namespace Boot

def allocatePages (pages : Nat) (memory : Buffer) : Prog Boot (Option (BitVec 64)) :=
  .ask (S := Boot) (.allocatePages pages memory) .ret
def store16 (address : BitVec 64) (v : BitVec 16) : Prog Boot Unit :=
  .ask (S := Boot) (.store16 address v) .ret

/-- A question of a register program. -/
def onBoot (o : MmioOp) : Prog Boot o.Ans := .ask (S := Boot) (.mmio o) .ret

def print (fmt : String) (va : List Arg) : Prog Boot Nat := onBoot (.print fmt va)

end Boot

/-- What the three allocations share: the variable starts as 0xFFFFFFFF, a refusal is reported
    and leaves it so. -/
def allocate (pages : Nat) (memory : Buffer) (failed allocated : String) :
    Prog Boot (BitVec 64) := do
  match ← Boot.allocatePages pages memory with
  | none =>
    let _ ← Boot.print failed []
    pure 0xFFFFFFFF
  | some address =>
    let _ ← Boot.print allocated [.u64 address]
    pure address

def allocateDescriptorBuffer : Prog Boot (BitVec 64) :=
  allocate 1 .m_descriptorBuffer "Failed to allocate memory for codec descriptor buffer!\n\r"
    "Allocated memory for codec buffer at 0x%x!\n\r"

def allocateAudioBuffer : Prog Boot (BitVec 64) :=
  allocate 16 .m_audioBuffer "Failed to allocate memory for codec audio buffer!\n\r"
    "Allocated memory for codec audio at 0x%x!\n\r"

def allocateDmaPositionBuffer : Prog Boot (BitVec 64) :=
  allocate 1 .m_dmaPositionBuffer "Failed to allocate memory for codec dma position buffer!\n\r"
    "Allocated memory for codec dma position buffer at 0x%x!\n\r"

/-- The fill loop: 16 pages of 16-bit samples. -/
def fillAudioBuffer (buffer : BitVec 64) : Prog Boot Unit :=
  (List.range (16 * 4096 / 2)).forM fun i =>
    Boot.store16 (buffer + BitVec.ofNat 64 (2 * i)) (BitVec.ofNat 16 (i * 20))

/-- The constructor of `HDACodec`. The descriptor offsets are members it does not set: `input`
    and `output` are what they happen to hold. -/
def constructHDACodec (input output : Nat) : Prog Boot HDACodec := do
  let m_descriptorBuffer ← allocateDescriptorBuffer
  let m_audioBuffer ← allocateAudioBuffer
  fillAudioBuffer m_audioBuffer
  let m_dmaPositionBuffer ← allocateDmaPositionBuffer
  let m_widgets ← ((collectWidgetInformation []).lower Verbs.onMmio).lower Boot.onBoot
  pure ⟨m_widgets, m_descriptorBuffer, m_audioBuffer, m_dmaPositionBuffer, input, output⟩

/-- Any number of sounds, each with its length and format; none without a codec out of reset. -/
def playSounds (sounds : List (BitVec 64 × StreamFormat)) : Option HDACodec → Prog Boot Unit
  | none => pure ()
  | some codec => (sounds.forM fun sound => playSound codec sound.1 sound.2).lower Boot.onBoot

/-- What `main` does with the codec: constructed, reset, and then played. -/
def bootSession (input output polls : Nat) (sounds : List (BitVec 64 × StreamFormat)) :
    Prog Boot Unit := do
  let codec ← constructHDACodec input output
  let codec ← (reset polls codec).lower Boot.onBoot
  playSounds sounds codec

/-! ## 2. What is granted, and what may be done with it -/

/-- `n` pages the firmware can grant: aligned, and below 4 GiB. -/
structure Pages (n : Nat) where
  address : BitVec 64
  aligned : 4096 ∣ address.toNat
  below : address.toNat + 4096 * n ≤ 2 ^ 32

/-- An outcome of the three allocations. -/
structure Allocations where
  descriptor : Option (Pages 1)
  audio : Option (Pages 16)
  dmaPosition : Option (Pages 1)

/-- The answer to a call. -/
def Allocations.answer (outcome : Allocations) : Buffer → Option (BitVec 64)
  | .m_descriptorBuffer => outcome.descriptor.map Pages.address
  | .m_audioBuffer => outcome.audio.map Pages.address
  | .m_dmaPositionBuffer => outcome.dmaPosition.map Pages.address

/-- What the variable holds after the call. -/
def Allocations.address (outcome : Allocations) (memory : Buffer) : BitVec 64 :=
  (outcome.answer memory).getD 0xFFFFFFFF

/-- The pages granted so far, each grant with its address and its number of pages. -/
abbrev Granted := List (BitVec 64 × Nat)

/-- The `n` bytes from `a` on lie inside pages that were granted. -/
def Granted.Holds (granted : Granted) (a n : Nat) : Prop :=
  ∀ i, a ≤ i → i < a + n →
    ∃ g ∈ granted, g.1.toNat ≤ i ∧ i < g.1.toNat + 4096 * g.2

/-- A further grant, when the call was answered with one. -/
def Granted.add (granted : Granted) (pages : Nat) (answer : Option (BitVec 64)) : Granted :=
  answer.elim granted fun address => (address, pages) :: granted

/-- A byte of a register that holds a buffer address: CORB and RIRB base, DMA position base, and
    the descriptor-list base of a stream. -/
def IsBufferRegister (a : Nat) : Prop :=
  0x40 ≤ a ∧ a < 0x48 ∨ 0x50 ≤ a ∧ a < 0x58 ∨ 0x70 ≤ a ∧ a < 0x78 ∨ 0x80 ≤ a ∧ 0x18 ≤ a % 0x20

/-- The write gives the controller a buffer that was granted: the page of the DMA positions (bit 0
    of its register enables them), a descriptor list of two entries, or upper address bits that
    are 0. -/
def MmioOp.GivesGranted (granted : Granted) : MmioOp → Prop
  | write32 offset v =>
    if offset = 0x70 then granted.Holds (v &&& 0xFFFFFFFE).toNat 4096
    else if offset = 0x74 then v = 0
    else if 0x80 ≤ offset ∧ offset % 0x20 = 0x18 then granted.Holds v.toNat 32
    else if 0x80 ≤ offset ∧ offset % 0x20 = 0x1C then v = 0
    else False
  | _ => False

/-- The word at `offset` of a descriptor list of two entries (address, upper address bits, length,
    flags): its address is that of 16 pages that were granted. -/
def EntryWord (granted : Granted) (offset : Nat) (v : BitVec 32) : Prop :=
  (offset = 0 ∨ offset = 16 → granted.Holds v.toNat (16 * 4096)) ∧
    (offset = 4 ∨ offset = 20 → v = 0)

/-- **What a register program may ask**: it stores only to granted pages, and gives the controller
    no buffer that was not granted, in a register or in the descriptor list at `list`. -/
def MmioOp.Safe (granted : Granted) (list : BitVec 64) : MmioOp → Prop
  | store32 address v =>
    granted.Holds address.toNat 4 ∧
      (list.toNat ≤ address.toNat → EntryWord granted (address.toNat - list.toNat) v)
  | o => ∀ a, o.Writes a → IsBufferRegister a → o.GivesGranted granted

/-- What a program that allocates may ask. -/
def BootOp.Safe (granted : Granted) (list : BitVec 64) : BootOp → Prop
  | allocatePages .. => True
  | store16 address _ => granted.Holds address.toNat 2
  | mmio o => o.Safe granted list

/-- How an allocation is answered in an outcome, and what is granted then. -/
def Allocations.May (outcome : Allocations) (granted : Granted) :
    (o : BootOp) → o.Ans → Granted → Prop
  | .allocatePages pages memory, x, granted' =>
    x = outcome.answer memory ∧ granted' = granted.add pages x
  | _, _, granted' => granted' = granted

/-- **The contract of memory**: only pages granted so far are touched or given away. -/
def Allocations.contract (outcome : Allocations) : Contract Boot Granted where
  owes granted := BootOp.Safe granted (outcome.address .m_descriptorBuffer)
  may := outcome.May

/-- **Memory safety of an outcome**: every session of the driver keeps the contract, from nothing
    granted on. -/
def Allocations.KeepsToGrants (outcome : Allocations) : Prop :=
  ∀ input output polls sounds,
    (bootSession input output polls sounds).Meets outcome.contract (fun _ _ => True) []

/-! ## 3. Granted pages -/

section Granted

variable {granted : Granted} {a n : Nat}

/-- Bytes inside one grant. -/
theorem Granted.holds_of_mem {address : BitVec 64} {k : Nat} (h : (address, k) ∈ granted)
    (hlo : address.toNat ≤ a) (hhi : a + n ≤ address.toNat + 4096 * k) : granted.Holds a n :=
  fun i hi hi' => ⟨_, h, by dsimp only; omega, by dsimp only; omega⟩

/-- Grants below 4 GiB hold no byte from there on. -/
theorem Granted.Holds.below (hall : ∀ g ∈ granted, g.1.toNat + 4096 * g.2 ≤ 2 ^ 32)
    (h : granted.Holds a n) (hn : 0 < n) : a + n ≤ 2 ^ 32 := by
  obtain ⟨g, hg, _, hhi⟩ := h (a + n - 1) (by omega) (by omega)
  have := hall g hg
  omega

end Granted

section Contract

variable (outcome : Allocations) {granted : Granted} {α : Type}

/-- The grants after the calls of the constructor made so far. -/
theorem Allocations.below_add {pages : Nat} {memory : Buffer}
    (hpages : ∀ address, outcome.answer memory = some address →
      address.toNat + 4096 * pages ≤ 2 ^ 32)
    (hall : ∀ g ∈ granted, g.1.toNat + 4096 * g.2 ≤ 2 ^ 32) :
    ∀ g ∈ granted.add pages (outcome.answer memory), g.1.toNat + 4096 * g.2 ≤ 2 ^ 32 := by
  intro g hg
  cases he : outcome.answer memory with
  | none =>
      rw [he] at hg
      exact hall g hg
  | some address =>
      rw [he] at hg
      rcases List.mem_cons.mp hg with rfl | hg
      · exact hpages address he
      · exact hall g hg

/-- An allocation ends with its variable and one grant more. -/
theorem meets_allocate {pages : Nat} {memory : Buffer} {failed allocated : String}
    {Q : BitVec 64 → Granted → Prop} :
    (allocate pages memory failed allocated).Meets outcome.contract Q granted ↔
      Q (outcome.address memory) (granted.add pages (outcome.answer memory)) := by
  have hsafe : ∀ granted' fmt va,
      outcome.contract.owes granted' (.mmio (.print fmt va)) := fun _ _ _ a ha => absurd ha id
  unfold allocate Allocations.address
  rw [Prog.meets_bind]
  refine ⟨fun h => ?_, fun h => ?_⟩
  · have h := h.2 _ _ ⟨rfl, rfl⟩
    cases he : outcome.answer memory with
    | none =>
        rw [he] at h
        exact h.2 0 _ rfl
    | some address =>
        rw [he] at h
        exact h.2 0 _ rfl
  · refine ⟨trivial, fun x granted' hx => ?_⟩
    obtain ⟨rfl, rfl⟩ := hx
    cases he : outcome.answer memory with
    | none =>
        rw [he] at h
        refine ⟨hsafe _ _ _, fun _ _ hs => ?_⟩
        cases hs
        exact h
    | some address =>
        rw [he] at h
        refine ⟨hsafe _ _ _, fun _ _ hs => ?_⟩
        cases hs
        exact h

theorem quiet_mmio (o : MmioOp) : outcome.contract.Quiet (.mmio o) := fun _ _ _ => Iff.rfl

/-- **A register program under the contract** is judged by its own questions and values. -/
theorem meets_onBoot {p : Prog Mmio α} {Q : α → Granted → Prop} :
    (p.lower Boot.onBoot).Meets outcome.contract Q granted ↔
      p.AsksOnly (MmioOp.Safe granted (outcome.address .m_descriptorBuffer)) ∧
        p.Always fun a => Q a granted := by
  have hq : (p.lower Boot.onBoot).AsksOnly outcome.contract.Quiet := by
    induction p with
    | ret a => trivial
    | ask o k ih => exact Prog.asksOnly_ask (quiet_mmio outcome o) ih
  rw [Prog.meets_quiet hq]
  clear hq
  induction p with
  | ret a => exact Iff.rfl
  | ask o k ih =>
      have hask : (Prog.ask (S := Mmio) o k).lower Boot.onBoot =
          .ask (S := Boot) (.mmio o) fun x => (k x).lower Boot.onBoot := rfl
      rw [hask]
      simp only [Prog.avoids_ask, Prog.always_ask, and_assoc, ← forall_and, ih]
      exact Iff.rfl

/-- The samples' stores are judged one by one. -/
theorem meets_fillAudioBuffer {buffer : BitVec 64} {Q : Unit → Granted → Prop} :
    (fillAudioBuffer buffer).Meets outcome.contract Q granted ↔
      (∀ i < 16 * 4096 / 2, granted.Holds (buffer + BitVec.ofNat 64 (2 * i)).toNat 2) ∧
        Q () granted := by
  unfold fillAudioBuffer
  simp only [← List.mem_range]
  generalize List.range (16 * 4096 / 2) = l
  induction l with
  | nil => simp
  | cons i l ih =>
      have hcons : ((i :: l).forM fun i => Boot.store16 (buffer + BitVec.ofNat 64 (2 * i))
          (BitVec.ofNat 16 (i * 20))) =
        .ask (S := Boot) (.store16 (buffer + BitVec.ofNat 64 (2 * i)) (BitVec.ofNat 16 (i * 20)))
          fun _ => l.forM fun i => Boot.store16 (buffer + BitVec.ofNat 64 (2 * i))
            (BitVec.ofNat 16 (i * 20)) := rfl
      rw [hcons, Prog.meets_ask, List.forall_mem_cons, and_assoc, ← ih]
      refine and_congr Iff.rfl ⟨fun h => h () granted rfl, fun h _ s hs => ?_⟩
      cases hs
      exact h

end Contract

end TinyOS64
