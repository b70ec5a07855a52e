/-
  File:      TinyOS64/Hda/BootSafety.lean
  Subject:   Memory safety of the constructor and of the sounds played later.

  The audio buffer is filled by the constructor itself, the descriptor list is written by every
  `playSound`, the DMA position buffer is handed to the controller: of the eight outcomes of the
  three allocations one is survived (`keepsToGrants_iff`).
-/
import TinyOS64.Hda.Boot

namespace TinyOS64

open Interaction WordFields

/-! ## 1. Register programs -/

section Safe

variable {granted : Granted} {list : BitVec 64}

/-- A question that writes no buffer register and no memory is safe. -/
theorem safe_of_plain {o : MmioOp} (hstore : ∀ address v, o ≠ .store32 address v)
    (h : ∀ a, o.Writes a → ¬ IsBufferRegister a) : o.Safe granted list := by
  cases o with
  | store32 address v => exact absurd rfl (hstore address v)
  | _ => exact fun a ha hb => absurd hb (h a ha)

theorem safe_print (fmt : String) (va : List Arg) : MmioOp.Safe granted list (.print fmt va) :=
  safe_of_plain nofun fun _ ha => ha.elim

theorem safe_read16 (offset : Nat) : MmioOp.Safe granted list (.read16 offset) :=
  safe_of_plain nofun fun _ ha => ha.elim

theorem safe_read32 (offset : Nat) : MmioOp.Safe granted list (.read32 offset) :=
  safe_of_plain nofun fun _ ha => ha.elim

theorem safe_write16 {offset : Nat}
    (h : ∀ a, offset ≤ a → a < offset + 2 → ¬ IsBufferRegister a) (v : BitVec 16) :
    MmioOp.Safe granted list (.write16 offset v) :=
  safe_of_plain nofun fun a ha => h a ha.1 ha.2

theorem safe_write32 {offset : Nat}
    (h : ∀ a, offset ≤ a → a < offset + 4 → ¬ IsBufferRegister a) (v : BitVec 32) :
    MmioOp.Safe granted list (.write32 offset v) :=
  safe_of_plain nofun fun a ha => h a ha.1 ha.2

/-- The DMA position register takes a granted page. -/
theorem safe_dmaPosition (v : BitVec 32) :
    MmioOp.Safe granted list (.write32 0x70 v) ↔ granted.Holds (v &&& 0xFFFFFFFE).toNat 4096 := by
  have hreg : IsBufferRegister 0x70 := by unfold IsBufferRegister; omega
  exact ⟨fun h => h 0x70 ⟨Nat.le_refl _, by omega⟩ hreg, fun h _ _ _ => h⟩

/-- Polling reads. -/
theorem pollVerbResponse_safe (retries : Nat) :
    (pollVerbResponse retries).AsksOnly (MmioOp.Safe granted list) := by
  induction retries with
  | zero => trivial
  | succ retries ih =>
      rw [pollVerbResponse_succ]
      refine Prog.asksOnly_ask (safe_read16 _) fun ics => ?_
      dsimp only
      split
      · exact ih
      · exact Prog.asksOnly_once (safe_read32 _)

/-- A verb touches the immediate-command registers only. -/
theorem onMmio_safe (o : VerbOp) : (Verbs.onMmio o).AsksOnly (MmioOp.Safe granted list) := by
  cases o with
  | print fmt va => exact Prog.asksOnly_once (safe_print _ _)
  | verb codec node v command =>
      have hics : ∀ v, MmioOp.Safe granted list (.write16 0x68 v) :=
        safe_write16 fun a hlo hhi => by unfold IsBufferRegister; omega
      have hicw : ∀ v, MmioOp.Safe granted list (.write32 0x60 v) :=
        safe_write32 fun a hlo hhi => by unfold IsBufferRegister; omega
      refine Prog.avoids_bind ?_ fun _ => pollVerbResponse_safe 1024
      unfold sendVerb
      rw [sendWord_eq]
      exact Prog.asksOnly_ask (hics _) fun _ => Prog.asksOnly_ask (hicw _) fun _ =>
        Prog.asksOnly_once (hics _)

theorem print_safe (fmt : String) (va : List Arg) :
    (Mmio.print fmt va).AsksOnly (MmioOp.Safe granted list) :=
  Prog.asksOnly_once (safe_print _ _)

theorem readGctl_safe : (readReg (bytes "gctl")).AsksOnly (MmioOp.Safe granted list) := by
  rw [readReg_four getReg_gctl rfl]
  exact Prog.asksOnly_once (safe_read32 _)

theorem writeGctl_safe (v : BitVec 64) :
    (writeReg (bytes "gctl") v).AsksOnly (MmioOp.Safe granted list) := by
  rw [writeReg_four getReg_gctl rfl]
  refine Prog.asksOnly_once (safe_write32 (fun a hlo hhi => ?_) _)
  unfold IsBufferRegister
  dsimp only at hlo hhi
  omega

theorem readGcap_safe : (readReg (bytes "gcap")).AsksOnly (MmioOp.Safe granted list) := by
  rw [readReg_two getReg_gcap rfl]
  exact Prog.asksOnly_once (safe_read16 _)

/-- The wait reads. -/
theorem waitReset_safe (polls : Nat) :
    (waitReset polls).AsksOnly (MmioOp.Safe granted list) := by
  induction polls with
  | zero => trivial
  | succ polls ih =>
      unfold waitReset
      refine Prog.avoids_bind readGctl_safe fun gctl => ?_
      split
      · exact ih
      · trivial

/-- A reset writes GCTL only. -/
theorem reset_safe (polls : Nat) (codec : HDACodec) :
    (reset polls codec).AsksOnly (MmioOp.Safe granted list) := by
  unfold reset
  refine Prog.avoids_bind (print_safe _ _) fun _ => Prog.avoids_bind readGctl_safe fun _ =>
    Prog.avoids_bind (writeGctl_safe _) fun _ => Prog.avoids_bind (print_safe _ _) fun _ =>
    Prog.avoids_bind readGctl_safe fun _ => Prog.avoids_bind (writeGctl_safe _) fun _ =>
    Prog.avoids_bind (waitReset_safe polls) fun back => ?_
  split
  · exact Prog.avoids_bind (print_safe _ _) fun _ => Prog.avoids_bind readGcap_safe fun _ =>
      Prog.avoids_bind (print_safe _ _) fun _ => trivial
  · trivial

/-- A store to word `i` of the descriptor list. -/
theorem safe_listWord {address : BitVec 64} {i : Nat} {v : BitVec 32} (hi : i < 8)
    (hlist : granted.Holds list.toNat 32) (ha : address.toNat = list.toNat + 4 * i)
    (hv : EntryWord granted (4 * i) v) : MmioOp.Safe granted list (.store32 address v) := by
  refine ⟨fun j hlo hhi => hlist j (by omega) (by omega), fun _ => ?_⟩
  rw [ha, Nat.add_sub_cancel_left]
  exact hv

end Safe

/-- The codec's buffers are pages that were granted. -/
structure BuffersGranted (granted : Granted) (codec : HDACodec) : Prop where
  descriptor : granted.Holds codec.m_descriptorBuffer.toNat 32
  audio : granted.Holds codec.m_audioBuffer.toNat (16 * 4096)
  dmaPosition : granted.Holds codec.m_dmaPositionBuffer.toNat 4096
  descriptorBelow : codec.m_descriptorBuffer.toNat + 32 ≤ 2 ^ 32
  audioBelow : codec.m_audioBuffer.toNat < 2 ^ 32
  dmaPositionBelow : codec.m_dmaPositionBuffer.toNat < 2 ^ 32
  dmaPositionEven : 2 ∣ codec.m_dmaPositionBuffer.toNat

section PlaySound

variable {granted : Granted} {codec : HDACodec}

theorem write32_safe {list : BitVec 64} {offset : Nat} {v : BitVec 32}
    (h : MmioOp.Safe granted list (.write32 offset v)) :
    (Mmio.write32 offset v).AsksOnly (MmioOp.Safe granted list) :=
  Prog.asksOnly_once h

theorem store32_safe {list address : BitVec 64} {v : BitVec 32}
    (h : MmioOp.Safe granted list (.store32 address v)) :
    (Mmio.store32 address v).AsksOnly (MmioOp.Safe granted list) :=
  Prog.asksOnly_once h

/-- The low 32 bits of an address below 4 GiB. -/
theorem toNat_low {x : BitVec 64} (h : x.toNat < 2 ^ 32) : (x.setWidth 32).toNat = x.toNat := by
  rw [BitVec.toNat_setWidth, Nat.mod_eq_of_lt h]

/-- The enable bit put into an address and taken out again. -/
theorem toNat_enabled {x : BitVec 64} (h : x.toNat < 2 ^ 32) (heven : 2 ∣ x.toNat) :
    ((x ||| 1).setWidth 32 &&& 0xFFFFFFFE).toNat = x.toNat := by
  have hone : (1 : BitVec 64).toNat = 1 := rfl
  have hand : x &&& 1 = 0 := by
    refine BitVec.eq_of_toNat_eq ?_
    rw [toNat_and_low x (j := 1) rfl]
    exact Nat.mod_eq_zero_of_dvd heven
  have hor : (x ||| 1).toNat = x.toNat + 1 := by
    rw [toNat_or_of_and hand, hone]
    omega
  rw [toNat_and_high _ (k := 1) (m := 0xFFFFFFFE) rfl, BitVec.toNat_setWidth, hor]
  omega

/-- Word `i` of the descriptor list, without overflow. -/
theorem toNat_listWord (hb : BuffersGranted granted codec) {n : BitVec 64} (hn : n.toNat < 32) :
    (codec.m_descriptorBuffer + n).toNat = codec.m_descriptorBuffer.toNat + n.toNat := by
  have := hb.descriptorBelow
  rw [BitVec.toNat_add]
  omega

/-- **The descriptor list is a granted one with granted entries.** -/
theorem outputStreamSetDescriptorList_safe (hb : BuffersGranted granted codec) {k : Nat}
    (hout : codec.m_outputDescriptor = 0x80 + 0x20 * k) :
    (outputStreamSetDescriptorList codec).AsksOnly
      (MmioOp.Safe granted codec.m_descriptorBuffer) := by
  have haudio : EntryWord granted 0 (codec.m_audioBuffer.setWidth 32) ∧
      EntryWord granted 16 (codec.m_audioBuffer.setWidth 32) := by
    have h : granted.Holds (codec.m_audioBuffer.setWidth 32).toNat (16 * 4096) := by
      rw [toNat_low hb.audioBelow]
      exact hb.audio
    exact ⟨⟨fun _ => h, nofun⟩, ⟨fun _ => h, nofun⟩⟩
  have hword : ∀ {i : Nat} {n : BitVec 64} {v : BitVec 32}, i < 8 → n.toNat = 4 * i →
      EntryWord granted (4 * i) v → (Mmio.store32 (codec.m_descriptorBuffer + n) v).AsksOnly
        (MmioOp.Safe granted codec.m_descriptorBuffer) := fun hi hn hv =>
    store32_safe (safe_listWord hi hb.descriptor
      ((toNat_listWord hb (by omega)).trans (by rw [hn])) hv)
  have hlist : MmioOp.Safe granted codec.m_descriptorBuffer
      (.write32 (codec.m_outputDescriptor + 0x18) (codec.m_descriptorBuffer.setWidth 32)) := by
    intro a _ _
    dsimp only [MmioOp.GivesGranted]
    rw [if_neg (by omega), if_neg (by omega), if_pos (by omega),
      toNat_low (by have := hb.descriptorBelow; omega)]
    exact hb.descriptor
  have hupper : MmioOp.Safe granted codec.m_descriptorBuffer
      (.write32 (codec.m_outputDescriptor + 0x18 + 4) 0) := by
    intro a _ _
    dsimp only [MmioOp.GivesGranted]
    rw [if_neg (by omega), if_neg (by omega), if_neg (by omega), if_pos (by omega)]
  unfold outputStreamSetDescriptorList
  refine Prog.avoids_bind (write32_safe hlist) fun _ =>
    Prog.avoids_bind (write32_safe hupper) fun _ =>
    Prog.avoids_bind (write32_safe (safe_write32 (fun a hlo hhi => ?_) _)) fun _ =>
    Prog.avoids_bind (store32_safe (safe_listWord (i := 0) (by omega) hb.descriptor rfl
      haudio.1)) fun _ =>
    Prog.avoids_bind (hword (i := 1) (by omega) rfl ⟨nofun, fun _ => rfl⟩) fun _ =>
    Prog.avoids_bind (hword (i := 2) (by omega) rfl ⟨nofun, nofun⟩) fun _ =>
    Prog.avoids_bind (hword (i := 3) (by omega) rfl ⟨nofun, nofun⟩) fun _ =>
    Prog.avoids_bind (hword (i := 4) (by omega) rfl haudio.2) fun _ =>
    Prog.avoids_bind (hword (i := 5) (by omega) rfl ⟨nofun, fun _ => rfl⟩) fun _ =>
    Prog.avoids_bind (hword (i := 6) (by omega) rfl ⟨nofun, nofun⟩) fun _ =>
    hword (i := 7) (by omega) rfl ⟨nofun, nofun⟩
  unfold IsBufferRegister
  omega

/-- **A sound played from granted buffers is safe.** -/
theorem playSound_safe (hb : BuffersGranted granted codec) {k : Nat}
    (hout : codec.m_outputDescriptor = 0x80 + 0x20 * k) (length : BitVec 64)
    (format : StreamFormat) : (playSound codec length format).AsksOnly
      (MmioOp.Safe granted codec.m_descriptorBuffer) := by
  have hplain : ∀ {n : Nat} {v : BitVec 32}, n < 0x15 → (Mmio.write32
      (codec.m_outputDescriptor + n) v).AsksOnly
        (MmioOp.Safe granted codec.m_descriptorBuffer) := fun hn =>
    write32_safe (safe_write32 (fun a hlo hhi => by unfold IsBufferRegister; omega) _)
  have hposition : (writeReg (bytes "dplbase") (codec.m_dmaPositionBuffer ||| 1)).AsksOnly
      (MmioOp.Safe granted codec.m_descriptorBuffer) := by
    rw [writeReg_four getReg_dplbase rfl]
    refine Prog.asksOnly_once ((safe_dmaPosition _).mpr ?_)
    rw [toNat_enabled hb.dmaPositionBelow hb.dmaPositionEven]
    exact hb.dmaPosition
  have hupper : (writeReg (bytes "dpubase") 0).AsksOnly
      (MmioOp.Safe granted codec.m_descriptorBuffer) := by
    rw [writeReg_four getReg_dpubase rfl]
    exact Prog.asksOnly_once fun a _ _ => rfl
  unfold playSound outputStreamLength outputStreamFormat outputStreamTurnOn
  exact Prog.avoids_bind (outputStreamSetDescriptorList_safe hb hout) fun _ =>
    Prog.avoids_bind (hplain (by omega)) fun _ => Prog.avoids_bind (hplain (by omega)) fun _ =>
    Prog.avoids_bind hposition fun _ => Prog.avoids_bind hupper fun _ =>
    Prog.avoids_bind (hplain (n := 0) (by omega)) fun _ =>
    Prog.avoids_bind (print_safe _ _) fun _ => trivial

/-- **What every sound needs**: a granted word at the head of the descriptor list, and a granted
    DMA position page. -/
theorem playSound_needs {length : BitVec 64} {format : StreamFormat}
    (h : (playSound codec length format).AsksOnly
      (MmioOp.Safe granted codec.m_descriptorBuffer)) :
    granted.Holds codec.m_descriptorBuffer.toNat 4 ∧
      granted.Holds ((codec.m_dmaPositionBuffer ||| 1).setWidth 32 &&& 0xFFFFFFFE).toNat 4096 := by
  have hasked : ∀ o, o = .store32 codec.m_descriptorBuffer (codec.m_audioBuffer.setWidth 32) ∨
      o = .write32 0x70 ((codec.m_dmaPositionBuffer ||| 1).setWidth 32) →
      o ∈ (playSound codec length format).asked (readyDevice 0) := by
    intro o ho
    unfold playSound outputStreamSetDescriptorList outputStreamLength outputStreamFormat
      outputStreamTurnOn
    rw [writeReg_four getReg_dplbase rfl]
    rcases ho with rfl | rfl <;> simp [Mmio.write32, Mmio.store32]
  have hsafe := h.asked (readyDevice 0)
  exact ⟨(hsafe _ (hasked _ (.inl rfl))).1,
    (safe_dmaPosition _).mp (hsafe _ (hasked _ (.inr rfl)))⟩

end PlaySound

/-! ## 2. The eight outcomes -/

namespace Allocations

variable (outcome : Allocations)

/-- What is granted when the audio buffer is filled. -/
def filling : Granted :=
  (Granted.add [] 1 (outcome.answer .m_descriptorBuffer)).add 16 (outcome.answer .m_audioBuffer)

/-- What is granted after the constructor. -/
def granted : Granted := outcome.filling.add 1 (outcome.answer .m_dmaPositionBuffer)

/-- The codec the constructor makes of a scanned table. -/
def codec (m_widgets : List Widget) (input output : Nat) : HDACodec :=
  ⟨m_widgets, outcome.address .m_descriptorBuffer, outcome.address .m_audioBuffer,
    outcome.address .m_dmaPositionBuffer, input, output⟩

theorem below_answer {n : Nat} {memory : Buffer} {pages : Option (Pages n)}
    (h : outcome.answer memory = pages.map Pages.address) (address : BitVec 64)
    (ha : outcome.answer memory = some address) : address.toNat + 4096 * n ≤ 2 ^ 32 := by
  rw [h] at ha
  obtain ⟨p, _, rfl⟩ := Option.map_eq_some_iff.mp ha
  exact p.below

theorem filling_below : ∀ g ∈ outcome.filling, g.1.toNat + 4096 * g.2 ≤ 2 ^ 32 :=
  outcome.below_add (outcome.below_answer rfl)
    (outcome.below_add (outcome.below_answer rfl) fun _ hg => absurd hg List.not_mem_nil)

theorem granted_below : ∀ g ∈ outcome.granted, g.1.toNat + 4096 * g.2 ≤ 2 ^ 32 :=
  outcome.below_add (outcome.below_answer rfl) outcome.filling_below

/-- The constructor under the contract: its fill loop, and what it returns. -/
theorem meets_constructHDACodec {input output : Nat} {Q : HDACodec → Granted → Prop} :
    (constructHDACodec input output).Meets outcome.contract Q [] ↔
      (∀ i < 16 * 4096 / 2, outcome.filling.Holds
        (outcome.address .m_audioBuffer + BitVec.ofNat 64 (2 * i)).toNat 2) ∧
      ((collectWidgetInformation []).lower Verbs.onMmio).Always fun m_widgets =>
        Q (outcome.codec m_widgets input output) outcome.granted := by
  have hscan : ((collectWidgetInformation []).lower Verbs.onMmio).AsksOnly
      (MmioOp.Safe outcome.granted (outcome.address .m_descriptorBuffer)) :=
    Prog.asksOnly_lower onMmio_safe _
  unfold constructHDACodec allocateDescriptorBuffer allocateAudioBuffer allocateDmaPositionBuffer
  rw [Prog.meets_bind, meets_allocate, Prog.meets_bind, meets_allocate, Prog.meets_bind,
    meets_fillAudioBuffer, Prog.meets_bind, meets_allocate, Prog.meets_bind, meets_onBoot]
  exact and_congr_right fun _ => and_iff_right hscan

theorem meets_playSounds {codec : Option HDACodec} {sounds : List (BitVec 64 × StreamFormat)} :
    (playSounds sounds codec).Meets outcome.contract (fun _ _ => True) outcome.granted ↔
      ∀ codec', codec = some codec' →
        (sounds.forM fun sound => playSound codec' sound.1 sound.2).AsksOnly
          (MmioOp.Safe outcome.granted (outcome.address .m_descriptorBuffer)) := by
  cases codec with
  | none => exact ⟨fun _ codec' he => (nomatch he), fun _ => trivial⟩
  | some codec =>
      unfold playSounds
      rw [meets_onBoot]
      refine ⟨fun h codec' he => ?_, fun h => ⟨h codec rfl, fun _ _ => trivial⟩⟩
      cases he
      exact h.1

/-- **A session under the contract**: the fill loop, and every sound after a reset. -/
theorem keepsToGrants_unfolded : outcome.KeepsToGrants ↔
    ∀ input output polls (sounds : List (BitVec 64 × StreamFormat)),
      (∀ i < 16 * 4096 / 2, outcome.filling.Holds
        (outcome.address .m_audioBuffer + BitVec.ofNat 64 (2 * i)).toNat 2) ∧
      ((collectWidgetInformation []).lower Verbs.onMmio).Always fun m_widgets =>
        (reset polls (outcome.codec m_widgets input output)).Always fun r =>
          ∀ codec, r = some codec →
            (sounds.forM fun sound => playSound codec sound.1 sound.2).AsksOnly
              (MmioOp.Safe outcome.granted (outcome.address .m_descriptorBuffer)) := by
  unfold KeepsToGrants bootSession
  simp only [Prog.meets_bind, meets_constructHDACodec, meets_onBoot, meets_playSounds,
    and_iff_right (reset_safe _ _)]

variable {outcome}

/-- A refused allocation leaves an address no grant reaches beyond. -/
theorem address_refused {memory : Buffer} (h : outcome.answer memory = none) :
    outcome.address memory = 0xFFFFFFFF := by
  rw [address, h]
  rfl

/-- The fill loop needs the audio buffer. -/
theorem audio_ne_none (h : outcome.KeepsToGrants) : outcome.audio ≠ none := by
  intro hnone
  have hfirst := (outcome.keepsToGrants_unfolded.mp h 0 0 0 []).1 0 (by omega)
  have haddr : outcome.address .m_audioBuffer = 0xFFFFFFFF :=
    address_refused (by rw [answer, hnone, Option.map_none])
  rw [haddr] at hfirst
  exact absurd (hfirst.below outcome.filling_below (by omega)) (by decide)

/-- A session with one sound, after a reset that came back. -/
theorem sound_safe (h : outcome.KeepsToGrants) : ∃ codec,
    codec.m_descriptorBuffer = outcome.address .m_descriptorBuffer ∧
      codec.m_dmaPositionBuffer = outcome.address .m_dmaPositionBuffer ∧
      (playSound codec 0 ⟨0⟩).AsksOnly
        (MmioOp.Safe outcome.granted codec.m_descriptorBuffer) := by
  have hsound := (outcome.keepsToGrants_unfolded.mp h 0 0 1 [(0, ⟨0⟩)]).2.answer (readyDevice 0)
  have hback := hsound _ (Prog.Outcome.mono (fun _ _ _ => trivial) (reset_ready _ 0)) _ rfl
  exact ⟨_, rfl, rfl, hback.left⟩

/-- Every sound needs the descriptor buffer. -/
theorem descriptor_ne_none (h : outcome.KeepsToGrants) : outcome.descriptor ≠ none := by
  intro hnone
  obtain ⟨codec, hlist, _, hsafe⟩ := sound_safe h
  have hneeds := (playSound_needs hsafe).1
  rw [hlist, address_refused (by rw [answer, hnone, Option.map_none])] at hneeds
  exact absurd (hneeds.below outcome.granted_below (by omega)) (by decide)

/-- Every sound needs the DMA position buffer. -/
theorem dmaPosition_ne_none (h : outcome.KeepsToGrants) : outcome.dmaPosition ≠ none := by
  intro hnone
  obtain ⟨codec, _, hposition, hsafe⟩ := sound_safe h
  have hneeds := (playSound_needs hsafe).2
  rw [hposition, address_refused (by rw [answer, hnone, Option.map_none])] at hneeds
  exact absurd (hneeds.below outcome.granted_below (by omega)) (by decide)

section AllGranted

variable {descriptor : Pages 1} {audio : Pages 16} {dmaPosition : Pages 1}

/-- All three granted: the samples lie in the audio pages. -/
theorem filling_holds {i : Nat} (hi : i < 16 * 4096 / 2) :
    (filling ⟨some descriptor, some audio, some dmaPosition⟩).Holds
      (audio.address + BitVec.ofNat 64 (2 * i)).toNat 2 := by
  have hbelow := audio.below
  have hsample : (audio.address + BitVec.ofNat 64 (2 * i)).toNat =
      audio.address.toNat + 2 * i := by
    rw [BitVec.toNat_add, BitVec.toNat_ofNat]
    omega
  exact Granted.holds_of_mem (k := 16) List.mem_cons_self (by omega) (by omega)

/-- All three granted: the buffers of every codec of a session are granted pages. -/
theorem buffersGranted (m_widgets : List Widget) (input output : Nat) (capabilities : BitVec 64) :
    BuffersGranted (granted ⟨some descriptor, some audio, some dmaPosition⟩)
      (setDescriptors (codec ⟨some descriptor, some audio, some dmaPosition⟩ m_widgets input
        output) capabilities) where
  descriptor := Granted.holds_of_mem (k := 1)
    (List.mem_cons_of_mem _ (List.mem_cons_of_mem _ List.mem_cons_self)) (Nat.le_refl _)
    (Nat.add_le_add_left (by decide) _)
  audio := Granted.holds_of_mem (k := 16) (List.mem_cons_of_mem _ List.mem_cons_self)
    (Nat.le_refl _) (Nat.add_le_add_left (by decide) _)
  dmaPosition := Granted.holds_of_mem (k := 1) List.mem_cons_self (Nat.le_refl _)
    (Nat.add_le_add_left (by decide) _)
  descriptorBelow := (Nat.add_le_add_left (by decide) _).trans descriptor.below
  audioBelow := (Nat.lt_add_of_pos_right (by decide)).trans_le audio.below
  dmaPositionBelow := (Nat.lt_add_of_pos_right (by decide)).trans_le dmaPosition.below
  dmaPositionEven := Nat.dvd_trans (by decide) dmaPosition.aligned

/-- **All three granted**: every session keeps to the grants. -/
theorem keepsToGrants_granted :
    (Allocations.mk (some descriptor) (some audio) (some dmaPosition)).KeepsToGrants := by
  refine (keepsToGrants_unfolded _).mpr fun input output polls sounds => ⟨?_, ?_⟩
  · exact fun i hi => filling_holds hi
  · intro m_widgets _ r hr codec he
    obtain ⟨capabilities, rfl⟩ := reset_always polls _ r hr codec he
    exact Prog.avoids_forM fun sound _ => playSound_safe
      (buffersGranted m_widgets input output capabilities) rfl sound.1 sound.2

end AllGranted

end Allocations

/-- **Memory safety of the constructor and of every later sound**: the driver touches and gives
    away granted pages only, exactly in the outcome where all three allocations are granted. -/
theorem keepsToGrants_iff (outcome : Allocations) : outcome.KeepsToGrants ↔
    outcome.descriptor.isSome ∧ outcome.audio.isSome ∧ outcome.dmaPosition.isSome := by
  refine ⟨fun h => ?_, fun h => ?_⟩
  · exact ⟨Option.isSome_iff_ne_none.mpr (Allocations.descriptor_ne_none h),
      Option.isSome_iff_ne_none.mpr (Allocations.audio_ne_none h),
      Option.isSome_iff_ne_none.mpr (Allocations.dmaPosition_ne_none h)⟩
  · obtain ⟨descriptor, audio, dmaPosition⟩ := outcome
    obtain ⟨hd, ha, hp⟩ := h
    obtain ⟨descriptor, rfl⟩ := Option.isSome_iff_exists.mp hd
    obtain ⟨audio, rfl⟩ := Option.isSome_iff_exists.mp ha
    obtain ⟨dmaPosition, rfl⟩ := Option.isSome_iff_exists.mp hp
    exact Allocations.keepsToGrants_granted

/-- The audio buffer refused: the fill loop alone leaves the granted pages. -/
theorem keepsToGrants_refused : ¬ (Allocations.mk (some ⟨0x1000, by decide, by decide⟩) none
    (some ⟨0x2000, by decide, by decide⟩)).KeepsToGrants :=
  fun h => Allocations.audio_ne_none h rfl

end TinyOS64
