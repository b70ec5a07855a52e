/-
  File:      TinyOS64/Hda/Stream.lean
  Subject:   Reset, and starting and stopping the output stream (hdacodec.cpp, hdacodec.h).

  `reset` places the output stream's descriptor behind those of the input streams. The start
  path writes there; `stopSound` writes to the FIRST descriptor of the window, which is the
  output stream's only when there is no input stream (`stop_stops_iff`).
-/
import TinyOS64.Hda.Registers
import TinyOS64.Hda.Widget

namespace TinyOS64

open Interaction ByteMemory

/-! ## 1. Reset -/

/-- The wait of `reset` for bit 0 of GCTL, with at most `polls` reads. -/
def waitReset : Nat → Prog Mmio Bool
  | 0 => pure false
  | polls + 1 => do
    if (← readReg (bytes "gctl")) &&& 1 = 0 then waitReset polls else pure true

/-- The number of input streams GCAP reports. -/
def numberOfInputStreams (capabilities : BitVec 64) : BitVec 64 := (capabilities >>> 8) &&& 0xF

/-- The number of output streams GCAP reports. -/
def numberOfOutputStreams (capabilities : BitVec 64) : BitVec 64 := (capabilities >>> 12) &&& 0xF

/-- The descriptor offsets `reset` derives from GCAP: the output stream's lies behind those of
    the input streams. -/
def setDescriptors (codec : HDACodec) (capabilities : BitVec 64) : HDACodec :=
  { codec with
    m_inputDescriptor := 0x80
    m_outputDescriptor := 0x80 + 0x20 * (numberOfInputStreams capabilities).toNat }

/-- `HDACodec::reset`; `none` when GCTL has not come back within `polls` reads. -/
def reset (polls : Nat) (codec : HDACodec) : Prog Mmio (Option HDACodec) := do
  let _ ← Mmio.print "Codec reset .. \n\r" []
  let gctl := (← readReg (bytes "gctl")).setWidth 32
  let _ ← writeReg (bytes "gctl") ((gctl &&& 0xFFFFFFFE).setWidth 64)
  let _ ← Mmio.print "Codec reset de-assert .. \n\r" []
  let gctl := (← readReg (bytes "gctl")).setWidth 32
  let _ ← writeReg (bytes "gctl") ((gctl ||| 1).setWidth 64)
  if ← waitReset polls then
    let _ ← Mmio.print "Codec reset complete .. \n\r" []
    let capabilities ← readReg (bytes "gcap")
    let _ ← Mmio.print "Codec reports %d input and %d output streams\n\r"
      [.u64 (numberOfInputStreams capabilities), .u64 (numberOfOutputStreams capabilities)]
    pure (some (setDescriptors codec capabilities))
  else pure none

/-! ## 2. The output stream -/

def outputStreamTurnOff (codec : HDACodec) : Prog Mmio Unit :=
  Mmio.write32 codec.m_inputDescriptor 0x00140000

def outputStreamTurnOn (codec : HDACodec) : Prog Mmio Unit := do
  let _ ← writeReg (bytes "dplbase") (codec.m_dmaPositionBuffer ||| 1)
  let _ ← writeReg (bytes "dpubase") 0
  Mmio.write32 codec.m_outputDescriptor 0x00140002
  let _ ← Mmio.print "Stream %d activated\n\r" [.u32 ((0x00140002 >>> 20) &&& 0xF)]

def outputStreamSetDescriptorList (codec : HDACodec) : Prog Mmio Unit := do
  Mmio.write32 (codec.m_outputDescriptor + 0x18) (codec.m_descriptorBuffer.setWidth 32)
  Mmio.write32 (codec.m_outputDescriptor + 0x18 + 4) 0
  Mmio.write32 (codec.m_outputDescriptor + 0x0C) 1
  let descriptorListPtr := codec.m_descriptorBuffer
  Mmio.store32 descriptorListPtr (codec.m_audioBuffer.setWidth 32)
  Mmio.store32 (descriptorListPtr + 4) 0
  Mmio.store32 (descriptorListPtr + 8) (4096 * 16)
  Mmio.store32 (descriptorListPtr + 12) 0
  Mmio.store32 (descriptorListPtr + 16) (codec.m_audioBuffer.setWidth 32)
  Mmio.store32 (descriptorListPtr + 20) 0
  Mmio.store32 (descriptorListPtr + 24) (4096 * 16)
  Mmio.store32 (descriptorListPtr + 28) 0

def getPlayPos (codec : HDACodec) : Prog Mmio (BitVec 64) := do
  pure ((← Mmio.read32 (codec.m_outputDescriptor + 0x04)).setWidth 64)

def outputStreamLength (codec : HDACodec) (length : BitVec 64) : Prog Mmio Unit :=
  Mmio.write32 (codec.m_outputDescriptor + 0x08) (length.setWidth 32)

def outputStreamFormat (codec : HDACodec) (format : StreamFormat) : Prog Mmio Unit :=
  Mmio.write32 (codec.m_outputDescriptor + 0x12) format.m_value

def playSound (codec : HDACodec) (length : BitVec 64) (format : StreamFormat) :
    Prog Mmio Unit := do
  outputStreamSetDescriptorList codec
  outputStreamLength codec length
  outputStreamFormat codec format
  outputStreamTurnOn codec

def stopSound (codec : HDACodec) : Prog Mmio Unit := outputStreamTurnOff codec

/-! ## 3. What reset sets up -/

theorem getReg_gctl : getReg (bytes "gctl") = some ⟨0x08, 4, "gctl"⟩ :=
  getReg_name (r := ⟨0x08, 4, "gctl"⟩) (by decide)
theorem getReg_gcap : getReg (bytes "gcap") = some ⟨0x00, 2, "gcap"⟩ :=
  getReg_name (r := ⟨0x00, 2, "gcap"⟩) (by decide)
theorem getReg_dplbase : getReg (bytes "dplbase") = some ⟨0x70, 4, "dplbase"⟩ :=
  getReg_name (r := ⟨0x70, 4, "dplbase"⟩) (by decide)
theorem getReg_dpubase : getReg (bytes "dpubase") = some ⟨0x74, 4, "dpubase"⟩ :=
  getReg_name (r := ⟨0x74, 4, "dpubase"⟩) (by decide)

/-- The device answers as it likes, and GCAP reads as `gcap`. -/
def GcapReads (gcap : BitVec 16) : (o : MmioOp) → o.Ans → Prop
  | .read16 offset, x => offset = 0x00 → x = gcap
  | _, _ => True

/-- **A reset that comes back** leaves the descriptor offsets GCAP determines. -/
theorem reset_outcome {polls : Nat} {codec codec' : HDACodec} {gcap : BitVec 16}
    (h : (reset polls codec).Outcome (GcapReads gcap) (some codec')) :
    codec' = setDescriptors codec (gcap.setWidth 64) := by
  unfold reset at h
  obtain ⟨_, _, h⟩ := Prog.outcome_bind.mp h
  obtain ⟨_, _, h⟩ := Prog.outcome_bind.mp h
  obtain ⟨_, _, h⟩ := Prog.outcome_bind.mp h
  obtain ⟨_, _, h⟩ := Prog.outcome_bind.mp h
  obtain ⟨_, _, h⟩ := Prog.outcome_bind.mp h
  obtain ⟨_, _, h⟩ := Prog.outcome_bind.mp h
  obtain ⟨back, _, h⟩ := Prog.outcome_bind.mp h
  cases back with
  | false => exact absurd h (by simp)
  | true =>
      obtain ⟨_, _, h⟩ := Prog.outcome_bind.mp h
      obtain ⟨capabilities, hcap, h⟩ := Prog.outcome_bind.mp h
      rw [readReg_two getReg_gcap rfl] at hcap
      obtain ⟨x, hx, hcap⟩ := hcap
      obtain ⟨_, _, h⟩ := Prog.outcome_bind.mp h
      rw [hx rfl] at hcap
      have e : capabilities = gcap.setWidth 64 := hcap
      rw [e] at h
      exact Option.some.inj h

/-- Whatever the device answers, a reset that comes back leaves the offsets of some GCAP value. -/
theorem reset_always (polls : Nat) (codec : HDACodec) :
    (reset polls codec).Always fun r => ∀ codec', r = some codec' →
      ∃ capabilities, codec' = setDescriptors codec capabilities := by
  unfold reset
  refine Prog.always_bind.mpr fun _ _ => Prog.always_bind.mpr fun _ _ =>
    Prog.always_bind.mpr fun _ _ => Prog.always_bind.mpr fun _ _ => Prog.always_bind.mpr fun _ _ =>
    Prog.always_bind.mpr fun _ _ => Prog.always_bind.mpr fun back _ => ?_
  cases back with
  | false => exact Prog.always_ret.mpr fun codec' he => by cases he
  | true =>
      refine Prog.always_bind.mpr fun _ _ => Prog.always_bind.mpr fun capabilities _ =>
        Prog.always_bind.mpr fun _ _ => Prog.always_ret.mpr fun codec' he => ?_
      exact ⟨capabilities, (Option.some.inj he).symm⟩

/-! ## 4. Calls -/

/-- A call the driver makes on the stream. -/
inductive StreamCall where
  | play (length : BitVec 64) (format : StreamFormat)
  | stop

/-- The call's program. -/
def StreamCall.run (codec : HDACodec) : StreamCall → Prog Mmio Unit
  | play length format => playSound codec length format
  | stop => stopSound codec

/-- The plain window after a sequence of calls. -/
def afterCalls (codec : HDACodec) (s : PlainState) (calls : List StreamCall) : PlainState :=
  calls.foldl (fun s call => ((call.run codec).exec plainWindow s).2) s

theorem afterCalls_concat (codec : HDACodec) (s : PlainState) (calls : List StreamCall)
    (call : StreamCall) : afterCalls codec s (calls ++ [call]) =
      ((call.run codec).exec plainWindow (afterCalls codec s calls)).2 := by
  rw [afterCalls, List.foldl_append]
  rfl

/-- The address lies in the 0x20-byte descriptor of a stream other than the output stream. -/
def IsOtherStream (codec : HDACodec) (a : Nat) : Prop :=
  ∃ k, 0x80 + 0x20 * k ≠ codec.m_outputDescriptor ∧ 0x80 + 0x20 * k ≤ a ∧
    a < 0x80 + 0x20 * k + 0x20

/-- **What the calls owe the streams**: after a last `stopSound` the RUN bit of the output
    stream is clear, and no call changes a byte of another stream's descriptor. -/
structure StreamsBehave (codec : HDACodec) (s : PlainState) : Prop where
  stopped : ∀ calls, ((afterCalls codec s (calls ++ [.stop])).window
    codec.m_outputDescriptor).getLsbD 1 = false
  others : ∀ calls call a, IsOtherStream codec a →
    (afterCalls codec s (calls ++ [call])).window a = (afterCalls codec s calls).window a

/-- `stopSound` stores to the first descriptor's control register. -/
theorem stopSound_window (codec : HDACodec) (s : PlainState) :
    ((stopSound codec).exec plainWindow s).2.window =
      poke s.window codec.m_inputDescriptor 4 0x00140000 := rfl

/-- `playSound` stores to its own descriptor and to the DMA position registers only. -/
theorem playSound_frame (codec : HDACodec) (length : BitVec 64) (format : StreamFormat) {a : Nat}
    (hout : a < codec.m_outputDescriptor ∨ codec.m_outputDescriptor + 0x20 ≤ a)
    (hdma : a < 0x70 ∨ 0x78 ≤ a) :
    (playSound codec length format).Avoids (MmioOp.Writes a) := by
  unfold playSound outputStreamSetDescriptorList outputStreamLength outputStreamFormat
    outputStreamTurnOn
  rw [writeReg_four getReg_dplbase rfl, writeReg_four getReg_dpubase rfl]
  simp [Mmio.write32, Mmio.store32, Mmio.print, MmioOp.Writes]
  omega

section Play

variable (codec : HDACodec) (length : BitVec 64) (format : StreamFormat) (s : PlainState)

/-- **The stores of `playSound`** to the registers and to the descriptor list, one after the
    other. -/
theorem playSound_state : ((playSound codec length format).exec plainWindow s).2 =
    { window := poke (poke (poke (poke (poke (poke (poke (poke s.window
        (codec.m_outputDescriptor + 0x18) 4 (codec.m_descriptorBuffer.setWidth 32).toNat)
        (codec.m_outputDescriptor + 0x18 + 4) 4 0)
        (codec.m_outputDescriptor + 0x0C) 4 1)
        (codec.m_outputDescriptor + 0x08) 4 (length.setWidth 32).toNat)
        (codec.m_outputDescriptor + 0x12) 4 format.m_value.toNat)
        0x70 4 (codec.m_dmaPositionBuffer ||| 1).toNat) 0x74 4 0)
        codec.m_outputDescriptor 4 0x00140002
      ram := poke (poke (poke (poke (poke (poke (poke (poke s.ram
        codec.m_descriptorBuffer.toNat 4 (codec.m_audioBuffer.setWidth 32).toNat)
        (codec.m_descriptorBuffer + 4).toNat 4 0)
        (codec.m_descriptorBuffer + 8).toNat 4 (4096 * 16))
        (codec.m_descriptorBuffer + 12).toNat 4 0)
        (codec.m_descriptorBuffer + 16).toNat 4 (codec.m_audioBuffer.setWidth 32).toNat)
        (codec.m_descriptorBuffer + 20).toNat 4 0)
        (codec.m_descriptorBuffer + 24).toNat 4 (4096 * 16))
        (codec.m_descriptorBuffer + 28).toNat 4 0 } := by
  unfold playSound outputStreamSetDescriptorList outputStreamLength outputStreamFormat
    outputStreamTurnOn
  simp only [Prog.exec_bind, exec_write32, exec_store32, exec_print,
    exec_writeReg getReg_dplbase, exec_writeReg getReg_dpubase]
  rfl

/-- The last store of `playSound` starts the stream. -/
theorem playSound_window : ∃ w, ((playSound codec length format).exec plainWindow s).2.window =
    poke w codec.m_outputDescriptor 4 0x00140002 :=
  ⟨_, congrArg PlainState.window (playSound_state codec length format s)⟩

variable (hout : 0x80 ≤ codec.m_outputDescriptor)

include hout

/-- **After `playSound` the stream's length register holds the length, cut to 32 bits.** -/
theorem playSound_length : peek ((playSound codec length format).exec plainWindow s).2.window
    (codec.m_outputDescriptor + 0x08) 4 = length.toNat % 2 ^ 32 := by
  rw [playSound_state, peek_poke_disjoint _ (.inl (by omega)),
    peek_poke_disjoint _ (.inl (by omega)), peek_poke_disjoint _ (.inl (by omega)),
    peek_poke_disjoint _ (.inr (by omega)), peek_poke_same, BitVec.toNat_setWidth]
  exact Nat.mod_mod _ _

/-- **Its format register holds the low half of the format's value.** -/
theorem playSound_format : peek ((playSound codec length format).exec plainWindow s).2.window
    (codec.m_outputDescriptor + 0x12) 2 = format.m_value.toNat % 2 ^ 16 := by
  have hlow : ∀ w : Memory, peek (poke w (codec.m_outputDescriptor + 0x12) 4 format.m_value.toNat)
      (codec.m_outputDescriptor + 0x12) 2 = format.m_value.toNat % 2 ^ 16 := by
    intro w
    have hpart := peek_poke_part w (codec.m_outputDescriptor + 0x12) 4 format.m_value.toNat 0 2
      (by decide)
    rwa [Nat.add_zero, pow_zero, Nat.div_one] at hpart
  rw [playSound_state, peek_poke_disjoint _ (.inl (by omega)),
    peek_poke_disjoint _ (.inl (by omega)), peek_poke_disjoint _ (.inl (by omega)), hlow]

end Play

/-- Without input streams the first descriptor is the output stream's: the calls behave. -/
theorem streams_behave {codec : HDACodec} (hin : codec.m_inputDescriptor = 0x80)
    (hout : codec.m_outputDescriptor = 0x80) (s : PlainState) : StreamsBehave codec s where
  stopped calls := by
    rw [afterCalls_concat]
    show (((stopSound codec).exec plainWindow _).2.window _).getLsbD 1 = false
    rw [stopSound_window, hin, hout, poke_inside (by omega) (by omega)]
    decide
  others calls call a ha := by
    obtain ⟨k, hne, hlo, hhi⟩ := ha
    rw [hout] at hne
    have hfar : 0xA0 ≤ a := by omega
    rw [afterCalls_concat]
    cases call with
    | play length format =>
        exact exec_frame (playSound_frame codec length format (by omega) (by omega))
    | stop =>
        show ((stopSound codec).exec plainWindow _).2.window a = _
        rw [stopSound_window]
        exact poke_outside (by omega)

/-- With an input stream a started stream runs on after `stopSound`. -/
theorem stop_misses {codec : HDACodec} (hin : codec.m_inputDescriptor = 0x80)
    (hout : 0xA0 ≤ codec.m_outputDescriptor) (s : PlainState) (length : BitVec 64)
    (format : StreamFormat) :
    ((afterCalls codec s [.play length format, .stop]).window
      codec.m_outputDescriptor).getLsbD 1 = true := by
  obtain ⟨w, hw⟩ := playSound_window codec length format s
  show (((stopSound codec).exec plainWindow
    ((playSound codec length format).exec plainWindow s).2).2.window _).getLsbD 1 = true
  rw [stopSound_window, hin, poke_outside (by omega), hw, poke_inside (by omega) (by omega),
    Nat.sub_self]
  decide

/-- A device that is out of reset at once and whose 16-bit registers read as `gcap`. -/
def readyDevice (gcap : BitVec 16) : (o : MmioOp) → o.Ans
  | .read8 _ => 0
  | .read16 _ => gcap
  | .read32 _ => 1
  | .write8 .. | .write16 .. | .write32 .. | .store32 .. => ()
  | .print .. => 0

/-- A reset with a ready device comes back at the first poll. -/
theorem reset_ready (codec : HDACodec) (gcap : BitVec 16) :
    (reset 1 codec).Outcome (GcapReads gcap)
      (some (setDescriptors codec (gcap.setWidth 64))) := by
  have hok : ∀ o : MmioOp, GcapReads gcap o (readyDevice gcap o) := by
    intro o
    cases o with
    | read16 => exact fun _ => rfl
    | _ => trivial
  have he : (reset 1 codec).answer (readyDevice gcap) =
      some (setDescriptors codec (gcap.setWidth 64)) := by
    simp [reset, waitReset, readReg_four getReg_gctl rfl, writeReg_four getReg_gctl rfl,
      readReg_two getReg_gcap rfl, Mmio.read32, Mmio.write32, Mmio.read16, Mmio.print, readyDevice]
  exact he ▸ Prog.outcome_of_answer hok (reset 1 codec)

/-- **Stopping stops the stream exactly when GCAP reports no input stream**: for every GCAP value
    a reset read and every window content. -/
theorem stop_stops_iff (polls : Nat) (codec codec' : HDACodec) (gcap : BitVec 16)
    (h : (reset polls codec).Outcome (GcapReads gcap) (some codec')) (s : PlainState) :
    StreamsBehave codec' s ↔ numberOfInputStreams (gcap.setWidth 64) = 0 := by
  have he := reset_outcome h
  have hin : codec'.m_inputDescriptor = 0x80 := by rw [he]; rfl
  have hout : codec'.m_outputDescriptor =
      0x80 + 0x20 * (numberOfInputStreams (gcap.setWidth 64)).toNat := by rw [he]; rfl
  refine ⟨fun hb => ?_, fun h0 => ?_⟩
  · by_contra hne
    have hpos : 0 < (numberOfInputStreams (gcap.setWidth 64)).toNat :=
      Nat.pos_of_ne_zero fun e => hne (BitVec.eq_of_toNat_eq e)
    have hrun := stop_misses hin (by omega) s 0 ⟨0⟩
    have hstop := hb.stopped [.play 0 ⟨0⟩]
    exact Bool.noConfusion (hrun.symm.trans hstop)
  · rw [h0] at hout
    exact streams_behave hin hout s

theorem stop_stops_iff_no_input :
    StreamsBehave (setDescriptors ⟨[], 0x1000, 0x2000, 0x12000, 0, 0⟩ ((0x1001#16).setWidth 64))
      ⟨fun _ => 0xFF, fun _ => 0⟩ ↔ numberOfInputStreams ((0x1001#16).setWidth 64) = 0 :=
  stop_stops_iff 1 ⟨[], 0x1000, 0x2000, 0x12000, 0, 0⟩ _ 0x1001#16 (reset_ready _ _) _

/-- Four input streams: the started output stream at 0x100 runs on after `stopSound`. -/
theorem stop_misses_four_inputs : ∃ codec',
    (reset 1 ⟨[], 0x1000, 0x2000, 0x12000, 0, 0⟩).Outcome (GcapReads 0x4401#16) (some codec') ∧
      ¬ StreamsBehave codec' ⟨fun _ => 0, fun _ => 0⟩ := by
  refine ⟨_, reset_ready _ _, fun hb => ?_⟩
  have hin : (setDescriptors ⟨[], 0x1000, 0x2000, 0x12000, 0, 0⟩
      ((0x4401#16).setWidth 64)).m_inputDescriptor = 0x80 := rfl
  have hrun := stop_misses hin (by decide) ⟨fun _ => 0, fun _ => 0⟩ 0x10000 ⟨0x11⟩
  exact Bool.noConfusion (hrun.symm.trans (hb.stopped [.play 0x10000 ⟨0x11⟩]))

end TinyOS64
