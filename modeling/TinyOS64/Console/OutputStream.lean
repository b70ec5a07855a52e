/-
  File:      TinyOS64/Console/OutputStream.lean
  Subject:   The named output-stream registers and the stream the driver plays on.

  The `osdn` rows of `regs` are at fixed offsets from 0x100; the driver writes at the descriptor
  offset `reset` computed from GCAP. `playpos` and `read osdnlpib` are used side by side on the
  console, and are about one stream with four input streams only (`names_output_iff`).
-/
import TinyOS64.Console.RegisterCommands

namespace TinyOS64

open Interaction ByteMemory

/-! ## 1. What the two sides owe each other -/

/-- **The named output-stream registers are those of the driver's output stream**: `playpos`
    prints what `osdnlpib` reads as, and after `playSound` the registers `osdncbl` and `osdnfmt`
    read as the length and the format it was given. -/
structure NamesOutputStream (codec : HDACodec) (s : PlainState) : Prop where
  playpos : ∀ mem params,
    printedLines ((cmdPlayPos mem codec params).run.asks plainConsole s) =
      [("  $%x\n\r", [.u64 ((readReg (bytes "osdnlpib")).exec plainWindow s).1])]
  length : ∀ length format, ((readReg (bytes "osdncbl")).exec plainWindow
    ((playSound codec length format).exec plainWindow s).2).1 = (length.setWidth 32).setWidth 64
  format : ∀ length format, ((readReg (bytes "osdnfmt")).exec plainWindow
    ((playSound codec length format).exec plainWindow s).2).1 =
      (format.m_value.setWidth 16).setWidth 64

theorem getReg_osdnlpib : getReg (bytes "osdnlpib") = some ⟨0x104, 4, "osdnlpib"⟩ :=
  getReg_name (r := ⟨0x104, 4, "osdnlpib"⟩) (by decide)
theorem getReg_osdncbl : getReg (bytes "osdncbl") = some ⟨0x108, 4, "osdncbl"⟩ :=
  getReg_name (r := ⟨0x108, 4, "osdncbl"⟩) (by decide)
theorem getReg_osdnfmt : getReg (bytes "osdnfmt") = some ⟨0x112, 2, "osdnfmt"⟩ :=
  getReg_name (r := ⟨0x112, 2, "osdnfmt"⟩) (by decide)

/-! ## 2. The driver's side -/

section Driver

variable (codec : HDACodec) (s : PlainState)

theorem playpos_prints (mem : List Byte) (params : View) :
    printedLines ((cmdPlayPos mem codec params).run.asks plainConsole s) =
      [("  $%x\n\r", [.u64 ((BitVec.ofNat 32
        (peek s.window (codec.m_outputDescriptor + 0x04) 4)).setWidth 64)])] := rfl

end Driver

/-! ## 3. When the two are one stream -/

section Names

variable {codec : HDACodec} (s : PlainState)

/-- A register that holds a value cut to `k` bits reads as that. -/
theorem readReg_of_peek {s : PlainState} {regname : List Byte} {r : RegDef} {n k : Nat}
    {v : BitVec n} (hget : getReg regname = some r)
    (h : peek s.window r.offset r.width = v.toNat % 2 ^ k) :
    ((readReg regname).exec plainWindow s).1 = (v.setWidth k).setWidth 64 := by
  rw [exec_readReg hget]
  refine BitVec.eq_of_toNat_eq ?_
  dsimp only
  rw [h, BitVec.toNat_ofNat, BitVec.toNat_setWidth, BitVec.toNat_setWidth]

/-- At 0x100 the driver's stream is the named one. -/
theorem names_output (hout : codec.m_outputDescriptor = 0x100) : NamesOutputStream codec s where
  playpos mem params := by
    rw [playpos_prints, exec_readReg getReg_osdnlpib, hout]
    exact congrArg (fun v => [("  $%x\n\r", [Arg.u64 v])]) (widen_peek s.window 0x104 4)
  length length format := by
    have hlen := playSound_length codec length format s (by omega)
    rw [hout] at hlen
    exact readReg_of_peek getReg_osdncbl hlen
  format length format := by
    have hfmt := playSound_format codec length format s (by omega)
    rw [hout] at hfmt
    exact readReg_of_peek getReg_osdnfmt hfmt

/-- Elsewhere `playSound` does not reach the named length register. -/
theorem names_other (hout : codec.m_outputDescriptor + 0x20 ≤ 0x100 ∨
    0x120 ≤ codec.m_outputDescriptor) : ¬ NamesOutputStream codec s := by
  intro h
  have hkept : ∀ length format,
      peek ((playSound codec length format).exec plainWindow s).2.window 0x108 4 =
        peek s.window 0x108 4 := by
    intro length format
    refine peek_congr fun a hlo hhi => exec_frame (playSound_frame codec length format ?_ ?_)
    · omega
    · omega
  have hzero := h.length 0 ⟨0⟩
  have hone := h.length 1 ⟨0⟩
  rw [exec_readReg getReg_osdncbl] at hzero hone
  dsimp only at hzero hone
  rw [hkept] at hzero hone
  rw [hzero] at hone
  exact absurd hone (by decide)

end Names

/-- **The named output-stream registers are the driver's exactly when GCAP reports four input
    streams**: for every GCAP value a reset read and every window content. -/
theorem names_output_iff (polls : Nat) (codec codec' : HDACodec) (gcap : BitVec 16)
    (h : (reset polls codec).Outcome (GcapReads gcap) (some codec')) (s : PlainState) :
    NamesOutputStream codec' s ↔ numberOfInputStreams (gcap.setWidth 64) = 4 := by
  have hout : codec'.m_outputDescriptor =
      0x80 + 0x20 * (numberOfInputStreams (gcap.setWidth 64)).toNat := by
    rw [reset_outcome h]
    rfl
  refine ⟨fun hn => ?_, fun hfour => ?_⟩
  · by_contra hne
    have hne' : (numberOfInputStreams (gcap.setWidth 64)).toNat ≠ 4 :=
      fun e => hne (BitVec.eq_of_toNat_eq e)
    exact names_other s (by omega) hn
  · rw [hfour] at hout
    exact names_output s hout

theorem names_output_iff_four :
    NamesOutputStream (setDescriptors ⟨[], 0x1000, 0x2000, 0x12000, 0, 0⟩ ((0x4401#16).setWidth 64))
      ⟨fun _ => 0xFF, fun _ => 0⟩ :=
  (names_output_iff 1 ⟨[], 0x1000, 0x2000, 0x12000, 0, 0⟩ _ 0x4401#16 (reset_ready _ _) _).mpr
    (by decide)

/-- One input stream: the driver plays on the stream at 0xA0. -/
theorem names_output_one_input : ∃ codec',
    (reset 1 ⟨[], 0x1000, 0x2000, 0x12000, 0, 0⟩).Outcome (GcapReads 0x1101#16) (some codec') ∧
      ¬ NamesOutputStream codec' ⟨fun _ => 0, fun _ => 0⟩ :=
  ⟨_, reset_ready _ _, names_other _ (by decide)⟩

end TinyOS64
