/-
  File:      TinyOS64/Main/AudioBoot.lean
  Subject:   The audio part of efi_init (main.cpp), from the search to the typed lines.

  The part is compiled out in main.cpp. `setUpAudio` is what it does with a constructed codec up
  to the prompt; `efiInitAudio` is the whole, from the search for the controller to the lines
  typed at the prompt, its verbs as accesses to the controller's registers.
-/
import TinyOS64.Console.OnRegisters
import TinyOS64.Hda.BootSafety
import TinyOS64.Pci.FindAudio

namespace TinyOS64

open Interaction

/-! ## 1. What is shown and turned off -/

/-- The fields of GCAP, the version and two registers. -/
def showController : Prog Mmio Unit := do
  let gcap ← readReg (bytes "gcap")
  let has64 := gcap &&& 0x1
  let _ ← Mmio.print "  output streams: %d\n\r" [.u64 ((gcap >>> 12) &&& 0xF)]
  let _ ← Mmio.print "  input  streams: %d\n\r" [.u64 ((gcap >>> 8) &&& 0xF)]
  let _ ← Mmio.print "  bidi   streams: %d\n\r" [.u64 ((gcap >>> 3) &&& 0x1F)]
  let _ ← Mmio.print "  SDO           : %d\n\r" [.u64 ((gcap >>> 1) &&& 0x3)]
  let _ ← Mmio.print "  64-bit        : %s\n\r" [.str (bytes (if has64 ≠ 0 then "YES" else "NO"))]
  let major ← Mmio.read8 0x03
  let minor ← Mmio.read8 0x02
  let _ ← Mmio.print "HDA version = %d.%d\n\r" [.u32 (major.setWidth 32), .u32 (minor.setWidth 32)]
  let _ ← Mmio.print "GCTL        = %x\n\r" [.u64 (← readReg (bytes "gctl"))]
  let _ ← Mmio.print "INTCTL      = %x\n\r" [.u64 (← readReg (bytes "intctl"))]

def disableInterrupt : Prog Mmio Unit := do
  let _ ← writeReg (bytes "intctl") 0

def turnOffCorbRirbDmapos : Prog Mmio Unit := do
  let _ ← writeReg (bytes "corbrp") 0
  let _ ← writeReg (bytes "rirbctl") 0
  let _ ← writeReg (bytes "dplbase") 0

/-- The loop over the bits of STATESTS. -/
def showConnected (statests : BitVec 64) : Prog Mmio Unit :=
  (List.range 15).forM fun bit => do
    if (statests >>> bit) &&& 0x01 = 1 then
      let _ ← Mmio.print "SDATA_IN[%d] has something connected\n\r" [.u32 (BitVec.ofNat 32 bit)]

def showCodecID : Prog Verbs Unit := do
  match ← Verbs.ask 0 0 0xF00 0 with
  | some codecID =>
    let _ ← Verbs.print "Codec ID = %x\n\r" [.u32 codecID]
  | none =>
    let _ ← Verbs.print "Error reading codec number\n\r" []

/-- The loop that looks for output pins with a jack. -/
def showViablePins (m_widgets : List Widget) : Prog Console Unit :=
  m_widgets.forM fun widget =>
    if widget.m_type ≠ .PinComplex then pure ()
    else if widget.m_defaultDevice ≠ .LineOut ∧ widget.m_defaultDevice ≠ .HeadphoneOut then pure ()
    else if !widget.m_outputPin then pure ()
    else Console.print "Viable output pin node: %d\n\r" [.u32 widget.m_ID]

/-- The report on `setOutputNode`. -/
def reportOutputNode (ok : Bool) : Prog Console Unit :=
  if !ok then Console.print "SetOutputNode failed!\n\r" []
  else Console.print "SetOutputNode OK!\n\r" []

/-- The report on the format the output node had. -/
def reportOldFormat : Option StreamFormat → Prog Console Unit
  | some sf => Console.print "Old output node stream format: sr=%s bits=%s\n\r"
      [.str (bytes sf.getSampleRate.toString), .str (bytes sf.getBitDepth.toString)]
  | none => pure ()

/-! ## 2. The set-up -/

/-- `streamFormat`: 48 kHz, 16 bits, two channels. -/
def streamFormat : StreamFormat :=
  (StreamFormat.set ⟨0⟩ SampleRate.R48000.value BitDepth.B16.value 2).2

/-- `commands.execute` on a string literal. -/
def executeLiteral (polls : Nat) (line : String) (codec : HDACodec) : ConsoleM HDACodec := do
  let (_, codec) ← execute polls (lineMemory (bytes line)) codec ⟨some 0, (bytes line).length⟩
  pure codec

/-- The controller, from the reset to the list of viable pins. -/
def showAudio (codec : HDACodec) : Prog Console Unit := do
  disableInterrupt
  turnOffCorbRirbDmapos
  outputStreamTurnOff codec
  let statests ← readReg (bytes "statests")
  showConnected statests
  let ics ← readReg (bytes "ics")
  Console.print "ICS = %x\n\r" [.u64 ics]
  showCodecID
  showViablePins codec.m_widgets

/-- The two commands, and then the sound. -/
def unmuteAndPlay (polls : Nat) (codec : HDACodec) : ConsoleM HDACodec := do
  let codec ← executeLiteral polls "unmute 12 0" codec
  let codec ← executeLiteral polls "unmute 27 0" codec
  playSound codec (16 * 4096) streamFormat
  pure codec

/-- The output stream and the nodes on its way: the converter 2 and the pin 27. -/
def setUpOutput (polls : Nat) (codec : HDACodec) : ConsoleM HDACodec := do
  reportOutputNode (← setOutputNode 2)
  outputStreamSetDescriptorList codec
  outputStreamLength codec (16 * 4096)
  outputStreamFormat codec streamFormat
  let _ ← enablePinWidget (← widgetAt codec 27)
  let outputNode ← widgetAt codec 2
  reportOldFormat (← getIOWidgetFormat outputNode)
  let _ ← setIOWidgetFormat outputNode streamFormat
  unmuteAndPlay polls codec

/-- From a constructed codec to the prompt; `none` when the reset has not come back. -/
def setUpAudio (polls : Nat) (codec : HDACodec) : ConsoleM (Option HDACodec) := do
  showController
  let _ ← writeReg (bytes "wakeen") 0x7F
  match ← reset polls codec with
  | none => pure none
  | some codec =>
    showAudio codec
    let codec ← setUpOutput polls codec
    Console.print ">" []
    pure (some codec)

/-! ## 3. The whole -/

/-- The questions of the whole. -/
inductive SystemOp where
  | port (o : PortOp)
  | boot (o : BootOp)
  | console (o : ConsoleOp)

@[reducible] def SystemOp.Ans : SystemOp → Type
  | port o => o.Ans
  | boot o => o.Ans
  | console o => o.Ans

/-- The signature of the whole. -/
@[reducible] def System : Sig := ⟨SystemOp, SystemOp.Ans⟩

namespace System

def onPort (o : PortOp) : Prog System o.Ans := .ask (S := System) (.port o) .ret
def onBoot (o : BootOp) : Prog System o.Ans := .ask (S := System) (.boot o) .ret

/-- A question of the console, its verbs as register accesses. -/
def onConsole (o : ConsoleOp) : Prog System o.Ans :=
  o.onRegisters.lower fun o => .ask (S := System) (.console o) .ret

end System

/-- The set-up, and the lines typed at the prompt. -/
def runAudio (polls : Nat) (lines : List (List Byte)) (codec : HDACodec) : ConsoleM Unit := do
  match ← setUpAudio polls codec with
  | none => pure ()
  | some codec =>
    let _ ← runLines polls lines codec

/-- What does not come from the program: how long its waits may be, what its variables hold
    before they are set, and the lines that are typed. -/
structure BootInput where
  polls : Nat
  audioDevice : AudioDeviceResult
  input : Nat
  output : Nat
  lines : List (List Byte)

/-- **The audio part of `efi_init`**: it uses the last controller the search reports. Without one
    `audioDevice` is what it happens to hold. -/
def efiInitAudio (boot : BootInput) : Prog System (Except Fault Unit) := do
  match ← (enumerateHDAudio boot.polls).lower System.onPort with
  | none => pure (.ok ())
  | some found =>
    let audioDevice := found.getLast?.getD boot.audioDevice
    (setPCICommandReg audioDevice.m_bus audioDevice.m_device audioDevice.m_func 0x0406).lower
      System.onPort
    let _ ← System.onPort (.print "Using codec address %x\n\r" [.u32 audioDevice.m_address])
    let codec ← (constructHDACodec boot.input boot.output).lower System.onBoot
    (runAudio boot.polls boot.lines codec).run.lower System.onConsole

end TinyOS64
