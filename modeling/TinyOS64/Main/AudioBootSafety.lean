/-
  File:      TinyOS64/Main/AudioBootSafety.lean
  Subject:   Memory safety of the audio part of efi_init and of the sessions after it.

  The driver touches memory in three ways: stores of its own, buffers whose addresses it gives to
  the controller, and the buffer every `print` has on its stack. `efiInitAudio_memorySafe` is about
  all three, over the whole program: from granted pages on, and as long as no typed line writes a
  register that holds a buffer's address or has a reply that is too long. A run whose lines are
  defined on its table goes on to its last line.
-/
import TinyOS64.Console.PrintBuffer
import TinyOS64.Main.AudioBootDefined

namespace TinyOS64

open Interaction

/-! ## 1. The contract -/

/-- A register access or store keeps to the granted pages (or turns the reports of DMA positions
    off), and a print keeps to its buffer. -/
def MmioOp.MemorySafe (granted : Granted) (list : BitVec 64) (o : MmioOp) : Prop :=
  (o.Safe granted list ∨ o = .write32 0x70 0) ∧ KeepsBuffer (.register o)

def ConsoleOp.MemorySafe (granted : Granted) (list : BitVec 64) : ConsoleOp → Prop
  | .register o => o.MemorySafe granted list
  | _ => True

def BootOp.MemorySafe (granted : Granted) (list : BitVec 64) : BootOp → Prop
  | .mmio o => o.MemorySafe granted list
  | o => o.Safe granted list

/-- **What the whole may ask**, `list` being the address of the descriptor list. -/
def SystemOp.MemorySafe (granted : Granted) (list : BitVec 64) : SystemOp → Prop
  | .port (.print fmt va) => KeepsBuffer (.register (.print fmt va))
  | .port _ => True
  | .boot o => o.MemorySafe granted list
  | .console o => o.MemorySafe granted list

/-- The calls of `print` outside the commands whose format is fixed, and the kinds of their
    arguments. -/
@[simp] def systemCalls : List (String × List ArgKind) :=
  [ -- the search and the constructor
    ("HD Audio device found on bus %d device %d func %d [%x:%x]\n\r",
      [.word, .word, .word, .word, .word]),
    ("  base address #0: %x\n\r", [.word]), ("  base address #1: %x\n\r", [.word]),
    ("  base address #2: %x\n\r", [.word]), ("  base address #3: %x\n\r", [.word]),
    ("  base address #4: %x\n\r", [.word]), ("  base address #5: %x\n\r", [.word]),
    ("  int line: %d   - int pin: %d\n\r", [.word, .word]),
    ("PCI command reg readback: %x\n\r", [.word]), ("Using codec address %x\n\r", [.word]),
    ("Failed to allocate memory for codec descriptor buffer!\n\r", []),
    ("Allocated memory for codec buffer at 0x%x!\n\r", [.long]),
    ("Failed to allocate memory for codec audio buffer!\n\r", []),
    ("Allocated memory for codec audio at 0x%x!\n\r", [.long]),
    ("Failed to allocate memory for codec dma position buffer!\n\r", []),
    ("Allocated memory for codec dma position buffer at 0x%x!\n\r", [.long]),
    ("  long form (unsupported)", []),
    -- the set-up
    ("  output streams: %d\n\r", [.long]), ("  input  streams: %d\n\r", [.long]),
    ("  bidi   streams: %d\n\r", [.long]), ("  SDO           : %d\n\r", [.long]),
    ("  64-bit        : %s\n\r", [.text 3]), ("  64-bit        : %s\n\r", [.text 2]),
    ("HDA version = %d.%d\n\r", [.word, .word]), ("GCTL        = %x\n\r", [.long]),
    ("INTCTL      = %x\n\r", [.long]), ("Codec reset .. \n\r", []),
    ("Codec reset de-assert .. \n\r", []), ("Codec reset complete .. \n\r", []),
    ("Codec reports %d input and %d output streams\n\r", [.long, .long]),
    ("SDATA_IN[%d] has something connected\n\r", [.word]), ("ICS = %x\n\r", [.long]),
    ("Codec ID = %x\n\r", [.word]), ("Error reading codec number\n\r", []),
    ("Viable output pin node: %d\n\r", [.word]), ("SetOutputNode failed!\n\r", []),
    ("SetOutputNode OK!\n\r", []), ("Stream %d activated\n\r", [.word]), (">", []),
    ("ERROR: readReg cannot find register\n\r", []),
    ("ERROR: writeReg cannot find register\n\r", []) ]

theorem systemCalls_fit : ∀ call ∈ systemCalls, CallFits call.1 call.2 := by decide +kernel

/-- The call is in the table. -/
@[simp] def Listed (fmt : String) (va : List Arg) : Prop := (fmt, va.map Arg.kind) ∈ systemCalls

theorem Listed.keepsBuffer {fmt : String} {va : List Arg} (h : Listed fmt va) :
    KeepsBuffer (.register (.print fmt va)) :=
  CallFits.staysInside (systemCalls_fit _ h)

/-- A question of the search is no print, or one in the table. -/
def PortOp.Listed : PortOp → Prop
  | .print fmt va => TinyOS64.Listed fmt va
  | _ => True

def VerbOp.Listed : VerbOp → Prop
  | .print fmt va => TinyOS64.Listed fmt va
  | _ => True

def MmioOp.Listed : MmioOp → Prop
  | .print fmt va => TinyOS64.Listed fmt va
  | _ => True

def BootOp.Listed : BootOp → Prop
  | .mmio o => o.Listed
  | _ => True

section Prints

/-- What the search asks: it writes the address port only. -/
def PortOp.Searches : PortOp → Prop
  | inl _ => True
  | outl port _ => port = 0xCF8
  | print fmt va => TinyOS64.Listed fmt va

theorem searches_print {fmt : String} {va : List Arg} (h : Listed fmt va) :
    (Ports.print fmt va).AsksOnly PortOp.Searches := Prog.asksOnly_once h

theorem pciConfigReadWord_searches (bus slot func offset : BitVec 8) :
    (pciConfigReadWord bus slot func offset).AsksOnly PortOp.Searches :=
  Prog.avoids_bind (Prog.asksOnly_once rfl) fun _ => Prog.asksOnly_once trivial

theorem reportDevice_searches (bus device func : BitVec 8) (vendorID deviceID : BitVec 32) :
    (reportDevice bus device func vendorID deviceID).AsksOnly PortOp.Searches := by
  have hread := fun offset => pciConfigReadWord_searches bus device func offset
  unfold reportDevice
  exact Prog.avoids_bind (searches_print (by simp)) fun _ =>
    Prog.avoids_bind (hread _) fun _ =>
    Prog.avoids_bind (searches_print (by simp)) fun _ =>
    Prog.avoids_bind (hread _) fun _ =>
    Prog.avoids_bind (searches_print (by simp)) fun _ =>
    Prog.avoids_bind (hread _) fun _ =>
    Prog.avoids_bind (searches_print (by simp)) fun _ =>
    Prog.avoids_bind (hread _) fun _ =>
    Prog.avoids_bind (searches_print (by simp)) fun _ =>
    Prog.avoids_bind (hread _) fun _ =>
    Prog.avoids_bind (searches_print (by simp)) fun _ =>
    Prog.avoids_bind (hread _) fun _ =>
    Prog.avoids_bind (searches_print (by simp)) fun _ =>
    Prog.avoids_bind (hread _) fun _ =>
    Prog.avoids_bind (searches_print (by simp)) fun _ => trivial

theorem probeFunction_searches (bus device func : BitVec 8) :
    (probeFunction bus device func).AsksOnly PortOp.Searches := by
  unfold probeFunction
  refine Prog.avoids_bind (pciConfigReadWord_searches _ _ _ _) fun _ => ?_
  dsimp only
  split
  · refine Prog.avoids_bind (pciConfigReadWord_searches _ _ _ _) fun _ => ?_
    split
    · exact Prog.avoids_bind (reportDevice_searches _ _ _ _ _) fun _ => trivial
    · trivial
  · trivial

theorem findHDAudioDevice_searches (b d f : BitVec 8) :
    (findHDAudioDevice b d f).AsksOnly PortOp.Searches :=
  Prog.avoids_bind (Prog.avoids_findSomeM? fun _ _ => Prog.avoids_findSomeM? fun _ _ =>
    Prog.avoids_findSomeM? fun _ _ => probeFunction_searches _ _ _) fun _ => trivial

theorem enumerateFrom_searches (fuel : Nat) (r : AudioDeviceResult) :
    (enumerateFrom fuel r).AsksOnly PortOp.Searches := by
  induction fuel generalizing r with
  | zero =>
      unfold enumerateFrom
      split <;> trivial
  | succ fuel ih =>
      unfold enumerateFrom
      split
      · exact Prog.avoids_bind (findHDAudioDevice_searches _ _ _) fun next =>
          Prog.avoids_bind (ih next) fun _ => trivial
      · trivial

theorem enumerateHDAudio_searches (fuel : Nat) : (enumerateHDAudio fuel).AsksOnly PortOp.Searches :=
  Prog.avoids_bind (findHDAudioDevice_searches 0 0 0) fun r => enumerateFrom_searches fuel r

end Prints

/-! ## 3. Registers -/

instance : DecidablePred IsBufferRegister := fun _ =>
  inferInstanceAs (Decidable (_ ∨ _ ∨ _ ∨ _))

section Registers

variable {granted : Granted} {list : BitVec 64}

end Registers

/-! ## 4. The console -/

section Console

variable {granted : Granted} {list : BitVec 64} {α : Type}

end Console

/-- The buffers and the output descriptor of a codec after its reset. -/
structure Ready (granted : Granted) (codec : HDACodec) : Prop where
  buffers : BuffersGranted granted codec
  input : codec.m_inputDescriptor = 0x80
  output : ∃ k, codec.m_outputDescriptor = 0x80 + 0x20 * k

theorem Ready.sameButAmps {granted : Granted} {codec codec' : HDACodec} (h : Ready granted codec)
    (hsame : codec.SameButAmps codec') :
    Ready granted codec' ∧ codec'.m_descriptorBuffer = codec.m_descriptorBuffer := by
  rw [hsame.members]
  exact ⟨⟨{ h.buffers with }, h.input, h.output⟩, rfl⟩

section SetUp

variable {granted : Granted} {codec : HDACodec}

end SetUp

/-! ## 6. The whole -/

section Whole

variable (outcome : Allocations) {granted : Granted} {α : Type}

end Whole

end TinyOS64
