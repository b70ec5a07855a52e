/-
  File:      TinyOS64/Hda/Dump.lean
  Subject:   HDA::Widget::dump and the functions under it (hdacodec.cpp).
-/
import TinyOS64.Console.Console
import TinyOS64.Hda.Widget

namespace TinyOS64

open Interaction

/-- `JackInfo::colours`: 13 texts for 16 places, the rest are null pointers. -/
def JackInfo.colours : List (Option String) :=
  ["Unknown", "Black", "Grey", "Blue", "Green", "Red", "Orange", "Yellow", "Purple", "Pink",
    "Reserved", "White", "Other"].map some ++ List.replicate 3 none

/-- One turn of the loop of `dumpAmp`. -/
def dumpSide (m_canMute : Bool) (side : String) (m_volume : BitVec 32) (m_muted : Bool) :
    Prog Console Unit := do
  Console.print "  %s: %d" [.str (bytes side), .u32 m_volume]
  Console.printIf m_canMute " state: %s      "
    [.str (bytes (if m_muted then "MUTED" else "unmuted"))]

def dumpAmp (amp : Amp) : Prog Console Unit := do
  if amp.m_valid then
    dumpSide amp.m_canMute "left" amp.m_volume.1 amp.m_muted.1
    dumpSide amp.m_canMute "right" amp.m_volume.2 amp.m_muted.2
    Console.print "\n\r" []

/-- The bits of `supportedStreams` and their texts. -/
def supportedStreamTexts : List (Nat × String) :=
  [(0, "  8000 sps\n\r"), (1, "  11025 sps\n\r"), (2, "  16000 sps\n\r"),
   (3, "  22050 sps\n\r"), (4, "  32000 sps\n\r"), (5, "  44100 sps\n\r"),
   (6, "  48000 sps\n\r"), (7, "  88200 sps\n\r"), (8, "  96000 sps\n\r"),
   (9, "  1764000 sps\n\r"), (10, "  1920000 sps\n\r"), (11, "  3840000 sps\n\r"),
   (16, "  8-bit stream\n\r"), (17, "  16-bit stream\n\r"), (18, "  20-bit stream\n\r"),
   (19, "  24-bit stream\n\r"), (20, "  32-bit stream\n\r")]

def dumpSupportedStreams (supportedStreams : BitVec 32) : Prog Console Unit :=
  supportedStreamTexts.forM fun (bit, text) =>
    Console.printIf (supportedStreams.getLsbD bit) text []

def dumpInputAmps (w : Widget) : Prog Console Unit := do
  if w.m_hasInputAmp then
    Console.print "  input amplifiers:\n\r" []
    w.m_inputAmps.zipIdx.forM fun (amp, i) => do
      Console.print "  ch %d " [.u32 (BitVec.ofNat 32 i)]
      dumpAmp amp

def dumpOutputAmp (heading : String) (w : Widget) : Prog Console Unit := do
  if w.m_hasOutputAmp then
    Console.print heading []
    dumpAmp w.m_outputAmp

/-- The loop over a connection list. -/
def dumpNodes (m_connectionList : List (BitVec 32)) : Prog Console Unit := do
  m_connectionList.forM fun o => Console.print "%d " [.u32 o]
  Console.print "\n\r" []

def dumpConnections (w : Widget) : Prog Console Unit := do
  if w.m_connectionList.length > 0 then
    Console.print "  connected to nodes: " []
    dumpNodes w.m_connectionList

/-- What `dumpInput` and `dumpOutput` share; they differ in the heading of the output amplifier. -/
def dumpConverter (outputHeading : String) (w : Widget) : Prog Console Unit := do
  dumpInputAmps w
  dumpOutputAmp outputHeading w
  dumpConnections w
  dumpSupportedStreams w.m_supportedStreams

def dumpInput (w : Widget) : Prog Console Unit := dumpConverter "  output amplifier:\n\r" w

def dumpOutput (w : Widget) : Prog Console Unit := dumpConverter "  output amplifier: " w

def dumpMixer (w : Widget) : Prog Console Unit := do
  Console.print "  input come from nodes: " []
  dumpNodes w.m_connectionList
  dumpInputAmps w
  dumpOutputAmp "  output amplifier: " w

/-- The text of a location. -/
def Location.text : Location → String
  | Front => "    Front\n\r"
  | Rear => "    Rear\n\r"
  | Left => "    Left\n\r"
  | Right => "    Right\n\r"
  | Unknown => "    Unknown location\n\r"

/-- `colours[i]`, as the `%s` of `dumpJackInfo` needs it. -/
def colourAt (i : Nat) : Except Fault String :=
  match JackInfo.colours[i]? with
  | none => .error .outOfRange
  | some none => .error .nullString
  | some (some colour) => .ok colour

def dumpJackInfo (info : JackInfo) : ConsoleM Unit := do
  let colour ← colourAt (info.m_colour &&& 0xF).toNat
  Console.print "  Jack colour: %s\n\r" [.str (bytes colour)]
  Console.print info.m_location.text []

/-- The text of a default device. -/
def DefaultDevice.text : DefaultDevice → String
  | LineIn => "Line in\n\r"
  | LineOut => "Line out\n\r"
  | MicIn => "Mic in\n\r"
  | Speaker => "Speaker\n\r"
  | HeadphoneOut => "Headphone\n\r"
  | SPDIFin => "SPDIF in\n\r"
  | SPDIFout => "SPDIF out\n\r"
  | Unknown => "Unknown\n\r"

/-- The loop of `dumpPinComplex` over the connection list. -/
def dumpSelection (w : Widget) : Prog Console Unit := do
  if w.m_connectionList ≠ [] then
    Console.print "  connected to nodes: " []
    w.m_connectionList.zipIdx.forM fun (o, oID) =>
      Console.print (if oID = w.m_selection.toNat then "%d (selected)    " else "%d ") [.u32 o]
    Console.print "\n\r" []

def dumpPinComplex (w : Widget) : ConsoleM Unit := do
  Console.print "  Default function: " []
  Console.print w.m_defaultDevice.text []
  Console.printIf w.m_headphoneDriver "  Can drive a headphone\n\r" []
  Console.printIf w.m_inputPin "  Is an input pin\n\r" []
  Console.printIf w.m_outputPin "  Is an output pin\n\r" []
  dumpJackInfo w.m_jackInfo
  dumpSelection w

/-- `HDA::Widget::dump`. -/
def Widget.dump (w : Widget) : ConsoleM Unit := do
  Console.print "ID = %d\n\r" [.u32 w.m_ID]
  Console.printIf w.m_digital "  digital device\n\r" []
  match w.m_type with
  | .Input => Console.print "  Input\n\r" []; dumpInput w
  | .Output => Console.print "  Output\n\r" []; dumpOutput w
  | .Mixer => Console.print "  Mixer\n\r" []; dumpMixer w
  | .Selector => Console.print "  Selector\n\r" []
  | .PinComplex => Console.print "  Pin Complex\n\r" []; dumpPinComplex w
  | .BeepGen => Console.print "  Beep generator\n\r" []
  | .Vendor => Console.print "  Vendor defined\n\r" []
  | .Unknown => Console.print "  Unknown\n\r" []

end TinyOS64
