/-
  File:      TinyOS64/Console/Commands.lean
  Subject:   The command handlers and Commands::execute (commands.cpp).

  A handler gets the memory of the line, the codec and the view behind the command's name. It
  returns what the source returns, with the codec as it leaves it; only `refresh` changes it.
-/
import TinyOS64.Hda.Control
import TinyOS64.Hda.Dump
import TinyOS64.Hda.Refresh
import TinyOS64.Hda.Stream
import TinyOS64.Hda.StreamFormat

namespace TinyOS64

open Interaction

/-! ## 1. The codec's side -/

/-- `m_widgets[id]`, not checked by the source. -/
def widgetAt (codec : HDACodec) (id : BitVec 64) : Except Fault Widget :=
  match codec.m_widgets[id.toNat]? with
  | none => .error .outOfRange
  | some w => .ok w

/-! ## 2. The handlers -/

/-- `commandPrototype`, over the memory of the line. -/
abbrev CommandPrototype := List Byte → HDACodec → View → ConsoleM (Bool × HDACodec)

def cmdReadCodecRegister : CommandPrototype := fun mem codec params => do
  let regname ← findNextParam mem params
  let result ← readReg (← regname.m_param.text mem)
  Console.print "%s = $%x\n\r" [.str (← regname.m_param.cString mem), .u64 result]
  pure (true, codec)

def cmdWriteCodecRegister : CommandPrototype := fun mem codec params => do
  let regname ← findNextParam mem params
  let regvalue ← findNextParam mem regname.m_remainder
  match ← valueFromStr mem regvalue.m_param with
  | some value =>
    Console.print "%s <= $%x\n\r" [.str (← regname.m_param.cString mem), .u64 value]
    let written ← writeReg (← regname.m_param.text mem) value
    pure (written, codec)
  | none =>
    Console.print "Invalid value\n\r" []
    pure (false, codec)

def cmdDisplayNode : CommandPrototype := fun mem codec params => do
  let widgetParam ← findNextParam mem params
  match ← valueFromStr mem widgetParam.m_param with
  | some id =>
    match codec.m_widgets[id.toNat]? with
    | some w =>
      w.dump
      pure (true, codec)
    | none =>
      Console.print "ERROR: ID out of range\n\r" []
      pure (false, codec)
  | none =>
    Console.print "Parameter error\n\r" []
    pure (false, codec)

/-- `gainSetting` of `cmdUnmute`. -/
def gainSetting (w : Widget) : BitVec 32 :=
  if w.m_outputAmp.m_valid then w.m_outputAmp.m_0dBSetting
  else
    match w.m_inputAmps with
    | amp :: _ => amp.m_0dBSetting
    | [] => 0x7F

def cmdUnmute : CommandPrototype := fun mem codec params => do
  let widgetParam ← findNextParam mem params
  let widgetID := (← valueFromStr mem widgetParam.m_param).getD 0
  let channelParam ← findNextParam mem widgetParam.m_remainder
  let channel := (← valueFromStr mem channelParam.m_param).getD 0
  let gain := gainSetting (← widgetAt codec widgetID)
  Console.print "Unmuting channel %d on node %d (gain = %d)\n\r"
    [.u64 channel, .u64 widgetID, .u32 gain]
  let _ ← Verbs.ask 0 (widgetID.setWidth 32) 0x0300
    (0x7000 ||| (((channel &&& 0xF) <<< 8).setWidth 32) ||| gain)
  let _ ← Verbs.ask 0 (widgetID.setWidth 32) 0x0300 (0xB000 ||| gain)
  pure (true, codec)

/-- The handler around `cmdRefresh`'s loop. -/
def cmdRefreshCodec : CommandPrototype := fun _ codec _ => do
  let m_widgets ← cmdRefresh codec.m_widgets
  pure (true, { codec with m_widgets := m_widgets })

/-- The reply of `cmdNodeIO`. -/
def printResponse : Option (BitVec 32) → Prog Console Unit
  | some result => Console.print "  retuned: %x\n\r" [.u32 result]
  | none => Console.print "  ** no response! **\n\r" []

def cmdNodeIO : CommandPrototype := fun mem codec params => do
  let widgetParam ← findNextParam mem params
  let widgetID := (← valueFromStr mem widgetParam.m_param).getD 0
  let verbParam ← findNextParam mem widgetParam.m_remainder
  let verb := (← valueFromStr mem verbParam.m_param).getD 0
  let payloadParam ← findNextParam mem verbParam.m_remainder
  let payload := (← valueFromStr mem payloadParam.m_param).getD 0
  Console.print "NodeIO: %d verb: %x  payload %x\n\r" [.u64 widgetID, .u64 verb, .u64 payload]
  let result ← Verbs.ask 0 (widgetID.setWidth 32) (verb.setWidth 32) (payload.setWidth 32)
  printResponse result
  pure (true, codec)

def cmdGetFormat : CommandPrototype := fun mem codec params => do
  let widgetParam ← findNextParam mem params
  match ← valueFromStr mem widgetParam.m_param with
  | some id =>
    match codec.m_widgets[id.toNat]? with
    | some w =>
      match ← getIOWidgetFormat w with
      | some f =>
        Console.print "  format: sr=%s bits=%s channels=%d\n\r"
          [.str (bytes f.getSampleRate.toString), .str (bytes f.getBitDepth.toString),
            .u32 f.getChannels]
        pure (true, codec)
      | none =>
        Console.print "Cannot get format \n\r" []
        pure (false, codec)
    | none =>
      Console.print "Node ID out of range\n\r" []
      pure (false, codec)
  | none => pure (false, codec)

def cmdPlayPos : CommandPrototype := fun _ codec _ => do
  let playPos ← getPlayPos codec
  Console.print "  $%x\n\r" [.u64 playPos]
  pure (true, codec)

/-- The `while(offset < 40)` loop of `cmdShowVideo` and its like: `print(" ")` up to a column. -/
def printSpaces (column chars : Nat) : Prog Console Unit :=
  (List.range (column - chars)).forM fun _ => Console.print " " []

/-- One turn of the loop of `cmdShowVideo`; `offset` is the column reached. -/
def showMode (offset modeIdx : Nat) : Prog Console Nat := do
  let offset ← if modeIdx % 2 = 0 then do
      Console.print "\n\r" []
      pure 2
    else do
      printSpaces 40 offset
      pure (max offset 40)
  let (modeWidth, modeHeight) ← Console.ask (.queryGraphics (BitVec.ofNat 32 modeIdx))
  let fmt := if modeIdx < 10 then "mode  %d -> x=%d  y=%d        "
    else "mode %d -> x=%d  y=%d        "
  let chars ← Console.printed fmt
    [.u64 (BitVec.ofNat 64 modeIdx), .u32 modeWidth, .u32 modeHeight]
  pure (offset + chars)

def showModes (maxMode : BitVec 32) : Prog Console Nat :=
  (List.range maxMode.toNat).foldlM showMode 0

/-- `*gop->Mode`, not checked by the last access of `cmdShowVideo`. -/
def derefMode : Option GraphicsMode → Except Fault GraphicsMode
  | none => .error .nullPointer
  | some mode => .ok mode

def cmdShowVideo : CommandPrototype := fun _ codec _ => do
  Console.print "Video modes:\n\r" []
  let (status, mode) ← Console.ask .locateGraphics
  if status ≠ 0 then
    Console.print "Cannot access UEFI graphics protocol\n\r" []
    pure (false, codec)
  else
    let current := mode.getD ⟨0, 0, 0, 0⟩
    Console.print "Current video mode is %d\n\r" [.u32 current.m_mode]
    Console.print "Frame buffer address  %X\n\r" [.u64 current.m_frameBufferBase]
    Console.print "Frame buffer size     %d bytes\n\r" [.u64 current.m_frameBufferSize]
    Console.print "Available modes: %d\n\r" [.u32 (← derefMode mode).m_maxMode]
    let _ ← showModes current.m_maxMode
    Console.print "\n\r" []
    pure (true, codec)

/-- The loop of `cmdShowText`, which ends at the first mode that cannot be queried. -/
def showTextModes : Nat → BitVec 64 → ConsoleM Unit
  | 0, _ => throw .unfinished
  | polls + 1, mode => do
    let (status, cols, rows) ← Console.ask (.queryMode mode)
    if status = 0 then
      Console.print "  mode: %d   rows=%d  cols=%d\n\r" [.u64 mode, .u64 cols, .u64 rows]
      showTextModes polls (mode + 1)

def cmdShowText (polls : Nat) : CommandPrototype := fun _ codec _ => do
  Console.print "Text modes:\n\r" []
  showTextModes polls 0
  pure (true, codec)

def cmdSetTextMode : CommandPrototype := fun mem codec params => do
  let modeParam ← findNextParam mem params
  match ← valueFromStr mem modeParam.m_param with
  | some modeID =>
    let status ← Console.ask (.setMode modeID)
    pure (status == 0, codec)
  | none => pure (false, codec)

/-- One turn of the loop of `cmdReadMem`. The address shown is `address + offset*4` with the
    product taken in 32 bits; the one read is that of `mem[offset]`. -/
def showWord (address : BitVec 64) (offset : Nat) : Prog Console Unit := do
  if offset % 4 = 0 then
    Console.print "$%x : " [.u64 (address + (BitVec.ofNat 32 offset * 4).setWidth 64)]
  let word ← Console.ask (.load32 (address + BitVec.ofNat 64 (4 * offset)))
  Console.print "$%x  " [.u32 word]
  if (offset + 1) % 4 = 0 then Console.print "\n\r" []

def showWords (address : BitVec 64) (words : BitVec 32) : Prog Console Unit :=
  (List.range words.toNat).forM (showWord address)

def cmdReadMem : CommandPrototype := fun mem codec params => do
  let addrParam ← findNextParam mem params
  let addr ← valueFromStr mem addrParam.m_param
  let lenParam ← findNextParam mem addrParam.m_remainder
  let len ← valueFromStr mem lenParam.m_param
  match addr with
  | none => pure (false, codec)
  | some address =>
    showWords address ((len.getD 1).setWidth 32)
    Console.print "\n\r" []
    pure (true, codec)

/-- The loop of `cmdTest` over the parameters, with a bound on its turns. -/
def testParams (mem : List Byte) : Nat → ParamResult → Nat → ConsoleM Nat
  | 0, _, _ => throw .unfinished
  | turns + 1, r, paramcount =>
    if r.m_param.size > 0 then do
      Console.print "'" []
      (← r.m_param.text mem).forM fun c => Console.print "%c" [.u32 (c.signExtend 32)]
      Console.print "' " []
      let r ← findNextParam mem r.m_remainder
      testParams mem turns r (paramcount + 1)
    else pure paramcount

/-- `cmdTest`, which is in no table. -/
def cmdTest (turns : Nat) : CommandPrototype := fun mem codec params => do
  Console.print "TEST! " []
  let r ← findNextParam mem params
  let paramcount ← testParams mem turns r 0
  Console.print "\n\r  param count = %d\n\r" [.u64 (BitVec.ofNat 64 paramcount)]
  pure (true, codec)

/-! ## 3. The table -/

/-- The rows of `g_commands`. -/
inductive Command where
  | read | write | node | unmute | refresh | nodeio | getformat | playpos | showvideo | showtext
  | settextmode | rdmem | help
  deriving DecidableEq, Repr

namespace Command

def name : Command → String
  | read => "read"
  | write => "write"
  | node => "node"
  | unmute => "unmute"
  | refresh => "refresh"
  | nodeio => "nodeio"
  | getformat => "getformat"
  | playpos => "playpos"
  | showvideo => "showvideo"
  | showtext => "showtext"
  | settextmode => "settextmode"
  | rdmem => "rdmem"
  | help => "help"

def description : Command → String
  | read => "Read codec register (reg name)"
  | write => "Write codec register (reg name, data)"
  | node => "Display codec node information (nodeId)"
  | unmute => "Unmute a node (nodeId)"
  | refresh => "Update internal node database"
  | nodeio => "Write a verb/command to a node (nodeId, verb, payload)"
  | getformat => "Get the stream format for input/output nodes (nodeId)"
  | playpos => "Get the current play position"
  | showvideo => "Show available video modes"
  | showtext => "Show available text modes"
  | settextmode => "Set text mode by id (mode id)"
  | rdmem => "Read memory address (addr [, length])"
  | help => "Show this list"

end Command

def g_commands : List Command :=
  [.read, .write, .node, .unmute, .refresh, .nodeio, .getformat, .playpos, .showvideo, .showtext,
    .settextmode, .rdmem, .help]

def cmdHelp : CommandPrototype := fun _ codec _ => do
  Console.print "Available commands:\n\r" []
  g_commands.forM fun cmd => do
    let chars ← Console.printed "  %s :" [.str (bytes cmd.name)]
    printSpaces 16 chars
    Console.print "%s\n\r" [.str (bytes cmd.description)]
  pure (true, codec)

/-- The handler of a row; `polls` bounds the loop of `showtext`. -/
def Command.m_func (polls : Nat) : Command → CommandPrototype
  | read => cmdReadCodecRegister
  | write => cmdWriteCodecRegister
  | node => cmdDisplayNode
  | unmute => cmdUnmute
  | refresh => cmdRefreshCodec
  | nodeio => cmdNodeIO
  | getformat => cmdGetFormat
  | playpos => cmdPlayPos
  | showvideo => cmdShowVideo
  | showtext => cmdShowText polls
  | settextmode => cmdSetTextMode
  | rdmem => cmdReadMem
  | help => cmdHelp

/-- `Commands::execute`. -/
def execute (polls : Nat) (mem : List Byte) (codec : HDACodec) (line : View) :
    ConsoleM (Bool × HDACodec) := do
  let cmd ← getCommand mem line
  let cmdText ← cmd.text mem
  match g_commands.find? fun c => bytes c.name = cmdText with
  | some c => c.m_func polls mem codec (line.sub cmd.size (line.size - cmd.size))
  | none => pure (false, codec)

end TinyOS64
