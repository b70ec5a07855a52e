/-
  File:      TinyOS64/Console/Confinement.lean
  Subject:   What each console command can do to the machine at all.

  `May codec rest c` lists, for the command `c` on the rest of a line, every question it may put
  to registers, codec, memory and firmware, whatever these answer; every `print` among them has
  passed the check of `CallCheck`, but for the replies that show a register's name.
  `execute_confined` is the list as a theorem about `execute`.
-/
import TinyOS64.Console.Grammar
import TinyOS64.Print.CallCheck

namespace TinyOS64

open Interaction

/-! ## 1. Printing only -/

/-- The calls of `print` below the commands whose format is fixed, and the kinds of their
    arguments. -/
@[simp] def consoleCalls : List (String × List ArgKind) :=
  [ -- `Widget::dump`
    ("ID = %d\n\r", [.word]), ("  digital device\n\r", []), ("  Input\n\r", []),
    ("  Output\n\r", []), ("  Mixer\n\r", []), ("  Selector\n\r", []), ("  Pin Complex\n\r", []),
    ("  Beep generator\n\r", []), ("  Vendor defined\n\r", []), ("  Unknown\n\r", []),
    ("  input amplifiers:\n\r", []), ("  ch %d ", [.word]), ("  output amplifier:\n\r", []),
    ("  output amplifier: ", []), (" state: %s      ", [.text 5]), (" state: %s      ", [.text 7]),
    ("  connected to nodes: ", []), ("  input come from nodes: ", []), ("%d ", [.word]),
    ("%d (selected)    ", [.word]), ("  Default function: ", []),
    ("  Can drive a headphone\n\r", []), ("  Is an input pin\n\r", []),
    ("  Is an output pin\n\r", []), ("\n\r", []), (" ", []),
    -- registers and nodes
    ("ERROR: readReg cannot find register\n\r", []),
    ("ERROR: writeReg cannot find register\n\r", []), ("Invalid value\n\r", []),
    ("Parameter error\n\r", []), ("ERROR: ID out of range\n\r", []),
    ("Unmuting channel %d on node %d (gain = %d)\n\r", [.long, .long, .word]),
    ("NodeIO: %d verb: %x  payload %x\n\r", [.long, .long, .long]),
    ("  retuned: %x\n\r", [.word]), ("  ** no response! **\n\r", []),
    ("Cannot get format \n\r", []), ("Node ID out of range\n\r", []), ("  $%x\n\r", [.long]),
    -- modes and memory
    ("Video modes:\n\r", []), ("Cannot access UEFI graphics protocol\n\r", []),
    ("Current video mode is %d\n\r", [.word]), ("Frame buffer address  %X\n\r", [.long]),
    ("Frame buffer size     %d bytes\n\r", [.long]), ("Available modes: %d\n\r", [.word]),
    ("mode  %d -> x=%d  y=%d        ", [.long, .word, .word]),
    ("mode %d -> x=%d  y=%d        ", [.long, .word, .word]), ("Text modes:\n\r", []),
    ("  mode: %d   rows=%d  cols=%d\n\r", [.long, .long, .long]), ("$%x : ", [.long]),
    ("$%x  ", [.word]), ("Available commands:\n\r", []) ]

theorem consoleCalls_fit : ∀ call ∈ consoleCalls, CallFits call.1 call.2 := by decide +kernel

theorem fits {fmt : String} {kinds : List ArgKind} (h : (fmt, kinds) ∈ consoleCalls) :
    CallFits fmt kinds := consoleCalls_fit _ h

/-- The calls that show one of a few texts, or have one of them as their format. -/
theorem shownTexts_fit :
    (∀ side ∈ ["left", "right"],
      CallFits "  %s: %d" [.text (cString (bytes side)).length, .word]) ∧
    (∀ p ∈ supportedStreamTexts, CallFits p.2 []) ∧
    (∀ c ∈ JackInfo.colours, ∀ colour ∈ c,
      CallFits "  Jack colour: %s\n\r" [.text (cString (bytes colour)).length]) ∧
    (∀ cmd ∈ g_commands, CallFits "  %s :" [.text (cString (bytes cmd.name)).length] ∧
      CallFits "%s\n\r" [.text (cString (bytes cmd.description)).length]) := by
  decide +kernel

/-- So do the texts of the enumerations. -/
theorem enumTexts_fit :
    (∀ d : DefaultDevice, CallFits d.text []) ∧ (∀ l : Location, CallFits l.text []) := by
  refine ⟨fun d => ?_, fun l => ?_⟩
  · cases d <;> decide +kernel
  · cases l <;> decide +kernel

/-- How long the texts of a format's fields are. -/
theorem toString_length (sr : SampleRate) (bits : BitDepth) :
    (cString (bytes sr.toString)).length ∈ [5, 6, 7] ∧
      (cString (bytes bits.toString)).length ∈ [6, 7] := by
  refine ⟨?_, ?_⟩
  · cases sr <;> decide +kernel
  · cases bits <;> decide +kernel

theorem format_fits (f : StreamFormat) : CallFits "  format: sr=%s bits=%s channels=%d\n\r"
    [.text (cString (bytes f.getSampleRate.toString)).length,
      .text (cString (bytes f.getBitDepth.toString)).length, .word] := by
  have hall : ∀ n ∈ [5, 6, 7], ∀ m ∈ [6, 7],
      CallFits "  format: sr=%s bits=%s channels=%d\n\r" [.text n, .text m, .word] := by
    decide +kernel
  obtain ⟨hrate, hdepth⟩ := toString_length f.getSampleRate f.getBitDepth
  exact hall _ hrate _ hdepth

/-- A print that fits the buffer. -/
def PrintFits : ConsoleOp → Prop
  | .register (.print fmt va) => CallFits fmt (va.map Arg.kind)
  | _ => False

/-- A call checked by the kinds of its arguments. -/
theorem print_shows {fmt : String} {va : List Arg} (kinds : List ArgKind) (h : CallFits fmt kinds)
    (hk : va.map Arg.kind = kinds) : (Console.print fmt va).AsksOnly PrintFits :=
  Prog.asksOnly_once (show CallFits fmt (va.map Arg.kind) by rw [hk]; exact h)

theorem printed_shows {fmt : String} {va : List Arg} (kinds : List ArgKind)
    (h : CallFits fmt kinds) (hk : va.map Arg.kind = kinds) :
    (Console.printed fmt va).AsksOnly PrintFits :=
  Prog.asksOnly_once (show CallFits fmt (va.map Arg.kind) by rw [hk]; exact h)

theorem printIf_shows {c : Bool} {fmt : String} {va : List Arg} (kinds : List ArgKind)
    (h : CallFits fmt kinds) (hk : va.map Arg.kind = kinds) :
    (Console.printIf c fmt va).AsksOnly PrintFits := by
  cases c with
  | true => exact print_shows kinds h hk
  | false => trivial

section Dump

variable (w : Widget)

theorem dumpSide_shows {side : String} (h : side ∈ ["left", "right"]) (canMute muted : Bool)
    (volume : BitVec 32) : (dumpSide canMute side volume muted).AsksOnly PrintFits := by
  refine Prog.avoids_bind (print_shows [_, .word] (shownTexts_fit.1 side h) rfl) fun _ => ?_
  cases muted with
  | true => exact printIf_shows [.text 5] (fits (by simp)) rfl
  | false => exact printIf_shows [.text 7] (fits (by simp)) rfl

theorem dumpAmp_shows (amp : Amp) : (dumpAmp amp).AsksOnly PrintFits := by
  unfold dumpAmp
  split
  · exact Prog.avoids_bind (dumpSide_shows (by simp) _ _ _) fun _ =>
      Prog.avoids_bind (dumpSide_shows (by simp) _ _ _) fun _ =>
        print_shows [] (fits (by simp)) rfl
  · trivial

theorem dumpSupportedStreams_shows (supportedStreams : BitVec 32) :
    (dumpSupportedStreams supportedStreams).AsksOnly PrintFits := by
  exact Prog.avoids_forM fun p hp => printIf_shows [] (shownTexts_fit.2.1 p hp) rfl

theorem dumpInputAmps_shows : (dumpInputAmps w).AsksOnly PrintFits := by
  unfold dumpInputAmps
  split
  · refine Prog.avoids_bind (print_shows [] (fits (by simp)) rfl) fun _ =>
      Prog.avoids_forM fun p _ => ?_
    exact Prog.avoids_bind (print_shows [.word] (fits (by simp)) rfl) fun _ =>
      dumpAmp_shows p.1
  · trivial

theorem dumpOutputAmp_shows {heading : String} (h : CallFits heading []) :
    (dumpOutputAmp heading w).AsksOnly PrintFits := by
  unfold dumpOutputAmp
  split
  · exact Prog.avoids_bind (print_shows [] h rfl) fun _ => dumpAmp_shows w.m_outputAmp
  · trivial

theorem dumpNodes_shows (m_connectionList : List (BitVec 32)) :
    (dumpNodes m_connectionList).AsksOnly PrintFits :=
  Prog.avoids_bind (Prog.avoids_forM fun _ _ =>
    print_shows [.word] (fits (by simp)) rfl) fun _ =>
      print_shows [] (fits (by simp)) rfl

theorem dumpConverter_shows {heading : String} (h : CallFits heading []) :
    (dumpConverter heading w).AsksOnly PrintFits := by
  refine Prog.avoids_bind (dumpInputAmps_shows w) fun _ =>
    Prog.avoids_bind (dumpOutputAmp_shows w h) fun _ => Prog.avoids_bind ?_ fun _ =>
      dumpSupportedStreams_shows _
  unfold dumpConnections
  split
  · exact Prog.avoids_bind (print_shows [] (fits (by simp)) rfl) fun _ => dumpNodes_shows _
  · trivial

theorem dumpMixer_shows : (dumpMixer w).AsksOnly PrintFits :=
  Prog.avoids_bind (print_shows [] (fits (by simp)) rfl) fun _ =>
    Prog.avoids_bind (dumpNodes_shows _) fun _ =>
      Prog.avoids_bind (dumpInputAmps_shows w) fun _ => dumpOutputAmp_shows w (fits (by simp))

theorem dumpSelection_shows : (dumpSelection w).AsksOnly PrintFits := by
  unfold dumpSelection
  split
  · refine Prog.avoids_bind (print_shows [] (fits (by simp)) rfl) fun _ =>
      Prog.avoids_bind (Prog.avoids_forM fun p _ => ?_) fun _ =>
        print_shows [] (fits (by simp)) rfl
    dsimp only
    split <;> exact print_shows [.word] (fits (by simp)) rfl
  · trivial

/-- The names of colours are short. -/
theorem colourAt_fits {i : Nat} {colour : String} (h : colourAt i = .ok colour) :
    CallFits "  Jack colour: %s\n\r" [.text (cString (bytes colour)).length] := by
  unfold colourAt at h
  split at h
  · cases h
  · cases h
  · rename_i found hfound
    cases h
    exact shownTexts_fit.2.2.1 _ (List.mem_of_getElem? hfound) colour rfl

theorem dumpPinComplex_shows : Confined PrintFits (dumpPinComplex w) := by
  refine confined_after (print_shows [] (fits (by simp)) rfl) fun _ =>
    confined_after (print_shows [] ?_ rfl) fun _ =>
    confined_after (printIf_shows [] (fits (by simp)) rfl) fun _ =>
    confined_after (printIf_shows [] (fits (by simp)) rfl) fun _ =>
    confined_after (printIf_shows [] (fits (by simp)) rfl) fun _ =>
      confined_bind ?_ fun _ => confined_liftM (dumpSelection_shows w)
  · exact enumTexts_fit.1 _
  · refine confined_value fun colour hcolour =>
      confined_after (print_shows [_] (colourAt_fits hcolour) rfl) fun _ =>
        confined_liftM (print_shows [] (enumTexts_fit.2 _) rfl)

/-- **The dump of a widget only prints**, and every line fits. -/
theorem dump_shows : Confined PrintFits w.dump := by
  unfold Widget.dump
  refine confined_after (print_shows [.word] (fits (by simp)) rfl) fun _ =>
    confined_after (printIf_shows [] (fits (by simp)) rfl) fun _ => ?_
  cases w.m_type with
  | Input | Output =>
      exact confined_after (print_shows [] (fits (by simp)) rfl) fun _ =>
        confined_liftM (dumpConverter_shows w (fits (by simp)))
  | Mixer =>
      exact confined_after (print_shows [] (fits (by simp)) rfl) fun _ =>
        confined_liftM (dumpMixer_shows w)
  | PinComplex =>
      exact confined_after (print_shows [] (fits (by simp)) rfl) fun _ => dumpPinComplex_shows w
  | Unknown | Selector | BeepGen | Vendor =>
      exact confined_liftM (print_shows [] (fits (by simp)) rfl)

end Dump

/-! ## 2. What a command may ask -/

/-- A read of the register of this name, and of no more. -/
def MmioOp.ReadsNamed (regname : List Byte) : MmioOp → Prop
  | read8 offset => ∃ r ∈ getReg regname, r.offset = offset ∧ r.width = 1
  | read16 offset => ∃ r ∈ getReg regname, r.offset = offset ∧ r.width = 2
  | read32 offset => ∃ r ∈ getReg regname, r.offset = offset ∧ r.width = 4
  | _ => False

/-- A write of the register of this name, and of no more. -/
def MmioOp.WritesNamed (regname : List Byte) : MmioOp → Prop
  | write8 offset _ => ∃ r ∈ getReg regname, r.offset = offset ∧ r.width = 1
  | write16 offset _ => ∃ r ∈ getReg regname, r.offset = offset ∧ r.width = 2
  | write32 offset _ => ∃ r ∈ getReg regname, r.offset = offset ∧ r.width = 4
  | _ => False

/-- The string the replies of `read` and `write` show for the register's name. -/
def shownName (rest : List Byte) : List Byte := (rest.dropWhile isSpace).takeWhile (· ≠ 0#8)

/-- **What a command may ask**, `rest` being the line behind its name. -/
inductive May (codec : HDACodec) (rest : List Byte) : Command → ConsoleOp → Prop where
  | shows {c : Command} {o : ConsoleOp} (h : PrintFits o) : May codec rest c o
  | readRegister {o : MmioOp} (h : o.ReadsNamed (firstParam rest)) :
      May codec rest .read (.register o)
  | readReply {v : BitVec 64} :
      May codec rest .read (.register (.print "%s = $%x\n\r" [.str (shownName rest), .u64 v]))
  | writeRegister {o : MmioOp} (h : o.WritesNamed (firstParam rest)) :
      May codec rest .write (.register o)
  | writeReply {v : BitVec 64} :
      May codec rest .write (.register (.print "%s <= $%x\n\r" [.str (shownName rest), .u64 v]))
  | setAmp {node payload : BitVec 32} :
      May codec rest .unmute (.verb (verbWord 0 node 0x0300 payload))
  | refreshAmp {w : Widget} {verb payload : BitVec 32} (hw : w ∈ codec.m_widgets)
      (h : AmpQuery w.m_ID (.verb 0 w.m_ID verb payload)) :
      May codec rest .refresh (.verb (verbWord 0 w.m_ID verb payload))
  | anyVerb {word : BitVec 32} : May codec rest .nodeio (.verb word)
  | converterFormat {w : Widget} (hw : w ∈ codec.m_widgets) :
      May codec rest .getformat (.verb (verbWord 0 w.m_ID 0xA00 0))
  | playPos : May codec rest .playpos (.register (.read32 (codec.m_outputDescriptor + 0x04)))
  | locateGraphics : May codec rest .showvideo .locateGraphics
  | queryGraphics {modeNumber : BitVec 32} : May codec rest .showvideo (.queryGraphics modeNumber)
  | queryMode {modeNumber : BitVec 64} : May codec rest .showtext (.queryMode modeNumber)
  | setMode {modeNumber : BitVec 64} : May codec rest .settextmode (.setMode modeNumber)
  | load32 {address : BitVec 64} : May codec rest .rdmem (.load32 address)

section Parts

variable {codec : HDACodec} {rest : List Byte} {c : Command} {α β : Type}

theorem may_shows {p : Prog Console α} (hp : p.AsksOnly PrintFits) :
    p.AsksOnly (May codec rest c) := hp.mono fun _ => .shows

/-- A print inside a handler, and what comes after it. -/
theorem confined_print {fmt : String} {va : List Arg} {f : Unit → ConsoleM β}
    (kinds : List ArgKind) (h : CallFits fmt kinds) (hk : va.map Arg.kind = kinds)
    (hf : ∀ a, Confined (May codec rest c) (f a)) :
    Confined (May codec rest c) (liftM (Console.print fmt va) >>= f) :=
  confined_after (may_shows (print_shows kinds h hk)) hf

theorem may_ask {o : ConsoleOp} (h : May codec rest c o) :
    (Console.ask o).AsksOnly (May codec rest c) := Prog.asksOnly_once h

/-- A register program inside a handler. -/
theorem may_register {p : Prog Mmio α} {Q : MmioOp → Prop} (hp : p.AsksOnly Q)
    (hQ : ∀ o, Q o → May codec rest c (.register o)) :
    (liftM p : Prog Console α).AsksOnly (May codec rest c) :=
  hp.lower fun o ho => Prog.asksOnly_once (hQ o ho)

/-- A verb inside a handler. -/
theorem may_verb {node verb command : BitVec 32}
    (h : May codec rest c (.verb (verbWord 0 node verb command))) :
    (liftM (Verbs.ask 0 node verb command) : Prog Console _).AsksOnly (May codec rest c) :=
  Prog.avoids_bind (Prog.asksOnly_once h) fun _ => trivial

/-- The next parameter of a handler, found or not. -/
theorem confined_next {Q : ConsoleOp → Prop} {line rest : List Byte} (h : rest <:+ line)
    {f : ParamResult → ConsoleM β} (hnull : OnlySpaces rest → Confined Q (f {}))
    (hparam : Confined Q (f ⟨.param line rest, .tail line (afterParam rest)⟩)) :
    Confined Q (liftM (findNextParam (lineMemory line) (.tail line rest)) >>= f) := by
  by_cases hs : OnlySpaces rest
  · rw [findNextParam_spaces h hs]
    exact hnull hs
  · rw [findNextParam_param h hs]
    exact hparam

end Parts

/-! ## 3. The handlers -/

/-- `readReg` reads the register of this name, or reports that there is none. -/
theorem readReg_asks (regname : List Byte) {Q : MmioOp → Prop}
    (hread : ∀ o : MmioOp, o.ReadsNamed regname → Q o)
    (herror : Q (.print "ERROR: readReg cannot find register\n\r" [])) :
    (readReg regname).AsksOnly Q := by
  unfold readReg
  cases hreg : getReg regname with
  | none => exact Prog.asksOnly_once herror
  | some reg =>
      dsimp only
      split
      · rename_i hw
        exact Prog.asksOnly_once (hread _ ⟨reg, hreg, rfl, hw⟩)
      · rename_i hw
        exact Prog.asksOnly_once (hread _ ⟨reg, hreg, rfl, hw⟩)
      · rename_i hw
        exact Prog.asksOnly_once (hread _ ⟨reg, hreg, rfl, hw⟩)
      · exact Prog.asksOnly_once herror

/-- `writeReg` writes the register of this name, or reports that there is none. -/
theorem writeReg_asks (regname : List Byte) (v : BitVec 64) {Q : MmioOp → Prop}
    (hwrite : ∀ o : MmioOp, o.WritesNamed regname → Q o)
    (herror : Q (.print "ERROR: writeReg cannot find register\n\r" [])) :
    (writeReg regname v).AsksOnly Q := by
  unfold writeReg
  cases hreg : getReg regname with
  | none => exact Prog.asksOnly_once herror
  | some reg =>
      dsimp only
      split
      · rename_i hw
        exact Prog.asksOnly_once (hwrite _ ⟨reg, hreg, rfl, hw⟩)
      · rename_i hw
        exact Prog.asksOnly_once (hwrite _ ⟨reg, hreg, rfl, hw⟩)
      · rename_i hw
        exact Prog.asksOnly_once (hwrite _ ⟨reg, hreg, rfl, hw⟩)
      · exact Prog.asksOnly_once herror

section Handlers

variable {line rest : List Byte} (codec : HDACodec)

theorem read_confined (h : rest <:+ line) : Confined (May codec rest .read)
    (cmdReadCodecRegister (lineMemory line) codec (.tail line rest)) := by
  have hreg : (liftM (readReg (firstParam rest)) : Prog Console _).AsksOnly
      (May codec rest .read) :=
    may_register (readReg_asks _ (Q := fun o => May codec rest .read (.register o))
      (fun o ho => .readRegister ho)
      (.shows (fits (by simp) : CallFits "ERROR: readReg cannot find register\n\r" [])))
      fun _ ho => ho
  unfold cmdReadCodecRegister
  refine confined_next h (fun hs => ?_) ?_
  · -- the name is empty, and the register is read before the pointer is missed
    refine confined_value fun regname hname => ?_
    cases hname
    rw [firstParam_onlySpaces hs] at hreg
    exact confined_after hreg fun result => confined_value fun s hs => by cases hs
  · refine confined_value fun regname hname => ?_
    rw [param_text h] at hname
    cases hname
    refine confined_after hreg fun result => confined_value fun s hs => ?_
    rw [param_cString h] at hs
    cases hs
    exact confined_after (Prog.asksOnly_once .readReply) fun _ => confined_pure _

theorem write_confined (h : rest <:+ line) : Confined (May codec rest .write)
    (cmdWriteCodecRegister (lineMemory line) codec (.tail line rest)) := by
  have hreg : ∀ v, (liftM (writeReg (firstParam rest) v) : Prog Console _).AsksOnly
      (May codec rest .write) := fun v =>
    may_register (writeReg_asks _ v (Q := fun o => May codec rest .write (.register o))
      (fun o ho => .writeRegister ho)
      (.shows (fits (by simp) : CallFits "ERROR: writeReg cannot find register\n\r" [])))
      fun _ ho => ho
  unfold cmdWriteCodecRegister
  refine confined_next h (fun _ => ?_) ?_
  · refine confined_value fun regvalue hvalue => ?_
    cases hvalue
  · refine confined_value fun regvalue _ => confined_value fun value _ => ?_
    cases value with
    | none =>
        exact confined_print [] (fits (by simp)) rfl fun _ => confined_pure _
    | some value =>
        refine confined_value fun s hs => ?_
        rw [param_cString h] at hs
        cases hs
        refine confined_after (Prog.asksOnly_once .writeReply) fun _ =>
          confined_value fun regname hname => ?_
        rw [param_text h] at hname
        cases hname
        exact confined_after (hreg value) fun _ => confined_pure _

theorem node_confined (mem : List Byte) (params : View) : Confined (May codec rest .node)
    (cmdDisplayNode mem codec params) := by
  refine confined_value fun widgetParam _ => confined_value fun widgetID _ => ?_
  cases widgetID with
  | none =>
      exact confined_print [] (fits (by simp)) rfl fun _ => confined_pure _
  | some id =>
      dsimp only
      cases codec.m_widgets[id.toNat]? with
      | none =>
          exact confined_print [] (fits (by simp)) rfl fun _ => confined_pure _
      | some w =>
          exact confined_bind ((dump_shows w).mono fun _ => .shows) fun _ => confined_pure _

theorem unmute_confined (mem : List Byte) (params : View) : Confined (May codec rest .unmute)
    (cmdUnmute mem codec params) := by
  refine confined_value fun widgetParam _ => confined_value fun widgetID _ =>
    confined_value fun channelParam _ => confined_value fun channel _ =>
    confined_value fun w _ => ?_
  exact confined_print [.long, .long, .word] (fits (by simp)) rfl fun _ =>
    confined_after (may_verb .setAmp) fun _ => confined_after (may_verb .setAmp) fun _ =>
      confined_pure _

theorem nodeio_confined (mem : List Byte) (params : View) : Confined (May codec rest .nodeio)
    ( cmdNodeIO mem codec params) := by
  refine confined_value fun widgetParam _ => confined_value fun widgetID _ =>
    confined_value fun verbParam _ => confined_value fun verb _ =>
    confined_value fun payloadParam _ => confined_value fun payload _ => ?_
  refine confined_print [.long, .long, .long] (fits (by simp)) rfl fun _ =>
    confined_after (may_verb .anyVerb) fun result => confined_after (may_shows ?_) fun _ =>
      confined_pure _
  cases result with
  | none => exact print_shows [] (fits (by simp)) rfl
  | some result => exact print_shows [.word] (fits (by simp)) rfl

theorem getformat_confined (mem : List Byte) (params : View) :
    Confined (May codec rest .getformat) (cmdGetFormat mem codec params) := by
  refine confined_value fun widgetParam _ => confined_value fun widgetID _ => ?_
  cases widgetID with
  | none => exact confined_pure _
  | some id =>
      dsimp only
      cases hw : codec.m_widgets[id.toNat]? with
      | none =>
          exact confined_print [] (fits (by simp)) rfl fun _ => confined_pure _
      | some w =>
          refine confined_after ?_ fun format => ?_
          · unfold getIOWidgetFormat
            split
            · trivial
            · exact Prog.avoids_bind (Prog.asksOnly_once
                (.converterFormat (List.mem_of_getElem? hw))) fun _ => trivial
          · cases format with
            | none =>
                exact confined_print [] (fits (by simp)) rfl fun _ => confined_pure _
            | some f =>
                exact confined_print [_, _, .word] (format_fits f) rfl fun _ => confined_pure _

theorem refresh_confined (mem : List Byte) (params : View) :
    Confined (May codec rest .refresh) (cmdRefreshCodec mem codec params) := by
  have hrefresh : (cmdRefresh codec.m_widgets).AsksOnly fun o =>
      ∃ w ∈ codec.m_widgets, AmpQuery w.m_ID o :=
    Prog.avoids_mapM fun w hw => (refreshWidget_asks w).mono fun o ho => ⟨w, hw, ho⟩
  refine confined_after (hrefresh.lower fun o ho => ?_) fun _ => confined_pure _
  obtain ⟨w, hw, ho⟩ := ho
  cases ho with
  | capabilities hp => exact Prog.asksOnly_once (.refreshAmp hw (.capabilities hp))
  | settings hp => exact Prog.asksOnly_once (.refreshAmp hw (.settings hp))

theorem playpos_confined (mem : List Byte) (params : View) :
    Confined (May codec rest .playpos) (cmdPlayPos mem codec params) := by
  have hread : (getPlayPos codec).AsksOnly fun o =>
      o = MmioOp.read32 (codec.m_outputDescriptor + 0x04) := Prog.asksOnly_once rfl
  refine confined_after (may_register hread fun o ho => ho ▸ .playPos) fun playPos => ?_
  exact confined_print [.long] (fits (by simp)) rfl fun _ => confined_pure _

theorem printSpaces_shows (column chars : Nat) : (printSpaces column chars).AsksOnly PrintFits :=
  Prog.avoids_forM fun _ _ => print_shows [] (fits (by simp)) rfl

theorem showMode_confined (offset modeIdx : Nat) :
    (showMode offset modeIdx).AsksOnly (May codec rest .showvideo) := by
  have hcell : CallFits (if modeIdx < 10 then "mode  %d -> x=%d  y=%d        "
      else "mode %d -> x=%d  y=%d        ") [.long, .word, .word] := by
    split <;> exact fits (by simp)
  unfold showMode
  dsimp only
  split
  · exact Prog.avoids_bind (may_shows (print_shows [] (fits (by simp)) rfl)) fun _ =>
      Prog.avoids_bind trivial fun _ => Prog.avoids_bind (may_ask .queryGraphics) fun _ =>
        Prog.avoids_bind (may_shows (printed_shows _ hcell rfl)) fun _ => trivial
  · exact Prog.avoids_bind (may_shows (printSpaces_shows 40 offset)) fun _ =>
      Prog.avoids_bind trivial fun _ => Prog.avoids_bind (may_ask .queryGraphics) fun _ =>
        Prog.avoids_bind (may_shows (printed_shows _ hcell rfl)) fun _ => trivial

theorem showvideo_confined (mem : List Byte) (params : View) :
    Confined (May codec rest .showvideo) (cmdShowVideo mem codec params) := by
  have hmodes : ∀ maxMode, (showModes maxMode).AsksOnly (May codec rest .showvideo) := fun _ =>
    Prog.avoids_foldlM (I := fun _ => True)
      (fun _ _ _ _ => ⟨showMode_confined codec _ _, fun _ _ => trivial⟩) trivial
  refine confined_print [] (fits (by simp)) rfl fun _ =>
    confined_after (may_ask .locateGraphics) fun answer => ?_
  refine confined_ite (confined_print [] (fits (by simp)) rfl fun _ => confined_pure _) ?_
  refine confined_print [.word] (fits (by simp)) rfl fun _ =>
    confined_print [.long] (fits (by simp)) rfl fun _ =>
    confined_print [.long] (fits (by simp)) rfl fun _ => confined_value fun mode _ =>
    confined_print [.word] (fits (by simp)) rfl fun _ => ?_
  exact confined_after (hmodes _) fun _ => confined_print [] (fits (by simp)) rfl fun _ =>
    confined_pure _

theorem showTextModes_confined (polls : Nat) (mode : BitVec 64) :
    Confined (May codec rest .showtext) (showTextModes polls mode) := by
  induction polls generalizing mode with
  | zero => exact confined_throw _
  | succ polls ih =>
      refine confined_after (may_ask .queryMode) fun answer => ?_
      exact confined_ite
        (confined_print [.long, .long, .long] (fits (by simp)) rfl fun _ => ih _)
        (confined_pure _)

theorem showtext_confined (polls : Nat) (mem : List Byte) (params : View) :
    Confined (May codec rest .showtext) (cmdShowText polls mem codec params) :=
  confined_print [] (fits (by simp)) rfl fun _ =>
    confined_bind (showTextModes_confined codec polls 0) fun _ => confined_pure _

theorem settextmode_confined (mem : List Byte) (params : View) :
    Confined (May codec rest .settextmode) (cmdSetTextMode mem codec params) := by
  refine confined_value fun modeParam _ => confined_value fun mode _ => ?_
  cases mode with
  | none => exact confined_pure _
  | some modeID => exact confined_after (may_ask .setMode) fun _ => confined_pure _

theorem rdmem_confined (mem : List Byte) (params : View) :
    Confined (May codec rest .rdmem) (cmdReadMem mem codec params) := by
  have hword : ∀ address offset, (showWord address offset).AsksOnly (May codec rest .rdmem) := by
    intro address offset
    have hline : (if (offset + 1) % 4 = 0 then Console.print "\n\r" [] else pure ()).AsksOnly
        (May codec rest .rdmem) := by
      split
      · exact may_shows (print_shows [] (fits (by simp)) rfl)
      · trivial
    have hload : ∀ word : BitVec 32, (Console.print "$%x  " [.u32 word]).AsksOnly
        (May codec rest .rdmem) := fun word =>
      may_shows (print_shows [.word] (fits (by simp)) rfl)
    unfold showWord
    dsimp only
    split
    · exact Prog.avoids_bind (may_shows (print_shows [.long] (fits (by simp)) rfl)) fun _ =>
        Prog.avoids_bind (may_ask .load32) fun word => Prog.avoids_bind (hload word) fun _ => hline
    · exact Prog.avoids_bind (may_ask .load32) fun word =>
        Prog.avoids_bind (hload word) fun _ => hline
  refine confined_value fun addrParam _ => confined_value fun addr _ =>
    confined_value fun lenParam _ => confined_value fun len _ => ?_
  cases addr with
  | none => exact confined_pure _
  | some address =>
      exact confined_after (Prog.avoids_forM fun offset _ => hword address offset) fun _ =>
        confined_print [] (fits (by simp)) rfl fun _ => confined_pure _

theorem help_confined (mem : List Byte) (params : View) :
    Confined (May codec rest .help) (cmdHelp mem codec params) := by
  refine confined_print [] (fits (by simp)) rfl fun _ =>
    confined_bind (confined_forM (fun cmd => ?_) g_commands) fun _ => confined_pure _
  obtain ⟨hname, hdescription⟩ := shownTexts_fit.2.2.2 cmd (by cases cmd <;> simp [g_commands])
  exact confined_after (may_shows (printed_shows [_] hname rfl)) fun chars =>
    confined_after (may_shows (printSpaces_shows 16 chars)) fun _ =>
      confined_liftM (may_shows (print_shows [_] hdescription rfl))

/-- **Each handler keeps to what its command may ask.** -/
theorem m_func_confined (h : rest <:+ line) (polls : Nat) (c : Command) :
    Confined (May codec rest c) (c.m_func polls (lineMemory line) codec (.tail line rest)) := by
  cases c with
  | read => exact read_confined codec h
  | write => exact write_confined codec h
  | node => exact node_confined codec (lineMemory line) (.tail line rest)
  | unmute => exact unmute_confined codec (lineMemory line) (.tail line rest)
  | refresh => exact refresh_confined codec (lineMemory line) (.tail line rest)
  | nodeio => exact nodeio_confined codec (lineMemory line) (.tail line rest)
  | getformat => exact getformat_confined codec (lineMemory line) (.tail line rest)
  | playpos => exact playpos_confined codec (lineMemory line) (.tail line rest)
  | showvideo => exact showvideo_confined codec (lineMemory line) (.tail line rest)
  | showtext => exact showtext_confined codec polls (lineMemory line) (.tail line rest)
  | settextmode => exact settextmode_confined codec (lineMemory line) (.tail line rest)
  | rdmem => exact rdmem_confined codec (lineMemory line) (.tail line rest)
  | help => exact help_confined codec (lineMemory line) (.tail line rest)

end Handlers

/-- **execute asks only what the line's command may ask**: nothing for a line that is no command.
    For every line, every table of widgets and whatever the machine answers. -/
theorem execute_confined (polls : Nat) (codec : HDACodec) (line : List Byte) :
    Confined (fun o => ∃ c, commandOf line = some c ∧ May codec (line.dropWhile isAlpha) c o)
      (execute polls (lineMemory line) codec ⟨some 0, line.length⟩) := by
  rw [execute_eq]
  cases commandOf line with
  | none => exact confined_pure _
  | some c =>
      exact (m_func_confined codec (List.dropWhile_suffix _) polls c).mono fun _ ho =>
        ⟨c, rfl, ho⟩

end TinyOS64
