/-
  File:      TinyOS64/Hda/Scan.lean
  Subject:   Widget discovery: collectWidgetInformation (hdacodec.cpp).

  The scan asks 64 nodes for their widget capabilities. A node that answers 0 or 0xFFFFFFFF
  leaves the loop body by `continue`, before the store: its slot keeps what it held
  (`scan_describes_iff`).
-/
import TinyOS64.Hda.Verbs
import TinyOS64.Hda.Widget

namespace TinyOS64

open Interaction WordFields

/-! ## 1. Amplifiers -/

/-- A settings word of the right channel (index 1 of the arrays). -/
def withRightSettings (amp : Amp) (settings : BitVec 32) : Amp :=
  { amp with
    m_muted := (amp.m_muted.1, settings.getLsbD 7)
    m_volume := (amp.m_volume.1, settings &&& 0x7F) }

/-- A settings word of the left channel (index 0 of the arrays). -/
def withLeftSettings (amp : Amp) (settings : BitVec 32) : Amp :=
  { amp with
    m_muted := (settings.getLsbD 7, amp.m_muted.2)
    m_volume := (settings &&& 0x7F, amp.m_volume.2) }

/-- The two settings queries of the amplifier functions: right channel first, then left. -/
def readAmpSettings (widgetID right left : BitVec 32) (amp : Amp) : Prog Verbs Amp := do
  let settings ← Verbs.ask 0 widgetID 0xB00 right
  let amp := settings.elim amp (withRightSettings amp)
  let settings ← Verbs.ask 0 widgetID 0xB00 left
  pure (settings.elim amp (withLeftSettings amp))

/-- What the amplifier functions share: the capabilities query decides whether the amplifier is
    valid, and whether its settings are read. -/
def readAmp (widgetID parameter right left : BitVec 32) : Prog Verbs Amp := do
  let ampCap := (← Verbs.ask 0 widgetID 0xF00 parameter).getD 0
  if ampCap ≠ 0 then
    readAmpSettings widgetID right left
      { m_canMute := ampCap.getLsbD 31, m_0dBSetting := ampCap &&& 0x7F, m_valid := true }
  else pure {}

def getSupportedStreams (widgetID : BitVec 32) : Prog Verbs (BitVec 32) := do
  pure ((← Verbs.ask 0 widgetID 0xF00 0x0A).getD 0)

def getOutputAmplifierInfo (widgetID : BitVec 32) : Prog Verbs Amp :=
  readAmp widgetID 0x12 (1 <<< 15) ((1 <<< 15) ||| (1 <<< 13))

def getInputAmplifierInfo (widgetID channel : BitVec 32) : Prog Verbs Amp :=
  readAmp widgetID 0x0D (channel &&& 0x0F) ((channel &&& 0x0F) ||| (1 <<< 13))

/-- A vector of `n` input amplifiers, read channel by channel. -/
def readInputAmps (widgetID : BitVec 32) (n : Nat) : Prog Verbs (List Amp) :=
  (List.range n).mapM fun ch => getInputAmplifierInfo widgetID (BitVec.ofNat 32 ch)

/-! ## 2. One node -/

/-- The node types of the scan's first switch. -/
def widgetTypeOf : Nat → WidgetType
  | 0 => .Output
  | 1 => .Input
  | 2 => .Mixer
  | 3 => .Selector
  | 4 => .PinComplex
  | 7 => .BeepGen
  | 0x0F => .Vendor
  | _ => .Unknown

def locationOf : Nat → Option Location
  | 1 => some .Rear
  | 2 => some .Front
  | 3 => some .Left
  | 4 => some .Right
  | _ => none

def defaultDeviceOf : Nat → Option DefaultDevice
  | 0 => some .LineOut
  | 1 => some .Speaker
  | 2 => some .HeadphoneOut
  | 4 => some .SPDIFout
  | 8 => some .LineIn
  | 0xA => some .MicIn
  | 0xC => some .SPDIFin
  | _ => none

/-- What a default-configuration word says about the jack. -/
def withDefaultConfig (widget : Widget) (config : BitVec 32) : Widget :=
  { widget with
    m_jackInfo := { widget.m_jackInfo with
      m_colour := (config >>> 12) &&& 0xF
      m_isPhysical := widget.m_jackInfo.m_isPhysical || decide ((config >>> 30) &&& 0x3 ≠ 1)
      m_location :=
        (locationOf ((config >>> 24) &&& 0xF).toNat).getD widget.m_jackInfo.m_location }
    m_defaultDevice :=
      (defaultDeviceOf ((config >>> 20) &&& 0xF).toNat).getD widget.m_defaultDevice }

/-- What a pin-capabilities word says about the pin. -/
def withPinCap (widget : Widget) (pinCap : BitVec 32) : Widget :=
  { widget with
    m_outputPin := widget.m_outputPin || pinCap.getLsbD 4
    m_inputPin := widget.m_inputPin || pinCap.getLsbD 5
    m_headphoneDriver := widget.m_headphoneDriver || pinCap.getLsbD 3 }

/-- The capability bits and the node type; an audio converter is asked for its streams. -/
def readType (widget : Widget) (widgetCap : BitVec 32) : Prog Verbs Widget := do
  let nodeType := (widgetCap >>> 20) &&& 0x0F
  let widget := { widget with
    m_digital := widgetCap.getLsbD 9
    m_hasInputAmp := widgetCap.getLsbD 1
    m_hasOutputAmp := widgetCap.getLsbD 2
    m_type := widgetTypeOf nodeType.toNat
    m_channels := 1 + ((((widgetCap >>> 13) &&& 0x07) <<< 1) ||| (widgetCap &&& 1)) }
  if nodeType = 0 ∨ nodeType = 1 then
    let streams ← getSupportedStreams widget.m_ID
    pure { widget with m_supportedStreams := streams }
  else pure widget

/-- Default configuration and pin capabilities of a pin complex. -/
def readPin (widget : Widget) : Prog Verbs Widget := do
  if widget.m_type = .PinComplex then
    let config ← Verbs.ask 0 widget.m_ID 0xF1C 0x00
    let widget := config.elim widget (withDefaultConfig widget)
    let pinCap ← Verbs.ask 0 widget.m_ID 0xF00 0x0C
    pure (pinCap.elim widget (withPinCap widget))
  else pure widget

/-- One turn of the connection-list loop: an entry query every fourth turn, else the next byte of
    the last response. -/
def readConnection (widgetID : BitVec 32)
    (st : BitVec 32 × Option (BitVec 32) × List (BitVec 32)) (offset : Nat) :
    Prog Verbs (BitVec 32 × Option (BitVec 32) × List (BitVec 32)) := do
  let (data, result, list) := st
  let (data, result) ←
    if offset % 4 = 0 then do
      let result ← Verbs.ask 0 widgetID 0xF02 (BitVec.ofNat 32 offset)
      pure (result.getD 0, result)
    else pure (data >>> 8, result)
  pure (data, result, if result.isSome then list.set offset (data &&& 0x7F) else list)

/-- The entries of a short-form connection list; the long form is reported only. -/
def readEntries (widget : Widget) (answer : BitVec 32) : Prog Verbs Widget := do
  let len := (answer &&& 0x7F).toNat
  if (answer >>> 7) &&& 0x1 = 0 then
    let st ← (List.range len).foldlM (readConnection widget.m_ID)
      (0, some answer, resize widget.m_connectionList len 0)
    pure { widget with m_connectionList := st.2.2 }
  else
    let _ ← Verbs.print "  long form (unsupported)" []
    pure widget

/-- The selected connection. -/
def readSelection (widget : Widget) : Prog Verbs Widget := do
  let selection ← Verbs.ask 0 widget.m_ID 0xF01 0x00
  pure (selection.elim widget fun s => { widget with m_selection := s &&& 0xFF })

/-- The connection list, and but for a mixer the selected connection. -/
def readConnections (widget : Widget) (widgetCap : BitVec 32) : Prog Verbs Widget := do
  if (widgetCap >>> 8) &&& 1 ≠ 0 then
    match ← Verbs.ask 0 widget.m_ID 0xF00 0x0E with
    | some answer =>
      let widget ← readEntries widget answer
      if answer &&& 0x7F ≠ 0 ∧ (widgetCap >>> 20) &&& 0x0F ≠ 2 then readSelection widget
      else pure widget
    | none => pure widget
  else pure widget

/-- The input amplifiers the capability bits announce: a mixer has one for each connection. -/
def collectInputAmps (widget : Widget) : Prog Verbs Widget := do
  if widget.m_hasInputAmp then
    let numberOfAmps := if widget.m_type = .Mixer then widget.m_connectionList.length else 1
    let amps ← readInputAmps widget.m_ID numberOfAmps
    pure { widget with m_inputAmps := amps }
  else pure widget

/-- The output amplifier the capability bits announce. -/
def collectOutputAmp (widget : Widget) : Prog Verbs Widget := do
  if widget.m_hasOutputAmp then
    let amp ← getOutputAmplifierInfo widget.m_ID
    pure { widget with m_outputAmp := amp }
  else pure widget

/-- A node that has answered with its capabilities, up to its amplifiers. -/
def readNode (widget : Widget) (widgetCap : BitVec 32) : Prog Verbs Widget := do
  let widget ← readType widget widgetCap
  let widget ← readPin widget
  readConnections widget widgetCap

/-- The body of the scan's loop: the widget to store, none after a `continue`. -/
def scanNode (widgetID : BitVec 32) : Prog Verbs (Option Widget) := do
  let widget : Widget := { m_ID := widgetID }
  match ← Verbs.ask 0 widgetID 0xF00 0x09 with
  | some widgetCap =>
    if widgetCap = 0 then pure none
    else if widgetCap = 0xFFFFFFFF then pure none
    else do
      let widget ← readNode widget widgetCap
      let widget ← collectInputAmps widget
      let widget ← collectOutputAmp widget
      pure (some widget)
  | none => pure (some widget)

/-- One turn of the scan's loop. -/
def scanTurn (m_widgets : List Widget) (widgetID : Nat) : Prog Verbs (List Widget) := do
  let widget ← scanNode (BitVec.ofNat 32 widgetID)
  pure (widget.elim m_widgets (m_widgets.set widgetID))

/-- `HDACodec::collectWidgetInformation`. -/
def collectWidgetInformation (m_widgets : List Widget) : Prog Verbs (List Widget) :=
  (List.range 64).foldlM scanTurn (resize m_widgets 64 {})

/-! ## 3. What a scan keeps -/

/-- ID and amplifiers are the same. -/
structure SameNode (w w' : Widget) : Prop where
  id : w'.m_ID = w.m_ID
  inputAmps : w'.m_inputAmps = w.m_inputAmps
  outputAmp : w'.m_outputAmp = w.m_outputAmp

theorem SameNode.refl (w : Widget) : SameNode w w := ⟨rfl, rfl, rfl⟩

theorem SameNode.trans {w w' w'' : Widget} (h : SameNode w w') (h' : SameNode w' w'') :
    SameNode w w'' :=
  ⟨h'.id.trans h.id, h'.inputAmps.trans h.inputAmps, h'.outputAmp.trans h.outputAmp⟩

theorem sameNode_readType (widget : Widget) (widgetCap : BitVec 32) :
    (readType widget widgetCap).Always (SameNode widget) := by
  unfold readType
  dsimp only
  split
  · exact Prog.always_ask.mpr fun _ => Prog.always_ret.mpr ⟨rfl, rfl, rfl⟩
  · exact Prog.always_ret.mpr ⟨rfl, rfl, rfl⟩

theorem sameNode_readPin (widget : Widget) : (readPin widget).Always (SameNode widget) := by
  unfold readPin
  split
  · refine Prog.always_ask.mpr fun config => Prog.always_ask.mpr fun pinCap =>
      Prog.always_ret.mpr ?_
    have h : SameNode widget (config.elim widget (withDefaultConfig widget)) := by
      cases config <;> exact ⟨rfl, rfl, rfl⟩
    refine h.trans ?_
    cases pinCap <;> exact ⟨rfl, rfl, rfl⟩
  · exact Prog.always_ret.mpr (.refl widget)

/-- Only the connections differ. -/
def OnlyConnections (w w' : Widget) : Prop :=
  ∃ list selection, w' = { w with m_connectionList := list, m_selection := selection }

theorem OnlyConnections.sameNode {w w' : Widget} (h : OnlyConnections w w') : SameNode w w' := by
  obtain ⟨_, _, rfl⟩ := h
  exact ⟨rfl, rfl, rfl⟩

theorem onlyConnections_readEntries (widget : Widget) (answer : BitVec 32) :
    (readEntries widget answer).Always (OnlyConnections widget) := by
  unfold readEntries
  dsimp only
  split
  · exact Prog.always_bind.mpr fun _ _ => Prog.always_ret.mpr ⟨_, _, rfl⟩
  · exact Prog.always_ask.mpr fun _ => Prog.always_ret.mpr ⟨_, _, rfl⟩

theorem onlyConnections_readSelection (widget : Widget) :
    (readSelection widget).Always (OnlyConnections widget) := by
  refine Prog.always_ask.mpr fun selection => Prog.always_ret.mpr ?_
  cases selection <;> exact ⟨_, _, rfl⟩

/-- **Reading the connections** leaves everything else as it was. -/
theorem onlyConnections_readConnections (widget : Widget) (widgetCap : BitVec 32) :
    (readConnections widget widgetCap).Always (OnlyConnections widget) := by
  unfold readConnections
  split
  · refine Prog.always_ask.mpr fun answer => ?_
    cases answer with
    | none => exact Prog.always_ret.mpr ⟨_, _, rfl⟩
    | some answer =>
        refine (onlyConnections_readEntries widget answer).bind fun w hw => ?_
        split
        · refine (onlyConnections_readSelection w).mono fun w' hw' => ?_
          obtain ⟨_, _, rfl⟩ := hw
          obtain ⟨_, _, rfl⟩ := hw'
          exact ⟨_, _, rfl⟩
        · exact Prog.always_ret.mpr hw
  · exact Prog.always_ret.mpr ⟨_, _, rfl⟩

/-- **Up to its amplifiers a node keeps its ID and reads no amplifier.** -/
theorem sameNode_readNode (widget : Widget) (widgetCap : BitVec 32) :
    (readNode widget widgetCap).Always (SameNode widget) :=
  (sameNode_readType widget widgetCap).bind fun w hw =>
    (sameNode_readPin w).bind fun w' hw' =>
      (onlyConnections_readConnections w' widgetCap).mono fun _ h =>
        (hw.trans hw').trans h.sameNode

/-- Only the amplifiers differ. -/
def OnlyAmps (w w' : Widget) : Prop :=
  ∃ inputs output, w' = { w with m_inputAmps := inputs, m_outputAmp := output }

theorem OnlyAmps.id {w w' : Widget} (h : OnlyAmps w w') : w'.m_ID = w.m_ID := by
  obtain ⟨_, _, rfl⟩ := h
  rfl

theorem onlyAmps_collectInputAmps (widget : Widget) :
    (collectInputAmps widget).Always (OnlyAmps widget) := by
  unfold collectInputAmps
  split
  · exact Prog.always_bind.mpr fun _ _ => Prog.always_ret.mpr ⟨_, _, rfl⟩
  · exact Prog.always_ret.mpr ⟨_, _, rfl⟩

theorem onlyAmps_collectOutputAmp (widget : Widget) :
    (collectOutputAmp widget).Always (OnlyAmps widget) := by
  unfold collectOutputAmp
  split
  · exact Prog.always_bind.mpr fun _ _ => Prog.always_ret.mpr ⟨_, _, rfl⟩
  · exact Prog.always_ret.mpr ⟨_, _, rfl⟩

/-! ## 4. What a scan asks -/

/-- A query of node `id` itself: one of the scan's 12-bit verbs, with an 8-bit payload. -/
inductive NodeQuery (id : BitVec 32) : VerbOp → Prop where
  | verb {v payload : BitVec 32} (hv : v ∈ [0xF00, 0xF01, 0xF02, 0xF1C]) (hp : payload < 0x100) :
      NodeQuery id (.verb 0 id v payload)
  | print (fmt : String) (va : List Arg) : NodeQuery id (.print fmt va)

/-- A query of an amplifier of node `id`: its capabilities, or with a 16-bit payload its
    settings. -/
inductive AmpQuery (id : BitVec 32) : VerbOp → Prop where
  | capabilities {parameter : BitVec 32} (hp : parameter < 0x100) :
      AmpQuery id (.verb 0 id 0xF00 parameter)
  | settings {payload : BitVec 32} (hp : payload < 0x10000) : AmpQuery id (.verb 0 id 0xB00 payload)

/-- A query of node `id` or of one of its amplifiers. -/
def Query (id : BitVec 32) (o : VerbOp) : Prop := NodeQuery id o ∨ AmpQuery id o

theorem ask_asks {Q : VerbOp → Prop} {codec node verb command : BitVec 32}
    (h : Q (.verb codec node verb command)) : (Verbs.ask codec node verb command).AsksOnly Q :=
  Prog.asksOnly_once h

section Asks

variable (widget : Widget)

theorem readType_asks (widgetCap : BitVec 32) :
    (readType widget widgetCap).AsksOnly (NodeQuery widget.m_ID) := by
  unfold readType
  dsimp only
  split
  · exact Prog.avoids_bind (ask_asks (.verb (by decide) (by decide))) fun _ => trivial
  · trivial

theorem readPin_asks : (readPin widget).AsksOnly (NodeQuery widget.m_ID) := by
  unfold readPin
  split
  · refine Prog.avoids_bind (ask_asks (.verb (by decide) (by decide))) fun config => ?_
    have hid : (config.elim widget (withDefaultConfig widget)).m_ID = widget.m_ID := by
      cases config <;> rfl
    dsimp only
    rw [hid]
    exact Prog.avoids_bind (ask_asks (.verb (by decide) (by decide))) fun _ => trivial
  · trivial

theorem readConnection_asks (widgetID : BitVec 32)
    (st : BitVec 32 × Option (BitVec 32) × List (BitVec 32)) {offset : Nat} (h : offset < 0x100) :
    (readConnection widgetID st offset).AsksOnly (NodeQuery widgetID) := by
  have hp : BitVec.ofNat 32 offset < 0x100 := ofNat_lt h
  unfold readConnection
  dsimp only
  split
  · exact Prog.avoids_bind (Prog.avoids_bind (ask_asks (.verb (by decide) hp)) fun _ => trivial)
      fun _ => trivial
  · trivial

theorem readEntries_asks (answer : BitVec 32) :
    (readEntries widget answer).AsksOnly (NodeQuery widget.m_ID) := by
  have hlen : (answer &&& 0x7F).toNat ≤ 0x7F := and_toNat_le answer 0x7F
  unfold readEntries
  dsimp only
  split
  · refine Prog.avoids_bind (Prog.avoids_foldlM (I := fun _ => True) (fun st _ i hi => ?_)
      trivial) fun _ => trivial
    have hlt := List.mem_range.mp hi
    exact ⟨readConnection_asks _ st (by omega), fun _ _ => trivial⟩
  · exact Prog.asksOnly_once (.print _ _)

theorem readSelection_asks : (readSelection widget).AsksOnly (NodeQuery widget.m_ID) :=
  Prog.avoids_bind (ask_asks (.verb (by decide) (by decide))) fun _ => trivial

theorem readConnections_asks (widgetCap : BitVec 32) :
    (readConnections widget widgetCap).AsksOnly (NodeQuery widget.m_ID) := by
  unfold readConnections
  split
  · refine Prog.avoids_bind (ask_asks (.verb (by decide) (by decide))) fun answer => ?_
    cases answer with
    | none => trivial
    | some answer =>
        refine Prog.avoids_bind_always (readEntries_asks widget answer)
          (onlyConnections_readEntries widget answer) fun w hw => ?_
        rw [← hw.sameNode.id]
        split
        · exact readSelection_asks w
        · trivial
  · trivial

/-- **Up to its amplifiers a node is read by node queries.** -/
theorem readNode_asks (widgetCap : BitVec 32) :
    (readNode widget widgetCap).AsksOnly (NodeQuery widget.m_ID) := by
  refine Prog.avoids_bind_always (readType_asks widget widgetCap)
    (sameNode_readType widget widgetCap) fun w hw => ?_
  rw [← hw.id]
  refine Prog.avoids_bind_always (readPin_asks w) (sameNode_readPin w) fun w' hw' => ?_
  rw [← hw'.id]
  exact readConnections_asks w' widgetCap

theorem readAmp_asks (widgetID : BitVec 32) {parameter right left : BitVec 32}
    (hp : parameter < 0x100) (hr : right < 0x10000) (hl : left < 0x10000) :
    (readAmp widgetID parameter right left).AsksOnly (AmpQuery widgetID) := by
  unfold readAmp
  refine Prog.avoids_bind (ask_asks (.capabilities hp)) fun ampCap => ?_
  dsimp only
  split
  · exact Prog.avoids_bind (ask_asks (.settings hr)) fun _ =>
      Prog.avoids_bind (ask_asks (.settings hl)) fun _ => trivial
  · trivial

theorem getOutputAmplifierInfo_asks (widgetID : BitVec 32) :
    (getOutputAmplifierInfo widgetID).AsksOnly (AmpQuery widgetID) :=
  readAmp_asks widgetID (by decide) (by decide) (by decide)

theorem readInputAmps_asks (widgetID : BitVec 32) (n : Nat) :
    (readInputAmps widgetID n).AsksOnly (AmpQuery widgetID) := by
  refine Prog.avoids_mapM fun ch _ => ?_
  have hr : (BitVec.ofNat 32 ch &&& 0x0F).toNat < 2 ^ 16 := and_toNat_lt _ (by decide)
  have hl : ((BitVec.ofNat 32 ch &&& 0x0F) ||| (1 <<< 13)).toNat < 2 ^ 16 :=
    or_toNat_lt hr (by decide)
  exact readAmp_asks widgetID (by decide) hr hl

theorem collectInputAmps_asks : (collectInputAmps widget).AsksOnly (AmpQuery widget.m_ID) := by
  unfold collectInputAmps
  split
  · exact Prog.avoids_bind (readInputAmps_asks _ _) fun _ => trivial
  · trivial

theorem collectOutputAmp_asks : (collectOutputAmp widget).AsksOnly (AmpQuery widget.m_ID) := by
  unfold collectOutputAmp
  split
  · exact Prog.avoids_bind (getOutputAmplifierInfo_asks _) fun _ => trivial
  · trivial

/-- **One turn of the scan asks its own node.** -/
theorem scanNode_asks (widgetID : BitVec 32) : (scanNode widgetID).AsksOnly (Query widgetID) := by
  have hnode : ∀ o, NodeQuery widgetID o → Query widgetID o := fun _ => .inl
  have hamp : ∀ o, AmpQuery widgetID o → Query widgetID o := fun _ => .inr
  unfold scanNode
  refine Prog.avoids_bind (ask_asks (.inl (.verb (by decide) (by decide)))) fun answer => ?_
  cases answer with
  | none => trivial
  | some widgetCap =>
      dsimp only
      split
      · trivial
      · split
        · trivial
        · refine Prog.avoids_bind_always ((readNode_asks _ widgetCap).mono hnode)
            (sameNode_readNode _ widgetCap) fun w hw => ?_
          have hw : w.m_ID = widgetID := hw.id
          refine Prog.avoids_bind_always ((hw ▸ collectInputAmps_asks w).mono hamp)
            (onlyAmps_collectInputAmps w) fun w' hw' => ?_
          exact Prog.avoids_bind (((hw'.id.trans hw) ▸ collectOutputAmp_asks w').mono hamp)
            fun _ => trivial

end Asks

/-! ## 5. A scan with given answers -/

/-- Every verb is answered by `R`, where it answers. -/
def answering (R : BitVec 32 → Option (BitVec 32)) : (o : VerbOp) → o.Ans
  | .verb codec node verb command => R (verbWord codec node verb command)
  | .print fmt va => printCount fmt va

/-- The codec says that there is no such node. -/
def Absent (R : BitVec 32 → Option (BitVec 32)) (widgetID : BitVec 32) : Prop :=
  R (widgetCapabilities widgetID) = some 0 ∨ R (widgetCapabilities widgetID) = some 0xFFFFFFFF

instance (R : BitVec 32 → Option (BitVec 32)) (widgetID : BitVec 32) :
    Decidable (Absent R widgetID) := inferInstanceAs (Decidable (_ ∨ _))

section Scan

variable (R : BitVec 32 → Option (BitVec 32))

/-- The widget one turn of the scan stores. -/
def scanned (widgetID : BitVec 32) : Option Widget := (scanNode widgetID).answer (answering R)

/-- The widget of a node that is there. -/
def describedNode (widgetID widgetCap : BitVec 32) : Widget :=
  let widget := (readNode { m_ID := widgetID } widgetCap).answer (answering R)
  let widget := (collectInputAmps widget).answer (answering R)
  (collectOutputAmp widget).answer (answering R)

theorem scanned_eq (widgetID : BitVec 32) : scanned R widgetID =
    match R (widgetCapabilities widgetID) with
    | some widgetCap =>
      if widgetCap = 0 then none else if widgetCap = 0xFFFFFFFF then none
      else some (describedNode R widgetID widgetCap)
    | none => some { m_ID := widgetID } := by
  have h : scanned R widgetID = (match R (widgetCapabilities widgetID) with
      | some widgetCap =>
        if widgetCap = 0 then pure none
        else if widgetCap = 0xFFFFFFFF then pure none
        else do
          let widget ← readNode { m_ID := widgetID } widgetCap
          let widget ← collectInputAmps widget
          let widget ← collectOutputAmp widget
          pure (some widget)
      | none => pure (some { m_ID := widgetID }) : Prog Verbs (Option Widget)).answer
        (answering R) := rfl
  rw [h]
  cases R (widgetCapabilities widgetID) with
  | none => rfl
  | some widgetCap =>
      dsimp only
      split
      · rfl
      · split
        · rfl
        · rw [Prog.answer_bind, Prog.answer_bind, Prog.answer_bind]
          rfl

variable {R} {widgetID : BitVec 32}

/-- **Nothing is stored for exactly the absent nodes.** -/
theorem scanned_none : scanned R widgetID = none ↔ Absent R widgetID := by
  rw [scanned_eq, Absent]
  cases R (widgetCapabilities widgetID) with
  | none => simp
  | some widgetCap =>
      rw [Option.some_inj, Option.some_inj]
      dsimp only
      split
      · rename_i h0
        exact ⟨fun _ => .inl h0, fun _ => rfl⟩
      · rename_i h0
        split
        · rename_i h1
          exact ⟨fun _ => .inr h1, fun _ => rfl⟩
        · rename_i h1
          exact ⟨nofun, fun h => (h.elim h0 h1).elim⟩

theorem scanned_silent (h : R (widgetCapabilities widgetID) = none) :
    scanned R widgetID = some { m_ID := widgetID } := by
  rw [scanned_eq, h]

theorem scanned_id {w : Widget} (h : scanned R widgetID = some w) : w.m_ID = widgetID := by
  rw [scanned_eq] at h
  split at h
  · split at h
    · cases h
    · split at h
      · cases h
      · cases h
        rw [describedNode, ((onlyAmps_collectOutputAmp _).answer _).id,
          ((onlyAmps_collectInputAmps _).answer _).id,
          ((sameNode_readNode _ _).answer _).id]
  · cases h
    rfl

variable (R) in
/-- A scan fills the table slot by slot. -/
theorem collect_answer (m_widgets : List Widget) :
    (collectWidgetInformation m_widgets).answer (answering R) =
      (List.range 64).foldl (fun v i => (scanned R (BitVec.ofNat 32 i)).elim v (v.set i))
        (resize m_widgets 64 {}) := by
  have h : ∀ b : List Widget, ∀ a : Nat, (scanTurn b a).answer (answering R) =
      (scanned R (BitVec.ofNat 32 a)).elim b (b.set a) := fun b a => by
    rw [scanTurn, Prog.answer_bind]
    rfl
  rw [collectWidgetInformation, Prog.answer_foldlM]
  simp only [h]

variable (R) in
theorem length_collect (m_widgets : List Widget) :
    ((collectWidgetInformation m_widgets).answer (answering R)).length = 64 := by
  rw [collect_answer, length_foldl_set (fun i => scanned R (BitVec.ofNat 32 i)), length_resize]

variable (R) in
/-- The table after a scan: a slot nothing is stored in keeps what it held. -/
theorem collect_getElem? (m_widgets : List Widget) {i : Nat} (hi : i < 64) :
    ((collectWidgetInformation m_widgets).answer (answering R))[i]? =
      (resize m_widgets 64 {})[i]?.map (scanned R (BitVec.ofNat 32 i)).getD := by
  rw [collect_answer, getElem?_foldl_set (fun i => scanned R (BitVec.ofNat 32 i)), if_pos hi]

/-- **What a scan owes its table**: 64 entries, and entry `i` is what this scan found out about
    node `i`: the fresh widget for a node that is absent or did not answer. -/
structure DescribesScan (R : BitVec 32 → Option (BitVec 32)) (table : List Widget) : Prop where
  length : table.length = 64
  id : ∀ i w, table[i]? = some w → w.m_ID = BitVec.ofNat 32 i
  none : ∀ i w, table[i]? = some w → Absent R (BitVec.ofNat 32 i) ∨
    R (widgetCapabilities (BitVec.ofNat 32 i)) = none → w = { m_ID := BitVec.ofNat 32 i }
  found : ∀ i w, table[i]? = some w →
    w = (scanned R (BitVec.ofNat 32 i)).getD { m_ID := BitVec.ofNat 32 i }

variable (R) in
/-- **A scan describes its nodes exactly when every absent node's slot held the fresh widget
    before it**: for every answering function and every earlier table. -/
theorem scan_describes_iff (m_widgets : List Widget) :
    DescribesScan R ((collectWidgetInformation m_widgets).answer (answering R)) ↔
      ∀ i < 64, Absent R (BitVec.ofNat 32 i) →
        (resize m_widgets 64 {})[i]? = some { m_ID := BitVec.ofNat 32 i } := by
  have hold : ∀ i, i < 64 → ∃ w, (resize m_widgets 64 {})[i]? = some w := fun i hi =>
    ⟨_, List.getElem?_eq_getElem (by rw [length_resize]; exact hi)⟩
  have hlen := length_collect R m_widgets
  refine ⟨fun h i hi habsent => ?_, fun h => ?_⟩
  · obtain ⟨w, hw⟩ := hold i hi
    have he := collect_getElem? R m_widgets hi
    rw [hw, scanned_none.mpr habsent] at he
    rw [hw, h.none i w he (.inl habsent)]
  · have hfound : ∀ i w, ((collectWidgetInformation m_widgets).answer (answering R))[i]? = some w →
        w = (scanned R (BitVec.ofNat 32 i)).getD { m_ID := BitVec.ofNat 32 i } := by
      intro i w hw
      have hi : i < 64 := by
        rw [← hlen]
        exact (List.getElem?_eq_some_iff.mp hw).1
      rw [collect_getElem? R m_widgets hi] at hw
      cases hs : scanned R (BitVec.ofNat 32 i) with
      | none =>
          rw [h i hi (scanned_none.mp hs), hs] at hw
          exact (Option.some.inj hw).symm
      | some w' =>
          obtain ⟨old, hold⟩ := hold i hi
          rw [hold, hs] at hw
          exact (Option.some.inj hw).symm
    refine ⟨hlen, fun i w hw => ?_, fun i w hw hn => ?_, hfound⟩
    · rw [hfound i w hw]
      cases hs : scanned R (BitVec.ofNat 32 i) with
      | none => rfl
      | some w' => exact scanned_id hs
    · rw [hfound i w hw]
      rcases hn with hn | hn
      · rw [scanned_none.mpr hn]
        rfl
      · rw [scanned_silent hn]
        rfl

end Scan

/-- A codec without nodes: after a first scan entry 1 carries the ID 0. -/
theorem scan_absent_default : ¬ DescribesScan (fun _ => some 0)
    ((collectWidgetInformation []).answer (answering fun _ => some 0)) := by
  intro h
  have he := collect_getElem? (fun _ => some 0) [] (show 1 < 64 by decide)
  rw [scanned_none.mpr (.inl rfl)] at he
  exact absurd (h.id 1 _ he) (by decide)

end TinyOS64
