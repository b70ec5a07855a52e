/-
  File:      TinyOS64/Console/SessionSafety.lean
  Subject:   Which sessions stay defined.

  A line is undefined where its handler reads through a view without pointer or behind the
  terminator, prints a null string, or indexes the table beyond its end. What decides about a line
  is the line and the table's pins, and no session changes these.

  * `execute_defined_iff` -- one line, on any table;
  * `returns_of_defined` -- a defined line comes back, for some answers at least;
  * `session_defined_iff` -- a whole session on the table of a scan.
-/
import TinyOS64.Console.Session
import TinyOS64.Console.LineSafety
import TinyOS64.Console.JackColours

namespace TinyOS64

open Interaction

/-- A read outside the line, a null string, an index outside its table. -/
def Fault.Undefined (f : Fault) : Prop := f.OnLine ∨ f.OnTable

instance : DecidablePred Fault.Undefined := fun f =>
  inferInstanceAs (Decidable (f.OnLine ∨ f.OnTable))

/-! ## 1. Parts of a handler -/

section Parts

variable {α β : Type} {bad : Fault → Prop} {line rest : List Byte}

theorem spares_after (p : Prog Console α) {f : α → ConsoleM β} (hf : ∀ a, Spares bad (f a)) :
    Spares bad ((liftM p : ConsoleM α) >>= f) := spares_bind (spares_liftM p) hf

theorem spares_register (p : Prog Mmio α) {f : α → ConsoleM β} (hf : ∀ a, Spares bad (f a)) :
    Spares bad ((liftM p : ConsoleM α) >>= f) := spares_after (liftM p) hf

theorem spares_verbs (p : Prog Verbs α) {f : α → ConsoleM β} (hf : ∀ a, Spares bad (f a)) :
    Spares bad ((liftM p : ConsoleM α) >>= f) := spares_after (liftM p) hf

/-- A number shorter than 2^32 characters has an end. -/
theorem not_endless (h : rest <:+ line) (hlen : line.length < 2 ^ 32) :
    ¬ Endless (firstParam rest) := by
  intro hend
  have hle := firstParam_le rest
  have hdrop := (List.dropWhile_suffix (l := rest) isSpace).length_le
  have hrest := h.length_le
  exact absurd hend.1 (by omega)

theorem valueFromStr_short (h : rest <:+ line) (hlen : line.length < 2 ^ 32) :
    ∃ value, valueFromStr (lineMemory line) (.param line rest) = .ok value := by
  rcases valueFromStr_param h with ⟨_, hvalue⟩ | ⟨hend, _⟩
  · exact hvalue
  · exact absurd hend (not_endless h hlen)

/-- The number in the next parameter, where there is one or not. -/
theorem nodeArgument_short (h : rest <:+ line) (hlen : line.length < 2 ^ 32) :
    ∃ value, nodeArgument line rest = .ok value := by
  unfold nodeArgument
  by_cases hs : OnlySpaces rest
  · rw [findNextParam_spaces h hs]
    exact ⟨none, rfl⟩
  · rw [findNextParam_param h hs]
    exact valueFromStr_short h hlen

/-- A number the handler can do without. -/
theorem spares_lastValue (h : rest <:+ line) (hlen : line.length < 2 ^ 32)
    {f : Option (BitVec 64) → ConsoleM β}
    (hf : ∀ value, nodeArgument line rest = .ok value → Spares bad (f value)) :
    Spares bad (liftM (findNextParam (lineMemory line) (.tail line rest)) >>= fun r =>
      liftM (valueFromStr (lineMemory line) r.m_param) >>= f) := by
  unfold nodeArgument at hf
  by_cases hs : OnlySpaces rest
  · rw [findNextParam_spaces h hs] at hf ⊢
    exact hf none rfl
  · rw [findNextParam_param h hs] at hf ⊢
    obtain ⟨value, hvalue⟩ := valueFromStr_short h hlen
    rw [liftM_ok_bind]
    dsimp only
    rw [hvalue, liftM_ok_bind]
    exact hf value hvalue

/-- A widget that can be dumped. -/
theorem dump_spares {w : Widget} (hw : ¬ w.Unnamed) : Spares bad w.dump := by
  have hpin : w.m_type = .PinComplex → Spares bad (dumpPinComplex w) := by
    intro htype
    rcases colourAt_cases _ (colour_lt w.m_jackInfo.m_colour) with ⟨_, colour, hc⟩ | ⟨hge, _⟩
    · refine spares_after _ fun _ => spares_after _ fun _ => spares_after _ fun _ =>
        spares_after _ fun _ => spares_after _ fun _ => spares_bind ?_ fun _ => spares_liftM _
      unfold dumpJackInfo
      rw [hc]
      exact spares_after _ fun _ => spares_liftM _
    · exact absurd ⟨htype, hge⟩ hw
  unfold Widget.dump
  refine spares_after _ fun _ => spares_after _ fun _ => ?_
  cases htype : w.m_type with
  | Input | Output | Mixer => exact spares_after _ fun _ => spares_liftM _
  | PinComplex => exact spares_after _ fun _ => hpin htype
  | Unknown | Selector | BeepGen | Vendor => exact spares_liftM _

end Parts

/-! ## 2. The handlers -/

/-- What takes a handler beyond the table: `node` names a pin whose colour has no name, `unmute` a
    node behind the last one. -/
def Command.OffTable (m_widgets : List Widget) (line rest : List Byte) : Command → Prop
  | node => ∃ id w, nodeArgument line rest = .ok (some id) ∧ m_widgets[id.toNat]? = some w ∧
      w.Unnamed
  | unmute => ∃ value, nodeArgument line rest = .ok value ∧
      m_widgets.length ≤ (value.getD 0).toNat
  | _ => False

/-- The two loops of firmware calls. -/
def Command.OfFirmware (c : Command) : Prop := c = .showvideo ∨ c = .showtext

section Handlers

variable {bad : Fault → Prop} {line rest : List Byte} {codec : HDACodec} (h : rest <:+ line)
  (hlen : line.length < 2 ^ 32)

include h

theorem spares_read (hs : ¬ OnlySpaces rest) :
    Spares bad (cmdReadCodecRegister (lineMemory line) codec (.tail line rest)) := by
  unfold cmdReadCodecRegister
  rw [findNextParam_param h hs, liftM_ok_bind]
  dsimp only
  rw [param_text h, liftM_ok_bind, param_cString h]
  exact spares_register _ fun _ => spares_after _ fun _ => spares_pure _

include hlen

theorem spares_write (hs : ¬ OnlySpaces rest) :
    Spares bad (cmdWriteCodecRegister (lineMemory line) codec (.tail line rest)) := by
  unfold cmdWriteCodecRegister
  rw [findNextParam_param h hs, liftM_ok_bind]
  refine spares_lastValue ((afterParam_suffix rest).trans h) hlen fun value _ => ?_
  cases value with
  | none => exact spares_after _ fun _ => spares_pure _
  | some value =>
      dsimp only
      rw [param_cString h, liftM_ok_bind, param_text h]
      exact spares_after _ fun _ => spares_register _ fun _ => spares_pure _

theorem spares_node (ht : ¬ Command.OffTable codec.m_widgets line rest .node) :
    Spares bad (cmdDisplayNode (lineMemory line) codec (.tail line rest)) := by
  refine spares_lastValue h hlen fun widgetID hvalue => ?_
  cases widgetID with
  | none => exact spares_after _ fun _ => spares_pure _
  | some id =>
      dsimp only
      cases hw : codec.m_widgets[id.toNat]? with
      | none => exact spares_after _ fun _ => spares_pure _
      | some w =>
          have hnamed : ¬ w.Unnamed := fun hunnamed => ht ⟨id, w, hvalue, hw, hunnamed⟩
          exact spares_bind (dump_spares hnamed) fun _ => spares_pure _

/-- `unmute` as far as the index: nothing before it can stop, and nothing behind it. -/
theorem unmute_index (codec : HDACodec) (hs : ¬ OnlySpaces rest) :
    ∃ (value : Option (BitVec 64)) (f : Widget → ConsoleM (Bool × HDACodec)),
      nodeArgument line rest = .ok value ∧ (∀ bad w, Spares bad (f w)) ∧
      cmdUnmute (lineMemory line) codec (.tail line rest) =
        (liftM (widgetAt codec (value.getD 0)) >>= f) := by
  have hafter := (afterParam_suffix rest).trans h
  obtain ⟨value, hvalue⟩ := valueFromStr_short h hlen
  obtain ⟨result, hnext, _⟩ := findNextParam_total hafter
  obtain ⟨channel, hchannel⟩ := nodeArgument_short hafter hlen
  have hchannel : valueFromStr (lineMemory line) result.m_param = .ok channel := by
    unfold nodeArgument at hchannel
    rwa [hnext, Fault.ok_bind] at hchannel
  refine ⟨value, ?_, ?_, ?_, ?_⟩
  case refine_4 =>
    unfold cmdUnmute
    rw [findNextParam_param h hs, liftM_ok_bind]
    dsimp only
    rw [hvalue, liftM_ok_bind, hnext, liftM_ok_bind, hchannel, liftM_ok_bind]
  · unfold nodeArgument
    rw [findNextParam_param h hs]
    exact hvalue
  · exact fun _ w => spares_after _ fun _ => spares_verbs _ fun _ => spares_verbs _ fun _ =>
      spares_pure _

theorem spares_unmute (hs : ¬ OnlySpaces rest)
    (ht : ¬ Command.OffTable codec.m_widgets line rest .unmute) :
    Spares bad (cmdUnmute (lineMemory line) codec (.tail line rest)) := by
  obtain ⟨value, f, hvalue, hf, hrun⟩ := unmute_index h hlen codec hs
  have hlt : (value.getD 0).toNat < codec.m_widgets.length := by
    by_contra hle
    exact ht ⟨value, hvalue, Nat.le_of_not_lt hle⟩
  rw [hrun, widgetAt, List.getElem?_eq_getElem hlt]
  exact hf _ _

/-- The vector is indexed before anything can be said of the node. -/
theorem unmute_offTable (hs : ¬ OnlySpaces rest)
    (ht : Command.OffTable codec.m_widgets line rest .unmute) :
    ¬ TableSafe (cmdUnmute (lineMemory line) codec (.tail line rest)) := by
  obtain ⟨value, f, hvalue, _, hrun⟩ := unmute_index h hlen codec hs
  obtain ⟨value', hvalue', hle⟩ := ht
  cases hvalue.symm.trans hvalue'
  rw [hrun, widgetAt, List.getElem?_eq_none hle]
  exact fun hsafe => spares_throw.mp hsafe (.inr rfl)

theorem spares_nodeio (hs : ¬ OnlySpaces rest) (hs' : ¬ OnlySpaces (afterParam rest)) :
    Spares bad ( cmdNodeIO (lineMemory line) codec (.tail line rest)) := by
  have hafter := (afterParam_suffix rest).trans h
  unfold cmdNodeIO
  obtain ⟨value, hvalue⟩ := valueFromStr_short h hlen
  obtain ⟨verb, hverb⟩ := valueFromStr_short hafter hlen
  rw [findNextParam_param h hs, liftM_ok_bind]
  dsimp only
  rw [hvalue, liftM_ok_bind, findNextParam_param hafter hs', liftM_ok_bind]
  dsimp only
  rw [hverb, liftM_ok_bind]
  refine spares_lastValue ((afterParam_suffix _).trans hafter) hlen fun payload _ => ?_
  exact spares_after _ fun _ => spares_verbs _ fun _ => spares_after _ fun _ => spares_pure _

theorem spares_rdmem (hs : ¬ OnlySpaces rest) :
    Spares bad (cmdReadMem (lineMemory line) codec (.tail line rest)) := by
  have hafter := (afterParam_suffix rest).trans h
  unfold cmdReadMem
  obtain ⟨addr, haddr⟩ := valueFromStr_short h hlen
  rw [findNextParam_param h hs, liftM_ok_bind]
  dsimp only
  rw [haddr, liftM_ok_bind]
  refine spares_lastValue hafter hlen fun len _ => ?_
  cases addr with
  | none => exact spares_pure _
  | some address => exact spares_after _ fun _ => spares_after _ fun _ => spares_pure _

theorem spares_getformat : Spares bad (cmdGetFormat (lineMemory line) codec (.tail line rest)) := by
  refine spares_lastValue h hlen fun widgetID _ => ?_
  cases widgetID with
  | none => exact spares_pure _
  | some id =>
      dsimp only
      cases codec.m_widgets[id.toNat]? with
      | none => exact spares_after _ fun _ => spares_pure _
      | some w =>
          refine spares_verbs _ fun format => ?_
          cases format with
          | none | some => exact spares_after _ fun _ => spares_pure _

theorem spares_settextmode :
    Spares bad (cmdSetTextMode (lineMemory line) codec (.tail line rest)) := by
  refine spares_lastValue h hlen fun mode _ => ?_
  cases mode with
  | none => exact spares_pure _
  | some modeID => exact spares_after _ fun _ => spares_pure _

omit h hlen in
theorem spares_showvideo (hbad : ¬ bad .nullPointer) (mem : List Byte) (params : View) :
    Spares bad (cmdShowVideo mem codec params) := by
  refine spares_after _ fun _ => spares_after _ fun answer => ?_
  refine spares_ite (spares_after _ fun _ => spares_pure _) ?_
  refine spares_after _ fun _ => spares_after _ fun _ => spares_after _ fun _ => ?_
  cases answer.2 with
  | none => exact spares_throw.mpr hbad
  | some mode =>
      exact spares_after _ fun _ => spares_after _ fun _ => spares_after _ fun _ => spares_pure _

omit h hlen in
theorem spares_showTextModes (hbad : ¬ bad .unfinished) (polls : Nat) (mode : BitVec 64) :
    Spares bad (showTextModes polls mode) := by
  induction polls generalizing mode with
  | zero => exact spares_throw.mpr hbad
  | succ polls ih =>
      exact spares_after _ fun answer => spares_ite (spares_after _ fun _ => ih _) (spares_pure _)

omit h hlen in
theorem spares_help (mem : List Byte) (params : View) : Spares bad (cmdHelp mem codec params) := by
  refine spares_after _ fun _ => spares_bind (spares_forM (fun cmd => ?_) _) fun _ => spares_pure _
  exact spares_after _ fun _ => spares_after _ fun _ => spares_liftM _

/-- **A handler with its parameters, on a table that has what it names, does not stop at all**, the
    two that loop over calls of the firmware apart. -/
theorem m_func_spares (polls : Nat) {c : Command} (hmiss : ¬ c.MissesParam rest)
    (ht : ¬ c.OffTable codec.m_widgets line rest)
    (hfirmware : c.OfFirmware → ¬ bad .nullPointer ∧ ¬ bad .unfinished) :
    Spares bad (c.m_func polls (lineMemory line) codec (.tail line rest)) := by
  cases c with
  | read => exact spares_read h hmiss
  | write => exact spares_write h hlen hmiss
  | node => exact spares_node h hlen ht
  | unmute => exact spares_unmute h hlen hmiss ht
  | nodeio =>
      have hs : ¬ OnlySpaces rest := fun hs => hmiss (.inl hs)
      exact spares_nodeio h hlen hs fun hs' => hmiss (.inr ⟨hs', not_endless h hlen⟩)
  | rdmem => exact spares_rdmem h hlen hmiss
  | getformat => exact spares_getformat h hlen
  | settextmode => exact spares_settextmode h hlen
  | refresh => exact spares_verbs _ fun _ => spares_pure _
  | playpos => exact spares_register _ fun _ => spares_after _ fun _ => spares_pure _
  | help => exact spares_help (lineMemory line) (.tail line rest)
  | showvideo => exact spares_showvideo (hfirmware (.inl rfl)).1 (lineMemory line) (.tail line rest)
  | showtext =>
      exact spares_after _ fun _ =>
        spares_bind (spares_showTextModes (hfirmware (.inr rfl)).2 polls 0) fun _ => spares_pure _

end Handlers

/-! ## 3. One line -/

/-- The line misses a parameter, or leads off the table. -/
def LineUndefined (m_widgets : List Widget) (line : List Byte) : Prop :=
  ∃ c, commandOf line = some c ∧ (c.MissesParam (line.dropWhile isAlpha) ∨
    c.OffTable m_widgets line (line.dropWhile isAlpha))

/-- Answers that end every loop over calls of the firmware. -/
def Console.quiet : (o : ConsoleOp) → o.Ans
  | .locateGraphics => (1, none)
  | .queryMode _ => (1, 0, 0)
  | o => Console.silent o

section OneLine

variable {polls : Nat} {codec : HDACodec} {line : List Byte} (hlen : line.length < 2 ^ 32)

include hlen

/-- **One line**: whatever the machine answers, it is read and looked up within bounds, exactly when
    it misses no parameter and does not lead off the table. -/
theorem execute_defined_iff : Spares Fault.Undefined
    (execute polls (lineMemory line) codec ⟨some 0, line.length⟩) ↔
      ¬ LineUndefined codec.m_widgets line := by
  have hsuffix := List.dropWhile_suffix (l := line) isAlpha
  rw [execute_eq]
  cases hc : commandOf line with
  | none =>
      refine iff_of_true (spares_pure _) ?_
      intro hundefined
      obtain ⟨c, hcommand, _⟩ := hundefined
      cases hc.symm.trans hcommand
  | some c =>
      refine ⟨fun hsafe => ?_, fun hdefined => ?_⟩
      · have hmiss := (lineSafe_m_func hsuffix polls codec c).mp (hsafe.mono fun _ => .inl)
        have htable : TableSafe _ := hsafe.mono fun _ => .inr
        intro hundefined
        obtain ⟨c', hcommand, hundefined⟩ := hundefined
        cases hc.symm.trans hcommand
        refine hundefined.elim hmiss fun ht => ?_
        cases c with
        | node =>
            obtain ⟨id, w, hvalue, hw, hunnamed⟩ := ht
            exact (cmdDisplayNode_tableSafe hsuffix codec).mp htable id hvalue w hw hunnamed
        | unmute => exact unmute_offTable hsuffix hlen hmiss ht htable
        | _ => exact ht
      · exact m_func_spares hsuffix hlen polls (fun hmiss => hdefined ⟨c, hc, .inl hmiss⟩)
          (fun ht => hdefined ⟨c, hc, .inr ht⟩) fun _ => by decide

/-- **A defined line comes back**, for some answers at least. -/
theorem returns_of_defined (hpolls : 0 < polls) (hdefined : ¬ LineUndefined codec.m_widgets line) :
    ∃ r, (execute polls (lineMemory line) codec ⟨some 0, line.length⟩).run.answer Console.quiet =
      .ok r := by
  obtain ⟨polls, rfl⟩ := Nat.exists_eq_add_one.mpr hpolls
  rw [execute_eq]
  cases hc : commandOf line with
  | none => exact ⟨_, rfl⟩
  | some c =>
      by_cases hfirmware : c.OfFirmware
      · rcases hfirmware with rfl | rfl
        · exact ⟨(false, codec), rfl⟩
        · exact ⟨(true, codec), rfl⟩
      · have hspares : Spares (fun _ => True) (c.m_func (polls + 1) (lineMemory line) codec
            (.tail line (line.dropWhile isAlpha))) :=
          m_func_spares (List.dropWhile_suffix _) hlen _ (fun hmiss => hdefined ⟨c, hc, .inl hmiss⟩)
            (fun ht => hdefined ⟨c, hc, .inr ht⟩) fun h => absurd h hfirmware
        show ∃ r, (c.m_func (polls + 1) (lineMemory line) codec
          (.tail line (line.dropWhile isAlpha))).run.answer Console.quiet = .ok r
        cases hrun : (c.m_func (polls + 1) (lineMemory line) codec
            (.tail line (line.dropWhile isAlpha))).run.answer Console.quiet with
        | ok r => exact ⟨r, rfl⟩
        | error e => exact absurd trivial (hspares.answer Console.quiet e hrun)

end OneLine

/-- **What decides about a line does not change**: only amplifiers do. -/
theorem lineUndefined_onlyAmps {ws ws' : List Widget} (h : List.Forall₂ OnlyAmps ws ws')
    (line : List Byte) : LineUndefined ws' line ↔ LineUndefined ws line := by
  have hunnamed : ∀ i : Nat, (∃ w : Widget, ws'[i]? = some w ∧ w.Unnamed) ↔
      ∃ w : Widget, ws[i]? = some w ∧ w.Unnamed := by
    intro i
    induction h generalizing i with
    | nil => rfl
    | cons hw _ ih =>
        cases i with
        | zero => simp only [List.getElem?_cons_zero, Option.some.injEq, exists_eq_left',
            hw.samePin.unnamed]
        | succ i => exact ih i
  refine exists_congr fun c => and_congr_right fun _ => or_congr_right ?_
  cases c with
  | node =>
      refine exists_congr fun id => ?_
      have hid := hunnamed id.toNat
      simp only [exists_and_left]
      exact and_congr_right fun _ => hid
  | unmute => exact exists_congr fun value => by rw [h.length_eq]
  | _ => rfl

/-! ## 4. Sessions -/

/-- A session without an undefined line is defined, whatever the machine answers. -/
theorem runLines_spares (polls : Nat) {lines : List (List Byte)}
    (hlen : ∀ line ∈ lines, line.length < 2 ^ 32) {codec : HDACodec}
    (hdefined : ∀ line ∈ lines, ¬ LineUndefined codec.m_widgets line) :
    Spares Fault.Undefined (runLines polls lines codec) := by
  induction lines generalizing codec with
  | nil => exact spares_pure _
  | cons line lines ih =>
      rw [List.forall_mem_cons] at hlen hdefined
      refine spares_bind_yields ((execute_defined_iff hlen.1).mpr hdefined.1)
        (execute_codec polls codec line) fun r hr => ih hlen.2 fun line' hline' => ?_
      rw [lineUndefined_onlyAmps hr.sameButAmps.widgets]
      exact hdefined.2 line' hline'

/-- **A session**: exactly the sessions without an undefined line are defined, whatever the machine
    answers. -/
theorem runLines_defined_iff {polls : Nat} (hpolls : 0 < polls) {lines : List (List Byte)}
    (hlen : ∀ line ∈ lines, line.length < 2 ^ 32) (codec : HDACodec) :
    Spares Fault.Undefined (runLines polls lines codec) ↔
      ∀ line ∈ lines, ¬ LineUndefined codec.m_widgets line := by
  refine ⟨fun hsafe => ?_, runLines_spares polls hlen⟩
  induction lines generalizing codec with
  | nil => exact fun line hline => absurd hline List.not_mem_nil
  | cons line lines ih =>
      rw [List.forall_mem_cons] at hlen ⊢
      -- the line is defined, so some answers take the session to the rest
      have hdefined := (execute_defined_iff hlen.1).mp hsafe.left
      obtain ⟨r, hr⟩ := returns_of_defined hlen.1 hpolls hdefined
      have hafter := (execute_codec polls codec line).answer Console.quiet r hr
      refine ⟨hdefined, fun line' hline' => ?_⟩
      rw [← lineUndefined_onlyAmps hafter.sameButAmps.widgets]
      exact ih hlen.2 r.2 (hsafe.right.answer Console.quiet r hr) line' hline'

section Scanned

variable (R : BitVec 32 → Option (BitVec 32))

/-- Off the table of a scan, by what the codec has answered. -/
def Command.OffCodec (line rest : List Byte) : Command → Prop
  | node => ∃ id, nodeArgument line rest = .ok (some id) ∧ id < 64 ∧ UnnamedPin R (id.setWidth 32)
  | unmute => ∃ value, nodeArgument line rest = .ok value ∧ 64 ≤ (value.getD 0).toNat
  | _ => False

theorem offTable_scan (c : Command) (line rest : List Byte) :
    c.OffTable ((collectWidgetInformation []).answer (answering R)) line rest ↔
      c.OffCodec R line rest := by
  have hlength := length_collect R []
  cases c with
  | node =>
      refine exists_congr fun id => ?_
      have hid : id.setWidth 32 = BitVec.ofNat 32 id.toNat := rfl
      constructor
      · intro hnode
        obtain ⟨w, hvalue, hw, hunnamed⟩ := hnode
        have hi : id.toNat < 64 := lt_of_lt_of_eq (List.getElem?_eq_some_iff.mp hw).1 hlength
        exact ⟨hvalue, hi, (table_unnamed hi hw).mp hunnamed⟩
      · intro hnode
        obtain ⟨hvalue, hi, hpin⟩ := hnode
        have hi : id.toNat < 64 := hi
        have hw := List.getElem?_eq_getElem (lt_of_lt_of_eq hi hlength.symm)
        exact ⟨_, hvalue, hw, (table_unnamed hi hw).mpr hpin⟩
  | unmute => exact exists_congr fun value => by rw [hlength]
  | _ => rfl

/-- **Which sessions are defined**: on the table of a first scan, whatever the codec has answered
    it and whatever the machine answers then, a session reads and indexes within bounds and prints
    names only, exactly when none of its lines has spaces alone where its command needs a parameter,
    no `node` names a pin with one of the colours 13, 14 and 15, and no `unmute` a node from 64
    on. -/
theorem session_defined_iff {polls : Nat} (hpolls : 0 < polls) {lines : List (List Byte)}
    (hlen : ∀ line ∈ lines, line.length < 2 ^ 32) (codec : HDACodec)
    (htable : codec.m_widgets = (collectWidgetInformation []).answer (answering R)) :
    Spares Fault.Undefined (runLines polls lines codec) ↔
      ∀ line ∈ lines, ∀ c, commandOf line = some c →
        ¬ c.MissesParam (line.dropWhile isAlpha) ∧
          ¬ c.OffCodec R line (line.dropWhile isAlpha) := by
  rw [runLines_defined_iff hpolls hlen codec, htable]
  refine forall_congr' fun line => imp_congr_right fun _ => ?_
  unfold LineUndefined
  simp only [not_exists, not_and, not_or, offTable_scan]

end Scanned

/-- A codec that does not answer; the second line names a node behind the last one. -/
theorem session_defined_iff_unmute :
    let lines := [bytes "refresh", bytes "unmute 64 0"]
    let codec : HDACodec := ⟨(collectWidgetInformation []).answer (answering fun _ => none),
      0x1000, 0x2000, 0x12000, 0x80, 0x100⟩
    Spares Fault.Undefined (runLines 1 lines codec) ↔
      ∀ line ∈ lines, ∀ c, commandOf line = some c →
        ¬ c.MissesParam (line.dropWhile isAlpha) ∧
          ¬ c.OffCodec (fun _ => none) line (line.dropWhile isAlpha) := by
  intro lines codec
  exact session_defined_iff (fun _ => none) (by decide) (by decide +kernel) codec rfl

end TinyOS64
