/-
  File:      TinyOS64/Console/JackColours.lean
  Subject:   The node command on a scanned table, and the names of jack colours.

  The four bits of a jack's colour go from a default-configuration answer into the table, and
  from the table into an index of `JackInfo::colours`, which has 16 places for 13 names: the
  colours 13, 14 and 15 of the hardware are printed through a null pointer.

  * `dump_tableSafe` -- which widgets can be dumped;
  * `table_unnamed` -- which answers of the codec make the others;
  * `node_tableSafe_iff` -- what that means for the lines `node ..`.
-/
import TinyOS64.Console.Grammar

namespace TinyOS64

open Interaction

/-- A null string for `%s`, or an index outside its table. -/
def Fault.OnTable (f : Fault) : Prop := f = .nullString ∨ f = .outOfRange

instance : DecidablePred Fault.OnTable := fun f =>
  inferInstanceAs (Decidable (f = .nullString ∨ f = .outOfRange))

/-- Whatever the environment answers, every string is there and every index in its table. -/
abbrev TableSafe {α : Type} (p : ConsoleM α) : Prop := Spares Fault.OnTable p

/-! ## 1. Which widgets can be dumped -/

section Dump

variable {α β : Type}

/-- A part that cannot stop. -/
theorem tableSafe_after {p : Prog Console Unit} {f : Unit → ConsoleM β} :
    TableSafe ((liftM p : ConsoleM Unit) >>= f) ↔ TableSafe (f ()) := by
  rw [TableSafe, spares_liftM_bind]
  exact ⟨fun h => h.answer Console.silent, fun h _ _ => h⟩

/-- The name of a colour: the table has names for 0 to 12. -/
theorem colourAt_cases : ∀ i < 16,
    (i < 13 ∧ ∃ colour, colourAt i = .ok colour) ∨ (13 ≤ i ∧ colourAt i = .error .nullString) := by
  have h : ∀ i < 16, (i < 13 ∧ (colourAt i).toOption.isSome) ∨
      (13 ≤ i ∧ colourAt i = .error .nullString) := by decide
  intro i hi
  refine (h i hi).imp_left fun hok => ⟨hok.1, ?_⟩
  cases hc : colourAt i with
  | ok colour => exact ⟨colour, rfl⟩
  | error e =>
      rw [hc] at hok
      exact absurd hok.2 Bool.false_ne_true

theorem colour_lt (c : BitVec 32) : (c &&& 0xF).toNat < 16 :=
  WordFields.and_toNat_lt c (by decide)

/-- **A jack is dumped safely exactly when its colour has a name.** -/
theorem dumpJackInfo_tableSafe {info : JackInfo} :
    TableSafe (dumpJackInfo info) ↔ (info.m_colour &&& 0xF).toNat < 13 := by
  unfold dumpJackInfo
  rcases colourAt_cases _ (colour_lt info.m_colour) with ⟨hlt, colour, hc⟩ | ⟨hge, hc⟩
  · rw [hc, liftM_ok_bind, tableSafe_after]
    exact iff_of_true (spares_liftM _) hlt
  · rw [hc, liftM_error_bind]
    exact iff_of_false (fun h => spares_throw.mp h (.inl rfl)) (by omega)

theorem dumpPinComplex_tableSafe {w : Widget} :
    TableSafe (dumpPinComplex w) ↔ (w.m_jackInfo.m_colour &&& 0xF).toNat < 13 := by
  unfold dumpPinComplex
  rw [tableSafe_after, tableSafe_after, tableSafe_after, tableSafe_after, tableSafe_after,
    ← dumpJackInfo_tableSafe]
  exact ⟨Spares.left, fun h => spares_bind h fun _ => spares_liftM _⟩

/-- The widget's jack has a colour without a name. -/
def Widget.Unnamed (w : Widget) : Prop :=
  w.m_type = .PinComplex ∧ 13 ≤ (w.m_jackInfo.m_colour &&& 0xF).toNat

/-- **A widget is dumped safely unless it is a pin whose colour has no name.** -/
theorem dump_tableSafe {w : Widget} : TableSafe w.dump ↔ ¬ w.Unnamed := by
  have hother : w.m_type ≠ .PinComplex → ¬ w.Unnamed := fun h hw => h hw.1
  unfold Widget.dump
  rw [tableSafe_after, tableSafe_after]
  cases htype : w.m_type with
  | PinComplex =>
      dsimp only
      rw [tableSafe_after, dumpPinComplex_tableSafe, Widget.Unnamed, htype, ← not_le]
      exact not_congr (by simp)
  | Input | Output | Mixer =>
      dsimp only
      rw [tableSafe_after]
      exact iff_of_true (spares_liftM _) (hother (by rw [htype]; decide))
  | Unknown | Selector | BeepGen | Vendor =>
      exact iff_of_true (spares_liftM _) (hother (by rw [htype]; decide))

end Dump

/-! ## 2. Which answers make the others -/

/-- Type and jack are the same. -/
structure SamePin (w w' : Widget) : Prop where
  type : w'.m_type = w.m_type
  jackInfo : w'.m_jackInfo = w.m_jackInfo

theorem SamePin.unnamed {w w' : Widget} (h : SamePin w w') : w'.Unnamed ↔ w.Unnamed := by
  rw [Widget.Unnamed, Widget.Unnamed, h.type, h.jackInfo]

theorem OnlyConnections.samePin {w w' : Widget} (h : OnlyConnections w w') : SamePin w w' := by
  obtain ⟨_, _, rfl⟩ := h
  exact ⟨rfl, rfl⟩

theorem OnlyAmps.samePin {w w' : Widget} (h : OnlyAmps w w') : SamePin w w' := by
  obtain ⟨_, _, rfl⟩ := h
  exact ⟨rfl, rfl⟩

/-- The node calls itself a pin complex, and its default configuration has a colour from 13 on. -/
structure UnnamedPin (R : BitVec 32 → Option (BitVec 32)) (node : BitVec 32) : Prop where
  pin : ∃ widgetCap, R (widgetCapabilities node) = some widgetCap ∧
    (widgetCap >>> 20) &&& 0x0F = 4
  colour : ∃ config, R (verbWord 0 node 0xF1C 0x00) = some config ∧
    13 ≤ ((config >>> 12) &&& 0xF).toNat

section Table

variable {R : BitVec 32 → Option (BitVec 32)}

theorem widgetTypeOf_pin {n : Nat} : widgetTypeOf n = .PinComplex ↔ n = 4 := by
  unfold widgetTypeOf
  split <;> simp_all

/-- The type comes from the capabilities; the jack is still the fresh widget's. -/
theorem readType_pin (node widgetCap : BitVec 32) :
    (readType { m_ID := node } widgetCap).Always fun w => w.m_ID = node ∧
      w.m_type = widgetTypeOf ((widgetCap >>> 20) &&& 0x0F).toNat ∧ w.m_jackInfo = {} := by
  unfold readType
  dsimp only
  split
  · exact Prog.always_bind.mpr fun _ _ => Prog.always_ret.mpr ⟨rfl, rfl, rfl⟩
  · exact Prog.always_ret.mpr ⟨rfl, rfl, rfl⟩

/-- The jack of a pin comes from its default configuration. -/
theorem readPin_answer (w : Widget) (hjack : w.m_jackInfo = {}) :
    ((readPin w).answer (answering R)).Unnamed ↔ w.m_type = .PinComplex ∧
      ∃ config, R (verbWord 0 w.m_ID 0xF1C 0x00) = some config ∧
        13 ≤ ((config >>> 12) &&& 0xF).toNat := by
  unfold readPin
  by_cases hpin : w.m_type = .PinComplex
  · have hcap : ∀ (w : Widget) (pinCap : Option (BitVec 32)),
        (pinCap.elim w (withPinCap w)).Unnamed ↔ w.Unnamed := fun w pinCap =>
      SamePin.unnamed (by cases pinCap <;> exact ⟨rfl, rfl⟩)
    rw [if_pos hpin, Prog.answer_bind, Prog.answer_bind, Prog.pure_eq, Prog.answer_ret, hcap,
      and_iff_right hpin]
    have hask : ∀ codec node v command, (Verbs.ask codec node v command).answer (answering R) =
        R (verbWord codec node v command) := fun _ _ _ _ => rfl
    rw [hask]
    cases R (verbWord 0 w.m_ID 0xF1C 0x00) with
    | none =>
        refine iff_of_false (fun h => ?_) (by simp)
        have hc : 13 ≤ (w.m_jackInfo.m_colour &&& 0xF).toNat := h.2
        rw [hjack] at hc
        exact absurd hc (by decide)
    | some config =>
        have hcolour : (withDefaultConfig w config).m_jackInfo.m_colour &&& (0xF : BitVec 32) =
            (config >>> 12) &&& (0xF : BitVec 32) := by
          change ((config >>> 12) &&& 0xF) &&& (0xF : BitVec 32) = _
          rw [BitVec.and_assoc, BitVec.and_self]
        simp only [Option.elim_some, Option.some_inj, exists_eq_left']
        rw [Widget.Unnamed, hcolour]
        exact and_iff_right hpin
  · rw [if_neg hpin]
    exact iff_of_false (fun h => hpin h.1) fun h => hpin h.1

/-- **A described node has an unnamed jack exactly when its two answers say so.** -/
theorem describedNode_unnamed (node widgetCap : BitVec 32) :
    (describedNode R node widgetCap).Unnamed ↔ (widgetCap >>> 20) &&& 0x0F = 4 ∧
      ∃ config, R (verbWord 0 node 0xF1C 0x00) = some config ∧
        13 ≤ ((config >>> 12) &&& 0xF).toNat := by
  obtain ⟨hid, htype, hjack⟩ := (readType_pin node widgetCap).answer (answering R)
  unfold describedNode readNode
  dsimp only
  rw [((onlyAmps_collectOutputAmp _).answer (answering R)).samePin.unnamed,
    ((onlyAmps_collectInputAmps _).answer (answering R)).samePin.unnamed, Prog.answer_bind,
    Prog.answer_bind,
    ((onlyConnections_readConnections _ widgetCap).answer (answering R)).samePin.unnamed,
    readPin_answer _ hjack, hid, htype, widgetTypeOf_pin]
  exact and_congr_left fun _ => ⟨fun h => BitVec.eq_of_toNat_eq h, fun h => congrArg _ h⟩

/-- A node that gives no capabilities is no pin. -/
theorem not_unnamedPin_silent {node : BitVec 32} (hcap : R (widgetCapabilities node) = none) :
    ¬ UnnamedPin R node := by
  intro h
  obtain ⟨widgetCap, hsome, _⟩ := h.pin
  rw [hcap] at hsome
  cases hsome

theorem unnamedPin_iff {node widgetCap : BitVec 32}
    (hcap : R (widgetCapabilities node) = some widgetCap) :
    UnnamedPin R node ↔ (widgetCap >>> 20) &&& 0x0F = 4 ∧
      ∃ config, R (verbWord 0 node 0xF1C 0x00) = some config ∧
        13 ≤ ((config >>> 12) &&& 0xF).toNat := by
  refine ⟨fun h => ?_, fun h => ⟨⟨widgetCap, hcap, h.1⟩, h.2⟩⟩
  obtain ⟨widgetCap', hsome, htype⟩ := h.pin
  rw [hcap] at hsome
  cases hsome
  exact ⟨htype, h.colour⟩

/-- **The table of a scan**: which entries cannot be dumped. -/
theorem table_unnamed {i : Nat} (hi : i < 64) {w : Widget}
    (hw : ((collectWidgetInformation []).answer (answering R))[i]? = some w) :
    w.Unnamed ↔ UnnamedPin R (BitVec.ofNat 32 i) := by
  have hfresh : ∀ id, ¬ ({ m_ID := id } : Widget).Unnamed := fun id h => by cases h.1
  have hslot : (resize [] 64 ({} : Widget))[i]? = some {} := by
    rw [resize_nil, List.getElem?_replicate, if_pos hi]
  rw [collect_getElem? R [] hi, hslot, Option.map_some, scanned_eq] at hw
  have hw := (Option.some.inj hw).symm
  cases hcap : R (widgetCapabilities (BitVec.ofNat 32 i)) with
  | none =>
      rw [hcap] at hw
      rw [hw]
      exact iff_of_false (hfresh _) (not_unnamedPin_silent hcap)
  | some widgetCap =>
      have hpin := unnamedPin_iff hcap
      rw [hcap] at hw
      dsimp only at hw
      rw [hpin, hw]
      split
      · rename_i h0
        rw [h0]
        exact iff_of_false (hfresh _) (by simp)
      · split
        · rename_i h1
          rw [h1]
          exact iff_of_false (hfresh _) (by simp)
        · exact describedNode_unnamed _ widgetCap

end Table

/-! ## 3. The node command -/

/-- The number `cmdDisplayNode` reads from the rest of a line. -/
def nodeArgument (line rest : List Byte) : Except Fault (Option (BitVec 64)) := do
  let widgetParam ← findNextParam (lineMemory line) (.tail line rest)
  valueFromStr (lineMemory line) widgetParam.m_param

/-- A parameter is found or not, and its value fails only by not ending. -/
theorem findNextParam_total {line rest : List Byte} (h : rest <:+ line) : ∃ result,
    findNextParam (lineMemory line) (.tail line rest) = .ok result ∧
      ∀ e, valueFromStr (lineMemory line) result.m_param = .error e → e = .unfinished := by
  by_cases hs : OnlySpaces rest
  · exact ⟨_, findNextParam_spaces h hs, fun e he => by cases he⟩
  · refine ⟨_, findNextParam_param h hs, fun e he => ?_⟩
    rcases valueFromStr_param h with ⟨_, value, hv⟩ | ⟨_, hv⟩
    · exact nomatch hv.symm.trans he
    · exact (Except.error.inj (hv.symm.trans he)).symm

/-- **One handler**: the node its argument names is dumped. -/
theorem cmdDisplayNode_tableSafe {line rest : List Byte} (h : rest <:+ line) (codec : HDACodec) :
    TableSafe (cmdDisplayNode (lineMemory line) codec (.tail line rest)) ↔
      ∀ id, nodeArgument line rest = .ok (some id) →
        ∀ w, codec.m_widgets[id.toNat]? = some w → ¬ w.Unnamed := by
  obtain ⟨result, hnext, herror⟩ := findNextParam_total h
  unfold cmdDisplayNode nodeArgument
  rw [hnext, liftM_ok_bind, Fault.ok_bind]
  generalize valueFromStr (lineMemory line) result.m_param = value at herror ⊢
  cases value with
  | error e =>
      rw [liftM_error_bind, herror e rfl]
      exact iff_of_true (spares_throw.mpr (by decide)) fun id he => (nomatch he)
  | ok widgetID =>
      rw [liftM_ok_bind]
      cases widgetID with
      | none =>
          exact iff_of_true (tableSafe_after.mpr (spares_pure _)) fun id he => (nomatch he)
      | some id =>
          simp only [Except.ok.injEq, Option.some_inj, forall_eq']
          cases hw : codec.m_widgets[id.toNat]? with
          | none =>
              exact iff_of_true (tableSafe_after.mpr (spares_pure _)) fun w he => (nomatch he)
          | some w =>
              simp only [Option.some_inj, forall_eq']
              rw [← dump_tableSafe]
              exact ⟨Spares.left, fun hd => spares_bind hd fun _ => spares_pure _⟩

/-- The line `node`, followed by its argument. -/
def nodeLine (arg : List Byte) : List Byte := bytes "node " ++ arg

theorem nodeLine_command (arg : List Byte) : commandOf (nodeLine arg) = some .node ∧
    (nodeLine arg).dropWhile isAlpha = chr ' ' :: arg :=
  command_line .node arg

/-- **The node command prints names only, exactly when its argument does not name a pin whose
    default configuration has one of the colours 13, 14 and 15**: for every answering function and
    every argument, on the table of a first scan. -/
theorem node_tableSafe_iff (polls : Nat) (R : BitVec 32 → Option (BitVec 32)) (codec : HDACodec)
    (arg : List Byte) :
    TableSafe (execute polls (lineMemory (nodeLine arg))
      { codec with m_widgets := (collectWidgetInformation []).answer (answering R) }
      ⟨some 0, (nodeLine arg).length⟩) ↔
    ∀ id, nodeArgument (nodeLine arg) (chr ' ' :: arg) = .ok (some id) → id < 64 →
      ¬ UnnamedPin R (id.setWidth 32) := by
  obtain ⟨hcmd, hrest⟩ := nodeLine_command arg
  have hsuffix : chr ' ' :: arg <:+ nodeLine arg := ⟨bytes "node", rfl⟩
  have hlen := length_collect R []
  rw [execute_eq, hcmd, hrest]
  refine (cmdDisplayNode_tableSafe hsuffix _).trans (forall_congr' fun id =>
    imp_congr_right fun _ => ?_)
  have hid : id.setWidth 32 = BitVec.ofNat 32 id.toNat := rfl
  refine ⟨fun h hlt => ?_, fun h w hw => ?_⟩
  · have hi : id.toNat < 64 := hlt
    have hget := List.getElem?_eq_getElem (lt_of_lt_of_eq hi hlen.symm)
    rw [hid, ← table_unnamed hi hget]
    exact h _ hget
  · have hi : id.toNat < 64 := lt_of_lt_of_eq (List.getElem?_eq_some_iff.mp hw).1 hlen
    rw [table_unnamed hi hw, ← hid]
    exact h hi

/-- A pin complex at node 1 whose jack has colour 13: the line `node 1` prints a null string. -/
theorem node_null_colour : ¬ TableSafe (execute 0 (lineMemory (nodeLine (bytes "1")))
    { m_widgets := (collectWidgetInformation []).answer (answering fun word =>
        if word = widgetCapabilities 1 then some 0x00400000
        else if word = verbWord 0 1 0xF1C 0x00 then some 0x0000D000 else none)
      m_descriptorBuffer := 0x1000, m_audioBuffer := 0x2000, m_dmaPositionBuffer := 0x12000
      m_inputDescriptor := 0x80, m_outputDescriptor := 0x100 }
    ⟨some 0, (nodeLine (bytes "1")).length⟩) := by
  obtain ⟨hcmd, hrest⟩ := nodeLine_command (bytes "1")
  have hsuffix : chr ' ' :: bytes "1" <:+ nodeLine (bytes "1") := ⟨bytes "node", rfl⟩
  rw [execute_eq, hcmd, hrest]
  intro hsafe
  refine (cmdDisplayNode_tableSafe hsuffix _).mp hsafe 1 (by decide) _
    (List.getElem?_eq_getElem (lt_of_lt_of_eq (by decide) (length_collect _ []).symm)) ?_
  refine (table_unnamed (i := 1) (by decide) (List.getElem?_eq_getElem _)).mpr ⟨?_, ?_⟩
  · exact ⟨0x00400000, rfl, by decide⟩
  · exact ⟨0x0000D000, rfl, by decide⟩

end TinyOS64
