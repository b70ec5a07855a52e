/-
  File:      TinyOS64/Hda/Words.lean
  Subject:   The words a run writes to ICW, and what they decode to.

  `sendVerb` shifts and ORs its four arguments without masks. Over every run of scan, refresh,
  pin control and stream format the arguments stay within their fields, so each word decodes to
  what `sendVerb` was called with, the node to the one the caller names (`session_lossless`): node
  IDs stay below 64 because the table stays well-formed, and every payload is masked, bounded by a
  list, or constant.
-/
import TinyOS64.Hda.Control
import TinyOS64.Hda.Table
import TinyOS64.Lib.WordFields

namespace TinyOS64

open Interaction WordFields

/-! ## 1. Words -/

/-- **The word decodes without loss**: codec 0, the node, and the verb with the payload in bits
    the verb leaves zero. -/
structure Decodes (word node verb command : BitVec 32) : Prop where
  codecField : word.toNat / 2 ^ 28 = 0
  nodeField : word.toNat / 2 ^ 20 % 2 ^ 8 = node.toNat
  verbField : word.toNat % 2 ^ 20 = verb.toNat * 2 ^ 8 + command.toNat
  apart : (verb <<< 8) &&& command = 0

/-- A verb with its payload in bits the verb leaves zero. -/
theorem verb_or_command {verb command : BitVec 32} (hv : verb.toNat < 2 ^ 12)
    (hc : command.toNat < 2 ^ 20) (hapart : (verb <<< 8) &&& command = 0) :
    verb.toNat * 2 ^ 8 + command.toNat < 2 ^ 20 ∧
      ((verb <<< 8) ||| command).toNat = verb.toNat * 2 ^ 8 + command.toNat := by
  have hshift : (verb <<< 8).toNat = verb.toNat * 2 ^ 8 := toNat_shiftLeft_of_lt (by omega)
  have hlt : ((verb <<< 8) ||| command).toNat < 2 ^ 20 := or_toNat_lt (by omega) hc
  rw [toNat_or_of_and hapart, hshift] at hlt ⊢
  omega

/-- **The fields of a verb word**, when node, verb and payload fit theirs. -/
theorem verbWord_decodes {node verb command : BitVec 32} (hn : node.toNat < 2 ^ 8)
    (hv : verb.toNat < 2 ^ 12) (hc : command.toNat < 2 ^ 20)
    (hapart : (verb <<< 8) &&& command = 0) :
    Decodes (verbWord 0 node verb command) node verb command := by
  obtain ⟨hlt, hor⟩ := verb_or_command hv hc hapart
  have hword : (verbWord 0 node verb command).toNat =
      node.toNat * 2 ^ 20 + (verb.toNat * 2 ^ 8 + command.toNat) := by
    have hzero : verbWord 0 node verb command = (node <<< 20) ||| ((verb <<< 8) ||| command) := by
      simp [verbWord, BitVec.or_assoc]
    rw [hzero, toNat_shiftLeft_or node (by omega), hor]
    omega
  refine ⟨?_, ?_, ?_, hapart⟩ <;> rw [hword] <;> omega

/-- Every word `sendVerb` writes to ICW decodes to its arguments. -/
def VerbOp.Lossless : VerbOp → Prop
  | .verb codec node v command => (sendVerb codec node v command).AsksOnly fun o =>
      ∀ word, o = MmioOp.write32 0x60 word → Decodes word node v command
  | .print .. => True

/-- The verb is sent to a node that is named. -/
def VerbOp.SentTo (named : BitVec 32 → Prop) : VerbOp → Prop
  | .verb _ node _ _ => named node
  | .print .. => True

/-- Every word written decodes without loss, its node to one that is named. -/
def VerbOp.LosslessTo (named : BitVec 32 → Prop) (o : VerbOp) : Prop :=
  o.Lossless ∧ o.SentTo named

theorem VerbOp.LosslessTo.mono {named named' : BitVec 32 → Prop} (h : ∀ id, named id → named' id)
    {o : VerbOp} (ho : o.LosslessTo named) : o.LosslessTo named' := by
  refine ⟨ho.1, ?_⟩
  cases o with
  | verb codec node v command => exact h node ho.2
  | print fmt va => trivial

theorem lossless_of_decodes {node verb command : BitVec 32}
    (h : Decodes (verbWord 0 node verb command) node verb command) :
    (VerbOp.verb 0 node verb command).Lossless := by
  have hicw : ∀ word, MmioOp.write32 0x60 (verbWord 0 node verb command) = .write32 0x60 word →
      Decodes word node verb command := by
    intro word hword
    cases hword
    exact h
  show (sendWord (verbWord 0 node verb command)).AsksOnly fun o =>
    ∀ word, o = MmioOp.write32 0x60 word → Decodes word node verb command
  rw [sendWord_eq]
  exact Prog.asksOnly_ask nofun fun _ => Prog.asksOnly_ask hicw fun _ => Prog.asksOnly_once nofun

/-! ## 2. What each call sends -/

/-- A 12-bit verb with an 8-bit payload. -/
theorem lossless_short {node verb payload : BitVec 32} (hn : node < 64) (hv : verb < 0x1000)
    (hp : payload < 0x100) : (VerbOp.verb 0 node verb payload).LosslessTo (· = node) :=
  ⟨lossless_of_decodes (verbWord_decodes (by bv_omega) (by bv_omega) (by bv_omega)
    (shiftLeft_and verb (k := 8) hp)), rfl⟩

/-- A 4-bit verb with a 16-bit payload. -/
theorem lossless_long {node verb payload : BitVec 32} (hn : node < 64)
    (hv : verb ∈ [0x200, 0xA00, 0xB00]) (hp : payload < 0x10000) :
    (VerbOp.verb 0 node verb payload).LosslessTo (· = node) := by
  have hall : ∀ v ∈ [0x200#32, 0xA00, 0xB00], v < 0x1000 ∧ v <<< 8 = (v >>> 8) <<< 16 := by
    simp
  obtain ⟨hlt, hshift⟩ := hall verb hv
  have hapart : (verb <<< 8) &&& payload = 0 := by
    rw [hshift]
    exact shiftLeft_and _ hp
  exact ⟨lossless_of_decodes (verbWord_decodes (by bv_omega) (by bv_omega) (by bv_omega) hapart),
    rfl⟩

/-- Every query of the scan and of a refresh. -/
theorem Query.lossless {id : BitVec 32} (hid : id < 64) {o : VerbOp} (h : Query id o) :
    o.LosslessTo (· = id) := by
  rcases h with h | h
  · cases h with
    | verb hv hp =>
        have hall : ∀ v ∈ [0xF00#32, 0xF01, 0xF02, 0xF1C], v < 0x1000 := by simp
        exact lossless_short hid (hall _ hv) hp
    | print => exact ⟨trivial, trivial⟩
  · cases h with
    | capabilities hp => exact lossless_short hid (by decide) hp
    | settings hp => exact lossless_long hid (by decide) hp

/-- What the pin-control functions share: the value is read, changed and sent back. -/
theorem pinControl_lossless {id : BitVec 32} (hid : id < 64) {value : BitVec 32 → BitVec 32}
    (hvalue : ∀ ctrl, value ctrl < 0x100) :
    Prog.AsksOnly (VerbOp.LosslessTo (· = id)) (do
      match ← Verbs.ask 0 id 0xF07 0 with
      | none => pure false
      | some ctrl =>
        let ctrl ← Verbs.ask 0 id 0x707 (value ctrl)
        pure ctrl.isSome) := by
  refine Prog.avoids_bind (ask_asks (lossless_short hid (by decide) (by decide))) fun ctrl => ?_
  cases ctrl with
  | none => trivial
  | some ctrl =>
      exact Prog.avoids_bind (ask_asks (lossless_short hid (by decide) (hvalue ctrl)))
        fun _ => trivial

section Widget

variable {w : Widget} (hid : w.m_ID < 64)

include hid

theorem disablePinWidget_lossless :
    (disablePinWidget w).AsksOnly (VerbOp.LosslessTo (· = w.m_ID)) := by
  unfold disablePinWidget
  split
  · trivial
  · exact pinControl_lossless hid fun ctrl => and_toNat_lt ctrl (by decide)

omit hid in
theorem enabledPin_lt (ctrl : BitVec 32) : enabledPin w ctrl < 0x100 := by
  have hlow : (ctrl &&& 0x07).toNat < 2 ^ 8 := and_toNat_lt ctrl (by decide)
  have hout : ((ctrl &&& 0x07) ||| (1 <<< 6)).toNat < 2 ^ 8 := or_toNat_lt hlow (by decide)
  unfold enabledPin
  dsimp only
  split
  · exact or_toNat_lt (k := 8) hout (by decide)
  · exact hout

theorem enablePinWidget_lossless :
    (enablePinWidget w).AsksOnly (VerbOp.LosslessTo (· = w.m_ID)) := by
  unfold enablePinWidget
  split
  · trivial
  · exact pinControl_lossless hid enabledPin_lt

theorem setIOWidgetFormat_lossless (format : StreamFormat) :
    (setIOWidgetFormat w format).AsksOnly (VerbOp.LosslessTo (· = w.m_ID)) := by
  have hp : (format.m_value &&& 0xFFFF).toNat < 0x10000 := and_toNat_lt _ (by decide)
  unfold setIOWidgetFormat
  split
  · trivial
  · exact Prog.avoids_bind (ask_asks (lossless_long hid (by decide) hp)) fun _ => trivial

theorem getIOWidgetFormat_lossless :
    (getIOWidgetFormat w).AsksOnly (VerbOp.LosslessTo (· = w.m_ID)) := by
  unfold getIOWidgetFormat
  split
  · trivial
  · exact Prog.avoids_bind (ask_asks (lossless_long hid (by decide) (by decide))) fun _ => trivial

end Widget

/-- A refresh sends to every entry. -/
theorem cmdRefresh_lossless {table : List Widget} (ht : TableWellFormed table) :
    (cmdRefresh table).AsksOnly (VerbOp.LosslessTo fun id => ∃ w ∈ table, id = w.m_ID) := by
  refine Prog.avoids_mapM fun w hw => ?_
  exact (refreshWidget_asks w).mono fun _ h =>
    (Query.lossless (ht.widgets w hw).id (.inr h)).mono fun _ hid => ⟨w, hw, hid⟩

/-- A turn of the scan sends to its index. -/
theorem scanTurn_lossless (table : List Widget) {i : Nat} (hi : i < 64) :
    (scanTurn table i).AsksOnly (VerbOp.LosslessTo (· = BitVec.ofNat 32 i)) :=
  Prog.avoids_bind ((scanNode_asks _).mono fun _ h => h.lossless (ofNat_lt hi)) fun _ => trivial

theorem collect_lossless (table : List Widget) :
    (collectWidgetInformation table).AsksOnly VerbOp.Lossless := by
  refine Prog.avoids_foldlM (I := fun _ => True) (fun table _ i hi => ⟨?_, fun _ _ => trivial⟩)
    trivial
  exact (scanTurn_lossless table (List.mem_range.mp hi)).mono fun _ h => h.1

/-! ## 3. Runs -/

/-- A call made on the table, the index naming one of its entries. -/
inductive CodecCall where
  | refresh
  | enablePin (i : Nat)
  | disablePin (i : Nat)
  | getFormat (i : Nat)
  | setFormat (i : Nat) (format : StreamFormat)

/-- A call on the entry `i`, which leaves the table as it is. -/
def onEntry {α : Type} (table : List Widget) (i : Nat) (call : Widget → Prog Verbs α) :
    Prog Verbs (List Widget) :=
  match table[i]? with
  | some w => do
    let _ ← call w
    pure table
  | none => pure table

/-- The call's program. -/
def CodecCall.run (table : List Widget) : CodecCall → Prog Verbs (List Widget)
  | refresh => cmdRefresh table
  | enablePin i => onEntry table i enablePinWidget
  | disablePin i => onEntry table i disablePinWidget
  | getFormat i => onEntry table i getIOWidgetFormat
  | setFormat i format => onEntry table i fun w => setIOWidgetFormat w format

/-- The nodes a call names: those of all entries in a refresh round, else that of its entry. -/
def CodecCall.Names (table : List Widget) : CodecCall → BitVec 32 → Prop
  | refresh, id => ∃ w ∈ table, id = w.m_ID
  | enablePin i, id | disablePin i, id | getFormat i, id | setFormat i _, id =>
    ∃ w ∈ table[i]?, id = w.m_ID

/-- A scan of an empty table, and the calls after it. -/
def session (calls : List CodecCall) : Prog Verbs (List Widget) :=
  collectWidgetInformation [] >>= fun table => calls.foldlM CodecCall.run table

section Runs

variable {table : List Widget}

theorem onEntry_lossless {α : Type} (ht : TableWellFormed table) (i : Nat)
    {call : Widget → Prog Verbs α}
    (hcall : ∀ w : Widget, w.m_ID < 64 → (call w).AsksOnly (VerbOp.LosslessTo (· = w.m_ID))) :
    (onEntry table i call).AsksOnly (VerbOp.LosslessTo fun id => ∃ w ∈ table[i]?, id = w.m_ID) := by
  unfold onEntry
  split
  · rename_i w hw
    have hmem : w ∈ table := List.mem_of_getElem? hw
    refine Prog.avoids_bind ((hcall w (ht.widgets w hmem).id).mono fun o ho => ?_) fun _ => trivial
    exact ho.mono fun _ hid => ⟨w, hw, hid⟩
  · trivial

theorem onEntry_table {α : Type} (table : List Widget) (i : Nat) (call : Widget → Prog Verbs α) :
    (onEntry table i call).Always (· = table) := by
  unfold onEntry
  split
  · exact Prog.always_bind.mpr fun _ _ => Prog.always_ret.mpr rfl
  · exact Prog.always_ret.mpr rfl

/-- **One call** sends lossless words to the nodes it names. -/
theorem call_lossless (ht : TableWellFormed table) (call : CodecCall) :
    (call.run table).AsksOnly (VerbOp.LosslessTo (call.Names table)) := by
  cases call with
  | refresh => exact cmdRefresh_lossless ht
  | enablePin i => exact onEntry_lossless ht i fun _ => enablePinWidget_lossless
  | disablePin i => exact onEntry_lossless ht i fun _ => disablePinWidget_lossless
  | getFormat i => exact onEntry_lossless ht i fun _ => getIOWidgetFormat_lossless
  | setFormat i format => exact onEntry_lossless ht i fun _ h => setIOWidgetFormat_lossless h format

/-- One call keeps the table well-formed. -/
theorem tableWellFormed_call (ht : TableWellFormed table) (call : CodecCall) :
    (call.run table).Always TableWellFormed := by
  have hkeep : ∀ {α : Type} (i : Nat) (f : Widget → Prog Verbs α),
      (onEntry table i f).Always TableWellFormed := fun i f =>
    (onEntry_table table i f).mono fun _ h => h ▸ ht
  cases call with
  | refresh => exact tableWellFormed_cmdRefresh ht
  | enablePin i => exact hkeep i _
  | disablePin i => exact hkeep i _
  | getFormat i => exact hkeep i _
  | setFormat i format => exact hkeep i _

theorem tableWellFormed_session (calls : List CodecCall) :
    (session calls).Always TableWellFormed :=
  tableWellFormed_collect.bind fun _ ht =>
    Prog.always_foldlM (fun _ ht call _ => tableWellFormed_call ht call) ht

/-- **Every word a run writes to ICW decodes to what `sendVerb` was called with**: for every
    sequence of calls after a scan, whatever the codec answers. The node is the scan's index, and
    in each call after it the ID of the entry the call is about. -/
theorem session_lossless (calls : List CodecCall) :
    (session calls).AsksOnly VerbOp.Lossless ∧
    (∀ table, ∀ i < 64, (scanTurn table i).AsksOnly
      (VerbOp.LosslessTo (· = BitVec.ofNat 32 i))) ∧
    (session calls).Always fun table => ∀ call : CodecCall,
      (call.run table).AsksOnly (VerbOp.LosslessTo (call.Names table)) := by
  refine ⟨?_, fun table i hi => scanTurn_lossless table hi, ?_⟩
  · refine Prog.avoids_bind_always (collect_lossless []) tableWellFormed_collect fun _ ht => ?_
    refine Prog.avoids_foldlM (fun table ht call _ => ⟨?_, tableWellFormed_call ht call⟩) ht
    exact (call_lossless ht call).mono fun _ h => h.1
  · exact (tableWellFormed_session calls).mono fun _ ht call => call_lossless ht call

end Runs

end TinyOS64
