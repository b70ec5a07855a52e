/-
  File:      TinyOS64/Hda/Table.lean
  Subject:   The widget table over a run: a scan of an empty table, then refresh rounds.

  The codec may answer each verb as it likes, or not at all. Whatever it answers, the table has
  64 well-formed entries (`table_wellFormed`): a scan builds them, and a refresh re-reads the
  amplifiers in place without changing their number.
-/
import TinyOS64.Hda.Refresh

namespace TinyOS64

open Interaction WordFields

/-! ## 1. Well-formed entries -/

/-- An amplifier as the amplifier functions leave it. -/
structure AmpWellFormed (amp : Amp) : Prop where
  gain : amp.m_0dBSetting ≤ 127
  left : amp.m_volume.1 ≤ 127
  right : amp.m_volume.2 ≤ 127
  invalid : amp.m_valid = false → amp = {}

/-- An entry but for its amplifiers. -/
structure NodeWellFormed (w : Widget) : Prop where
  id : w.m_ID < 64
  connections : w.m_connectionList.length ≤ 127
  connection : ∀ c ∈ w.m_connectionList, c ≤ 127
  channels : w.m_channels ≤ 16
  streams : w.m_type ≠ .Input → w.m_type ≠ .Output → w.m_supportedStreams = 0
  pin : w.m_type ≠ .PinComplex → w.m_headphoneDriver = false ∧ w.m_inputPin = false ∧
    w.m_outputPin = false ∧ w.m_jackInfo = {} ∧ w.m_defaultDevice = .Unknown

/-- **A well-formed entry**: the number of input amplifiers goes with the capability bit, the type
    and the connection list. -/
structure WidgetWellFormed (w : Widget) : Prop extends NodeWellFormed w where
  noInputs : w.m_hasInputAmp = false → w.m_inputAmps = []
  mixer : w.m_hasInputAmp = true → w.m_type = .Mixer →
    w.m_inputAmps.length = w.m_connectionList.length
  oneInput : w.m_hasInputAmp = true → w.m_type ≠ .Mixer → w.m_inputAmps.length = 1
  inputAmps : ∀ amp ∈ w.m_inputAmps, AmpWellFormed amp
  outputAmp : AmpWellFormed w.m_outputAmp

/-- **The representation invariant of `m_widgets`.** -/
structure TableWellFormed (m_widgets : List Widget) : Prop where
  length : m_widgets.length = 64
  widgets : ∀ w ∈ m_widgets, WidgetWellFormed w

theorem ampWellFormed_default : AmpWellFormed {} := ⟨by decide, by decide, by decide, fun _ => rfl⟩

/-- The widget a constructor makes. -/
theorem widgetWellFormed_fresh {id : BitVec 32} (hid : id < 64) :
    WidgetWellFormed { m_ID := id } where
  id := hid
  connections := Nat.zero_le 127
  connection _ hc := absurd hc List.not_mem_nil
  channels := show (0 : BitVec 32) ≤ 16 by decide
  streams _ _ := rfl
  pin _ := ⟨rfl, rfl, rfl, rfl, rfl⟩
  noInputs _ := rfl
  mixer h _ := by cases h
  oneInput h _ := by cases h
  inputAmps _ hamp := absurd hamp List.not_mem_nil
  outputAmp := ampWellFormed_default

/-! ## 2. Amplifiers -/

theorem and_127_le (x : BitVec 32) : x &&& 0x7F ≤ 127 := and_toNat_le x 0x7F

/-- The settings queries write the volumes only. -/
theorem ampWellFormed_settings {amp : Amp} (hamp : AmpWellFormed amp) (hvalid : amp.m_valid = true)
    (widgetID right left : BitVec 32) :
    (readAmpSettings widgetID right left amp).Always AmpWellFormed := by
  refine Prog.always_ask.mpr fun r => Prog.always_ask.mpr fun l => Prog.always_ret.mpr ?_
  have hr : AmpWellFormed (r.elim amp (withRightSettings amp)) ∧
      (r.elim amp (withRightSettings amp)).m_valid = true := by
    cases r with
    | none => exact ⟨hamp, hvalid⟩
    | some settings =>
        refine ⟨⟨hamp.gain, hamp.left, and_127_le settings, fun h => ?_⟩, hvalid⟩
        exact Bool.noConfusion (hvalid.symm.trans h)
  generalize r.elim amp (withRightSettings amp) = amp' at hr ⊢
  cases l with
  | none => exact hr.1
  | some settings =>
      refine ⟨hr.1.gain, and_127_le settings, hr.1.right, fun h => ?_⟩
      exact Bool.noConfusion (hr.2.symm.trans h)

theorem ampWellFormed_read (widgetID parameter right left : BitVec 32) :
    (readAmp widgetID parameter right left).Always AmpWellFormed := by
  unfold readAmp
  refine Prog.always_bind.mpr fun ampCap _ => ?_
  dsimp only
  split
  · have hzero : (0 : BitVec 32) ≤ 127 := by decide
    exact ampWellFormed_settings ⟨and_127_le _, hzero, hzero, fun h => by cases h⟩ rfl _ _ _
  · exact Prog.always_ret.mpr ampWellFormed_default

theorem ampsWellFormed_read (widgetID : BitVec 32) (n : Nat) :
    (readInputAmps widgetID n).Always fun amps =>
      amps.length = n ∧ ∀ amp ∈ amps, AmpWellFormed amp := by
  have h := Prog.always_mapM (l := List.range n) (Q := AmpWellFormed)
    (f := fun ch => getInputAmplifierInfo widgetID (BitVec.ofNat 32 ch))
    fun ch _ => ampWellFormed_read _ _ _ _
  rw [List.length_range] at h
  exact h

/-! ## 3. One node -/

theorem channels_le (widgetCap : BitVec 32) :
    1 + ((((widgetCap >>> 13) &&& 0x07) <<< 1) ||| (widgetCap &&& 1)) ≤ 16 := by
  have hpair : (((widgetCap >>> 13) &&& 0x07) <<< 1).toNat < 2 ^ 4 := by
    have h : ((widgetCap >>> 13) &&& 0x07).toNat ≤ 7 := and_toNat_le _ 0x07
    rw [toNat_shiftLeft_of_lt (by omega)]
    omega
  have hlow : (widgetCap &&& 1).toNat < 2 ^ 4 := and_toNat_lt _ (by decide)
  have hor := or_toNat_lt hpair hlow
  change 1#32 + _ ≤ 16#32
  bv_omega

/-- The type and what goes with it. -/
theorem nodeWellFormed_readType {id : BitVec 32} (hid : id < 64) (widgetCap : BitVec 32) :
    (readType { m_ID := id } widgetCap).Always NodeWellFormed := by
  have hfresh := widgetWellFormed_fresh hid
  unfold readType
  dsimp only
  split
  · rename_i hconverter
    refine Prog.always_bind.mpr fun streams _ => Prog.always_ret.mpr ?_
    have htype : widgetTypeOf ((widgetCap >>> 20) &&& 0x0F).toNat = .Output ∨
        widgetTypeOf ((widgetCap >>> 20) &&& 0x0F).toNat = .Input := by
      rcases hconverter with h | h
      · rw [h]; exact .inl rfl
      · rw [h]; exact .inr rfl
    refine ⟨hid, hfresh.connections, hfresh.connection, channels_le widgetCap, fun hi ho => ?_,
      fun _ => ⟨rfl, rfl, rfl, rfl, rfl⟩⟩
    exact (htype.elim ho hi).elim
  · exact Prog.always_ret.mpr ⟨hid, hfresh.connections, hfresh.connection, channels_le widgetCap,
      fun _ _ => rfl, fun _ => ⟨rfl, rfl, rfl, rfl, rfl⟩⟩

/-- The pin fields are written for a pin complex only. -/
theorem nodeWellFormed_readPin {w : Widget} (hw : NodeWellFormed w) :
    (readPin w).Always NodeWellFormed := by
  unfold readPin
  split
  · rename_i hpin
    refine Prog.always_bind.mpr fun config _ => Prog.always_bind.mpr fun pinCap _ =>
      Prog.always_ret.mpr ?_
    have hconfig : NodeWellFormed (config.elim w (withDefaultConfig w)) ∧
        (config.elim w (withDefaultConfig w)).m_type = .PinComplex := by
      cases config with
      | none => exact ⟨hw, hpin⟩
      | some config =>
          exact ⟨⟨hw.id, hw.connections, hw.connection, hw.channels, hw.streams,
            fun h => absurd hpin h⟩, hpin⟩
    generalize config.elim w (withDefaultConfig w) = w' at hconfig ⊢
    obtain ⟨hw', hpin'⟩ := hconfig
    cases pinCap with
    | none => exact hw'
    | some pinCap =>
        exact ⟨hw'.id, hw'.connections, hw'.connection, hw'.channels, hw'.streams,
          fun h => absurd hpin' h⟩
  · exact Prog.always_ret.mpr hw

/-- At most 127 entries of seven bits. -/
def ListWellFormed (list : List (BitVec 32)) : Prop := list.length ≤ 127 ∧ ∀ c ∈ list, c ≤ 127

/-- One turn of the connection-list loop. -/
theorem listWellFormed_turn (widgetID : BitVec 32)
    (st : BitVec 32 × Option (BitVec 32) × List (BitVec 32)) (hst : ListWellFormed st.2.2)
    (offset : Nat) :
    (readConnection widgetID st offset).Always fun st' => ListWellFormed st'.2.2 := by
  have hset : ∀ data : BitVec 32, ListWellFormed (st.2.2.set offset (data &&& 0x7F)) := by
    intro data
    refine ⟨(List.length_set ..).le.trans hst.1, fun c hc => ?_⟩
    rcases List.mem_or_eq_of_mem_set hc with hc | rfl
    · exact hst.2 c hc
    · exact and_127_le data
  obtain ⟨data, result, list⟩ := st
  have hstored : ∀ (result : Option (BitVec 32)) (data : BitVec 32),
      ListWellFormed (if result.isSome then list.set offset (data &&& 0x7F) else list) := by
    intro result data
    split
    · exact hset data
    · exact hst
  unfold readConnection
  dsimp only
  split
  · exact Prog.always_bind.mpr fun _ _ => Prog.always_ret.mpr (hstored _ _)
  · exact Prog.always_ret.mpr (hstored _ _)

/-- **The connection list** has as many entries as its length query said. -/
theorem nodeWellFormed_readEntries {w : Widget} (hw : NodeWellFormed w) (answer : BitVec 32) :
    (readEntries w answer).Always NodeWellFormed := by
  unfold readEntries
  dsimp only
  split
  · have hlen : (answer &&& 0x7F).toNat ≤ 127 := and_127_le answer
    have hstart : ListWellFormed (resize w.m_connectionList (answer &&& 0x7F).toNat 0) := by
      refine ⟨(length_resize ..).le.trans hlen, fun c hc => ?_⟩
      rcases List.mem_append.mp hc with hc | hc
      · exact hw.connection c (List.mem_of_mem_take hc)
      · rw [List.eq_of_mem_replicate hc]
        decide
    refine Prog.Always.bind (Q := fun st => ListWellFormed st.2.2)
      (Prog.always_foldlM (fun st hst offset _ => listWellFormed_turn _ st hst offset) hstart)
      fun st hst => Prog.always_ret.mpr ?_
    exact ⟨hw.id, hst.1, hst.2, hw.channels, hw.streams, hw.pin⟩
  · exact Prog.always_ask.mpr fun _ => Prog.always_ret.mpr hw

theorem nodeWellFormed_readSelection {w : Widget} (hw : NodeWellFormed w) :
    (readSelection w).Always NodeWellFormed := by
  refine Prog.always_ask.mpr fun selection => Prog.always_ret.mpr ?_
  cases selection with
  | none => exact hw
  | some s => exact ⟨hw.id, hw.connections, hw.connection, hw.channels, hw.streams, hw.pin⟩

theorem nodeWellFormed_readConnections {w : Widget} (hw : NodeWellFormed w)
    (widgetCap : BitVec 32) : (readConnections w widgetCap).Always NodeWellFormed := by
  unfold readConnections
  split
  · refine Prog.always_bind.mpr fun answer _ => ?_
    cases answer with
    | none => exact Prog.always_ret.mpr hw
    | some answer =>
        refine (nodeWellFormed_readEntries hw answer).bind fun w' hw' => ?_
        split
        · exact nodeWellFormed_readSelection hw'
        · exact Prog.always_ret.mpr hw'
  · exact Prog.always_ret.mpr hw

/-- **A node read up to its amplifiers.** -/
theorem nodeWellFormed_readNode {id : BitVec 32} (hid : id < 64) (widgetCap : BitVec 32) :
    (readNode { m_ID := id } widgetCap).Always NodeWellFormed :=
  (nodeWellFormed_readType hid widgetCap).bind fun _ hw =>
    (nodeWellFormed_readPin hw).bind fun _ hw' => nodeWellFormed_readConnections hw' widgetCap

/-- The amplifiers are no part of it. -/
theorem NodeWellFormed.onlyAmps {w w' : Widget} (hw : NodeWellFormed w) (h : OnlyAmps w w') :
    NodeWellFormed w' := by
  obtain ⟨_, _, rfl⟩ := h
  exact ⟨hw.id, hw.connections, hw.connection, hw.channels, hw.streams, hw.pin⟩

/-- The input amplifiers: one for each connection of a mixer, else one. -/
theorem wellFormed_collectInputAmps {w : Widget} (hw : NodeWellFormed w)
    (hin : w.m_inputAmps = []) (hout : AmpWellFormed w.m_outputAmp) :
    (collectInputAmps w).Always WidgetWellFormed := by
  unfold collectInputAmps
  split
  · rename_i hamp
    refine (ampsWellFormed_read _ _).bind fun amps hamps => Prog.always_ret.mpr ?_
    obtain ⟨hlen, hall⟩ := hamps
    refine ⟨hw.onlyAmps ⟨_, _, rfl⟩, fun h => ?_, fun _ hmixer => ?_, fun _ hother => ?_, hall,
      hout⟩
    · exact Bool.noConfusion (hamp.symm.trans h)
    · exact hlen.trans (if_pos hmixer)
    · exact hlen.trans (if_neg hother)
  · rename_i hamp
    refine Prog.always_ret.mpr ⟨hw, fun _ => hin, fun h => absurd h hamp, fun h => absurd h hamp,
      fun amp h => ?_, hout⟩
    rw [hin] at h
    exact absurd h List.not_mem_nil

/-- An output amplifier read again. -/
theorem WidgetWellFormed.withOutputAmp {w : Widget} (hw : WidgetWellFormed w) {amp : Amp}
    (hamp : AmpWellFormed amp) : WidgetWellFormed { w with m_outputAmp := amp } :=
  ⟨hw.onlyAmps ⟨_, _, rfl⟩, hw.noInputs, hw.mixer, hw.oneInput, hw.inputAmps, hamp⟩

theorem wellFormed_collectOutputAmp {w : Widget} (hw : WidgetWellFormed w) :
    (collectOutputAmp w).Always WidgetWellFormed := by
  unfold collectOutputAmp
  split
  · exact (ampWellFormed_read _ _ _ _).bind fun _ hamp =>
      Prog.always_ret.mpr (hw.withOutputAmp hamp)
  · exact Prog.always_ret.mpr hw

/-- **One node**: what a turn of the scan stores is well-formed. -/
theorem wellFormed_scanNode {id : BitVec 32} (hid : id < 64) :
    (scanNode id).Always fun stored => ∀ w, stored = some w → WidgetWellFormed w := by
  unfold scanNode
  refine Prog.always_bind.mpr fun answer _ => ?_
  cases answer with
  | none =>
      refine Prog.always_ret.mpr fun w hw => ?_
      cases hw
      exact widgetWellFormed_fresh hid
  | some widgetCap =>
      dsimp only
      split
      · exact Prog.always_ret.mpr fun _ h => by cases h
      · split
        · exact Prog.always_ret.mpr fun _ h => by cases h
        · have hnode := (nodeWellFormed_readNode hid widgetCap).and
            (sameNode_readNode { m_ID := id } widgetCap)
          refine hnode.bind fun w hw => ?_
          obtain ⟨hw, hsame⟩ := hw
          have hout : AmpWellFormed w.m_outputAmp := by
            rw [hsame.outputAmp]
            exact ampWellFormed_default
          refine (wellFormed_collectInputAmps hw hsame.inputAmps hout).bind fun w' hw' => ?_
          refine (wellFormed_collectOutputAmp hw').bind fun w'' hw'' => Prog.always_ret.mpr ?_
          intro w₀ hw₀
          cases hw₀
          exact hw''

/-! ## 4. The table -/

/-- One turn of the scan. -/
theorem tableWellFormed_scanTurn {table : List Widget} (ht : TableWellFormed table) {i : Nat}
    (hi : i < 64) : (scanTurn table i).Always TableWellFormed := by
  have hid : BitVec.ofNat 32 i < 64 := ofNat_lt hi
  refine (wellFormed_scanNode hid).bind fun stored hstored => Prog.always_ret.mpr ?_
  cases stored with
  | none => exact ht
  | some w =>
      refine ⟨(List.length_set ..).trans ht.length, fun w' hw' => ?_⟩
      rcases List.mem_or_eq_of_mem_set hw' with hmem | rfl
      · exact ht.widgets w' hmem
      · exact hstored w' rfl

/-- **A scan of an empty table.** -/
theorem tableWellFormed_collect : (collectWidgetInformation []).Always TableWellFormed := by
  have hstart : TableWellFormed (resize [] 64 {}) := by
    refine ⟨length_resize .., fun w hw => ?_⟩
    rw [resize_nil] at hw
    rw [List.eq_of_mem_replicate hw]
    exact widgetWellFormed_fresh (by decide)
  exact Prog.always_foldlM
    (fun _ ht _ hi => tableWellFormed_scanTurn ht (List.mem_range.mp hi)) hstart

/-- A refresh reads as many input amplifiers as the entry has. -/
theorem wellFormed_refreshInputAmps {w : Widget} (hw : WidgetWellFormed w) :
    (refreshInputAmps w).Always WidgetWellFormed := by
  unfold refreshInputAmps
  split
  · refine (ampsWellFormed_read _ _).bind fun amps hamps => Prog.always_ret.mpr ?_
    obtain ⟨hlen, hall⟩ := hamps
    refine ⟨hw.onlyAmps ⟨_, _, rfl⟩, fun h => ?_,
      fun h hmixer => hlen.trans (hw.mixer h hmixer),
      fun h hother => hlen.trans (hw.oneInput h hother), hall, hw.outputAmp⟩
    rw [hw.noInputs h] at hlen
    exact List.length_eq_zero_iff.mp hlen
  · exact Prog.always_ret.mpr hw

/-- **One entry refreshed.** -/
theorem wellFormed_refreshWidget {w : Widget} (hw : WidgetWellFormed w) :
    (refreshWidget w).Always WidgetWellFormed := by
  refine (wellFormed_refreshInputAmps hw).bind fun w' hw' => ?_
  unfold refreshOutputAmp
  split
  · exact (ampWellFormed_read _ _ _ _).bind fun _ hamp =>
      Prog.always_ret.mpr (hw'.withOutputAmp hamp)
  · exact Prog.always_ret.mpr hw'

/-- **A refresh round.** -/
theorem tableWellFormed_cmdRefresh {table : List Widget} (ht : TableWellFormed table) :
    (cmdRefresh table).Always TableWellFormed :=
  (Prog.always_mapM fun w hw => wellFormed_refreshWidget (ht.widgets w hw)).mono
    fun _ h => ⟨h.1.trans ht.length, h.2⟩

/-- **The tables a run can reach**: a scan of an empty table, then refresh rounds, each verb
    answered as the codec likes or not at all. -/
inductive Reachable : List Widget → Prop where
  | scan {table : List Widget}
      (h : (collectWidgetInformation []).Outcome (fun _ _ => True) table) : Reachable table
  | refresh {table table' : List Widget} (h : Reachable table)
      (hr : (cmdRefresh table).Outcome (fun _ _ => True) table') : Reachable table'

theorem Reachable.wellFormed {table : List Widget} (h : Reachable table) :
    TableWellFormed table := by
  induction h with
  | scan h => exact tableWellFormed_collect _ h
  | refresh _ hr ih => exact tableWellFormed_cmdRefresh ih _ hr

/-- A scan of an empty table and so many refresh rounds after it. -/
def scanAndRefresh : Nat → Prog Verbs (List Widget)
  | 0 => collectWidgetInformation []
  | rounds + 1 => scanAndRefresh rounds >>= cmdRefresh

theorem reachable_scanAndRefresh (rounds : Nat) : (scanAndRefresh rounds).Always Reachable := by
  induction rounds with
  | zero => exact fun _ h => .scan h
  | succ rounds ih => exact ih.bind fun _ h _ hr => .refresh h hr

/-- **Every table a scan and its refresh rounds can leave is well-formed**, whatever the codec
    answers to each verb. -/
theorem table_wellFormed (rounds : Nat) : (scanAndRefresh rounds).Always TableWellFormed :=
  (reachable_scanAndRefresh rounds).mono fun _ h => h.wellFormed

end TinyOS64
