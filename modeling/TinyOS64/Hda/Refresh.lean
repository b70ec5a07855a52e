/-
  File:      TinyOS64/Hda/Refresh.lean
  Subject:   The refresh of the amplifiers: refreshWidget (hdacodec.cpp), cmdRefresh (commands.cpp).

  A refresh re-reads the amplifiers a widget already has: as many input amplifiers as its list
  holds, and the output amplifier when it is valid. With every verb answered that agrees with a
  full rescan (`refresh_rescan`). A capabilities query that goes unanswered makes the output
  amplifier invalid, and no later refresh reads it again (`refresh_recovers_iff`).
-/
import TinyOS64.Hda.Scan

namespace TinyOS64

open Interaction

/-! ## 1. The program -/

def refreshInputAmps (w : Widget) : Prog Verbs Widget := do
  if w.m_inputAmps ≠ [] then
    let amps ← readInputAmps w.m_ID w.m_inputAmps.length
    pure { w with m_inputAmps := amps }
  else pure w

def refreshOutputAmp (w : Widget) : Prog Verbs Widget := do
  if w.m_outputAmp.m_valid then
    let amp ← getOutputAmplifierInfo w.m_ID
    pure { w with m_outputAmp := amp }
  else pure w

def refreshWidget (w : Widget) : Prog Verbs Widget := do
  let w ← refreshInputAmps w
  refreshOutputAmp w

/-- What `cmdRefresh` does to `m_widgets`. -/
def cmdRefresh (m_widgets : List Widget) : Prog Verbs (List Widget) := m_widgets.mapM refreshWidget

/-! ## 2. Words -/

/-- The low 20 bits of a verb word are those of verb and command. -/
theorem verbWord_getLsbD (node verb command : BitVec 32) {i : Nat} (hi : i < 20) :
    (verbWord 0 node verb command).getLsbD i = ((verb <<< 8) ||| command).getLsbD i := by
  have h32 : i < 32 := by omega
  simp [verbWord, hi, h32]

theorem verbWord_low (node verb command : BitVec 32) :
    verbWord 0 node verb command &&& 0xFFFFF#32 = ((verb <<< 8) ||| command) &&& 0xFFFFF#32 := by
  have hmask : ∀ i : Fin 32, ¬ i.1 < 20 → (0xFFFFF#32).getLsbD i = false := by decide
  refine BitVec.eq_of_getLsbD_eq fun i hi => ?_
  rw [BitVec.getLsbD_and, BitVec.getLsbD_and]
  by_cases h20 : i < 20
  · rw [verbWord_getLsbD node verb command h20]
  · rw [hmask ⟨i, hi⟩ h20, Bool.and_false, Bool.and_false]

/-- A get-amplifier-setting word: verb 0xB00 with a 16-bit payload. -/
def IsGetAmpWord (word : BitVec 32) : Prop := (word >>> 16) &&& 0xF#32 = 0xB#32

instance : DecidablePred IsGetAmpWord := fun _ => inferInstanceAs (Decidable (_ = _))

/-- The question sends a get-amplifier-setting word. -/
def IsGetAmp : VerbOp → Prop
  | .verb codec node verb command => IsGetAmpWord (verbWord codec node verb command)
  | .print .. => False

/-- An output-amplifier-capabilities query: verb 0xF00, parameter 0x12. -/
def IsOutputCaps : VerbOp → Prop
  | .verb codec node verb command => verbWord codec node verb command &&& 0xFFFFF#32 = 0xF0012#32
  | .print .. => False

/-- Verbs 0xF00 to 0xFFF are no get-amplifier verbs. -/
theorem not_isGetAmpWord {node verb command : BitVec 32} (h : verb[10] = true) :
    ¬ IsGetAmpWord (verbWord 0 node verb command) := by
  intro hget
  have hbit := congrArg (·[2]) (show _ = 0xB#32 from hget)
  have h18 : (verbWord 0 node verb command)[18] = true := by
    have h := verbWord_getLsbD node verb command (show 18 < 20 by decide)
    simp_all
  have h18' : (verbWord 0 node verb command)[18] = false := by simpa using hbit
  exact Bool.noConfusion (h18.symm.trans h18')

/-- A settings query is one. -/
theorem isGetAmpWord_settings {id payload : BitVec 32} (hp : payload < 0x10000) :
    IsGetAmpWord (verbWord 0 id 0xB00 payload) := by
  have hverb : ∀ i : Fin 4, ((0xB00#32 <<< 8).getLsbD (16 + i.1)) = (0xB#32).getLsbD i.1 ∧
      (0xF#32).getLsbD i.1 = true := by decide
  have hhigh : ∀ i : Fin 32, ¬ i.1 < 4 →
      (0xF#32).getLsbD i.1 = false ∧ (0xB#32).getLsbD i.1 = false := by decide
  have hpayload : payload.toNat < 2 ^ 16 := hp
  refine BitVec.eq_of_getLsbD_eq fun i hi => ?_
  rw [BitVec.getLsbD_and, BitVec.getLsbD_ushiftRight]
  by_cases h4 : i < 4
  · have hzero : payload.getLsbD (16 + i) = false :=
      Nat.testBit_lt_two_pow
        (Nat.lt_of_lt_of_le hpayload (Nat.pow_le_pow_right (by decide) (by omega)))
    obtain ⟨hbit, hmask⟩ := hverb ⟨i, h4⟩
    dsimp only at hbit hmask
    rw [verbWord_getLsbD id 0xB00 payload (by omega), BitVec.getLsbD_or, hzero, hmask,
      Bool.or_false, Bool.and_true]
    exact hbit
  · obtain ⟨hmask, hbit⟩ := hhigh ⟨i, hi⟩ h4
    dsimp only at hbit hmask
    rw [hmask, hbit, Bool.and_false]

theorem isOutputCaps_iff {node verb command : BitVec 32} :
    IsOutputCaps (.verb 0 node verb command) ↔
      ((verb <<< 8) ||| command) &&& 0xFFFFF#32 = 0xF0012#32 := by
  rw [← verbWord_low node]
  exact Iff.rfl

/-- A settings query is no capabilities query. -/
theorem not_isOutputCaps_getAmp {node command : BitVec 32} (h : command[18] = false) :
    ¬ IsOutputCaps (.verb 0 node 0xB00 command) := by
  rw [isOutputCaps_iff]
  intro hcaps
  have hbit := congrArg (·[18]) hcaps
  simp [h] at hbit

/-- The input amplifiers' capabilities query is another one. -/
theorem not_isOutputCaps_input (node : BitVec 32) :
    ¬ IsOutputCaps (.verb 0 node 0xF00 0x0D) := by
  rw [isOutputCaps_iff]
  decide

/-! ## 3. What the programs ask -/

section Asks

/-- A query of a node sends no get-amplifier verb. -/
theorem NodeQuery.not_isGetAmp {id : BitVec 32} {o : VerbOp} (h : NodeQuery id o) :
    ¬ IsGetAmp o := by
  have hbit : ∀ v ∈ [0xF00#32, 0xF01, 0xF02, 0xF1C], v[10] = true := by simp
  cases h with
  | verb hv _ => exact not_isGetAmpWord (hbit _ hv)
  | print => exact fun h => h

/-- **Up to its amplifiers a node is read without a get-amplifier verb.** -/
theorem readNode_avoids (widget : Widget) (widgetCap : BitVec 32) :
    (readNode widget widgetCap).Avoids IsGetAmp :=
  Prog.Avoids.mono (fun _ hget hq => NodeQuery.not_isGetAmp hq hget)
    (readNode_asks widget widgetCap)

theorem refreshInputAmps_asks (w : Widget) : (refreshInputAmps w).AsksOnly (AmpQuery w.m_ID) := by
  unfold refreshInputAmps
  split
  · exact Prog.avoids_bind (readInputAmps_asks _ _) fun _ => trivial
  · trivial

/-- **A refresh asks for amplifiers only.** -/
theorem refreshWidget_asks (w : Widget) : (refreshWidget w).AsksOnly (AmpQuery w.m_ID) := by
  have hid : (refreshInputAmps w).Always fun w' => w'.m_ID = w.m_ID := by
    unfold refreshInputAmps
    split
    · exact Prog.always_bind.mpr fun _ _ => Prog.always_ret.mpr rfl
    · exact Prog.always_ret.mpr rfl
  refine Prog.avoids_bind_always (refreshInputAmps_asks w) hid fun w' hw' => ?_
  unfold refreshOutputAmp
  split
  · rw [← hw']
    exact Prog.avoids_bind (getOutputAmplifierInfo_asks _) fun _ => trivial
  · trivial

/-- The settings queries ask for no capabilities. -/
theorem readAmpSettings_avoids {widgetID right left : BitVec 32} (hr : right[18] = false)
    (hl : left[18] = false) (amp : Amp) :
    (readAmpSettings widgetID right left amp).Avoids IsOutputCaps :=
  ⟨not_isOutputCaps_getAmp hr, fun _ => ⟨not_isOutputCaps_getAmp hl, fun _ => trivial⟩⟩

theorem getInputAmplifierInfo_avoids (widgetID channel : BitVec 32) :
    (getInputAmplifierInfo widgetID channel).Avoids IsOutputCaps := by
  have hr : (channel &&& 0x0F)[18] = false := by simp
  have hl : ((channel &&& 0x0F) ||| (1 <<< 13))[18] = false := by simp
  unfold getInputAmplifierInfo readAmp
  refine Prog.avoids_bind ⟨not_isOutputCaps_input widgetID, fun _ => trivial⟩ fun ampCap => ?_
  dsimp only
  split
  · exact readAmpSettings_avoids hr hl _
  · trivial

theorem readInputAmps_avoids (widgetID : BitVec 32) (n : Nat) :
    (readInputAmps widgetID n).Avoids IsOutputCaps :=
  Prog.avoids_mapM fun ch _ => getInputAmplifierInfo_avoids widgetID (BitVec.ofNat 32 ch)

end Asks

/-! ## 4. A refresh with given answers -/

section Refresh

variable (R : BitVec 32 → Option (BitVec 32))

theorem readInputAmps_length (widgetID : BitVec 32) (n : Nat) :
    (readInputAmps widgetID n).Always fun amps => amps.length = n := by
  intro amps h
  rw [← (Prog.outcome_mapM.mp h).length_eq, List.length_range]

theorem readAmpSettings_valid (widgetID right left : BitVec 32) (amp : Amp) :
    (readAmpSettings widgetID right left amp).Always fun a => a.m_valid = amp.m_valid := by
  refine Prog.always_ask.mpr fun r => Prog.always_ask.mpr fun l => Prog.always_ret.mpr ?_
  cases r <;> cases l <;> rfl

/-- The capabilities decide whether an amplifier is valid; one that is not is the default. -/
theorem readAmp_answer (widgetID parameter right left : BitVec 32) :
    if (R (verbWord 0 widgetID 0xF00 parameter)).getD 0 ≠ 0 then
      ((readAmp widgetID parameter right left).answer (answering R)).m_valid = true
    else (readAmp widgetID parameter right left).answer (answering R) = {} := by
  have h : (readAmp widgetID parameter right left).answer (answering R) =
      (if (R (verbWord 0 widgetID 0xF00 parameter)).getD 0 ≠ 0 then
        readAmpSettings widgetID right left
          { m_canMute := ((R (verbWord 0 widgetID 0xF00 parameter)).getD 0).getLsbD 31
            m_0dBSetting := (R (verbWord 0 widgetID 0xF00 parameter)).getD 0 &&& 0x7F
            m_valid := true }
      else pure {} : Prog Verbs Amp).answer (answering R) := rfl
  rw [h]
  split
  · exact (readAmpSettings_valid _ _ _ _).answer _
  · rfl

/-- **What a refresh does to a widget**: the input amplifiers it has and a valid output amplifier
    are read again. -/
theorem refreshWidget_answer (w : Widget) : (refreshWidget w).answer (answering R) =
    { w with
      m_inputAmps := (readInputAmps w.m_ID w.m_inputAmps.length).answer (answering R)
      m_outputAmp := if w.m_outputAmp.m_valid then
          (getOutputAmplifierInfo w.m_ID).answer (answering R)
        else w.m_outputAmp } := by
  have hin : (refreshInputAmps w).answer (answering R) = { w with
      m_inputAmps := (readInputAmps w.m_ID w.m_inputAmps.length).answer (answering R) } := by
    unfold refreshInputAmps
    split
    · rw [Prog.answer_bind]
      rfl
    · rename_i h
      have hnil : (readInputAmps w.m_ID w.m_inputAmps.length).answer (answering R) =
          w.m_inputAmps := by
        rw [not_not.mp h]
        rfl
      rw [hnil]
      rfl
  rw [refreshWidget, Prog.answer_bind, hin]
  unfold refreshOutputAmp
  dsimp only
  split
  · rw [Prog.answer_bind]
    rfl
  · rfl

theorem cmdRefresh_answer (m_widgets : List Widget) :
    (cmdRefresh m_widgets).answer (answering R) =
      m_widgets.map fun w => (refreshWidget w).answer (answering R) :=
  Prog.answer_mapM (answering R) refreshWidget m_widgets

/-- The number of input amplifiers a scan gives a node. -/
def numberOfInputAmps (w : Widget) : Nat :=
  if w.m_hasInputAmp then (if w.m_type = .Mixer then w.m_connectionList.length else 1) else 0

/-- **What a scan finds out about the amplifiers** of a node that is there. -/
theorem describedNode_eq (widgetID widgetCap : BitVec 32) :
    let w := (readNode { m_ID := widgetID } widgetCap).answer (answering R)
    describedNode R widgetID widgetCap = { w with
      m_inputAmps := (readInputAmps widgetID (numberOfInputAmps w)).answer (answering R)
      m_outputAmp := if w.m_hasOutputAmp then
          (getOutputAmplifierInfo widgetID).answer (answering R)
        else {} } := by
  intro w
  have hw : SameNode { m_ID := widgetID } w := (sameNode_readNode _ _).answer _
  have hid : w.m_ID = widgetID := hw.id
  have hin : (collectInputAmps w).answer (answering R) = { w with
      m_inputAmps := (readInputAmps widgetID (numberOfInputAmps w)).answer (answering R) } := by
    unfold collectInputAmps numberOfInputAmps
    split
    · rw [Prog.answer_bind, hid]
      rfl
    · have hnil : (readInputAmps widgetID 0).answer (answering R) = w.m_inputAmps :=
        hw.inputAmps.symm
      rw [hnil]
      rfl
  show (collectOutputAmp ((collectInputAmps w).answer (answering R))).answer (answering R) = _
  rw [hin]
  unfold collectOutputAmp
  dsimp only
  split
  · rw [Prog.answer_bind, hid]
    rfl
  · rw [← show w.m_outputAmp = {} from hw.outputAmp]
    rfl

end Refresh

/-! ## 5. Refresh and rescan -/

/-- A codec that answers every verb. -/
abbrev answeringAll (R : BitVec 32 → BitVec 32) : (o : VerbOp) → o.Ans :=
  answering fun word => some (R word)

/-- The two codecs agree but for the get-amplifier-setting words. -/
def AgreeButAmps (R₁ R₂ : BitVec 32 → BitVec 32) : Prop :=
  ∀ word, ¬ IsGetAmpWord word → R₁ word = R₂ word

section Rescan

variable {R₁ R₂ : BitVec 32 → BitVec 32}

theorem answers_agree (h : AgreeButAmps R₁ R₂) (o : VerbOp) (ho : ¬ IsGetAmp o) :
    answeringAll R₁ o = answeringAll R₂ o := by
  cases o with
  | verb codec node verb command => exact congrArg some (h _ ho)
  | print => rfl

/-- The output amplifier read under the one codec, read again under the other if it is valid. -/
theorem outputAmp_again (h : AgreeButAmps R₁ R₂) (widgetID : BitVec 32) :
    let amp := (getOutputAmplifierInfo widgetID).answer (answeringAll R₁)
    (if amp.m_valid then (getOutputAmplifierInfo widgetID).answer (answeringAll R₂) else amp) =
      (getOutputAmplifierInfo widgetID).answer (answeringAll R₂) := by
  intro amp
  have hcaps : R₁ (verbWord 0 widgetID 0xF00 0x12) = R₂ (verbWord 0 widgetID 0xF00 0x12) :=
    h _ (not_isGetAmpWord rfl)
  have h₁ := readAmp_answer (fun word => some (R₁ word)) widgetID 0x12 (1 <<< 15)
    ((1 <<< 15) ||| (1 <<< 13))
  have h₂ := readAmp_answer (fun word => some (R₂ word)) widgetID 0x12 (1 <<< 15)
    ((1 <<< 15) ||| (1 <<< 13))
  rw [hcaps] at h₁
  split at h₁
  · exact if_pos h₁
  · rename_i hzero
    rw [if_neg hzero] at h₂
    have e₁ : amp = {} := h₁
    have e₂ : (getOutputAmplifierInfo widgetID).answer (answeringAll R₂) = {} := h₂
    rw [e₁, e₂]
    rfl

/-- A node that is there: refreshed, it is what a rescan makes of it. -/
theorem refresh_describedNode (h : AgreeButAmps R₁ R₂) (widgetID widgetCap : BitVec 32) :
    (refreshWidget (describedNode (fun word => some (R₁ word)) widgetID widgetCap)).answer
      (answeringAll R₂) = describedNode (fun word => some (R₂ word)) widgetID widgetCap := by
  have hw : (readNode { m_ID := widgetID } widgetCap).answer (answeringAll R₁) =
      (readNode { m_ID := widgetID } widgetCap).answer (answeringAll R₂) :=
    Prog.answer_congr (answers_agree h) (readNode_avoids _ _)
  have hid : ((readNode { m_ID := widgetID } widgetCap).answer (answeringAll R₂)).m_ID = widgetID :=
    ((sameNode_readNode _ _).answer _).id
  rw [describedNode_eq, describedNode_eq, refreshWidget_answer]
  simp only [hw, hid, (readInputAmps_length _ _).answer]
  congr 1
  by_cases hout : ((readNode { m_ID := widgetID } widgetCap).answer
      (answeringAll R₂)).m_hasOutputAmp = true
  · simp only [hout, if_true]
    exact outputAmp_again h widgetID
  · simp only [hout]
    rfl

/-- **One node**: what the scan stores under the one codec, refreshed under the other. -/
theorem refresh_scanned (h : AgreeButAmps R₁ R₂) (widgetID : BitVec 32) :
    (refreshWidget ((scanned (fun word => some (R₁ word)) widgetID).getD {})).answer
      (answeringAll R₂) = (scanned (fun word => some (R₂ word)) widgetID).getD {} := by
  have hcap : R₁ (widgetCapabilities widgetID) = R₂ (widgetCapabilities widgetID) :=
    h _ (not_isGetAmpWord rfl)
  rw [scanned_eq, scanned_eq, hcap]
  dsimp only
  split
  · rfl
  · split
    · rfl
    · exact refresh_describedNode h widgetID _

/-- A table collected from nothing holds what was found, and default widgets. -/
theorem collect_empty (R : BitVec 32 → Option (BitVec 32)) :
    (collectWidgetInformation []).answer (answering R) =
      (List.range 64).map fun i => (scanned R (BitVec.ofNat 32 i)).getD {} := by
  refine List.ext_getElem? fun i => ?_
  by_cases hi : i < 64
  · rw [collect_getElem? R [] hi, resize_nil, List.getElem?_replicate_of_lt hi, List.getElem?_map,
      List.getElem?_range hi]
    rfl
  · have hlen := length_collect R []
    rw [List.getElem?_eq_none (by omega), List.getElem?_eq_none (by simp; omega)]

/-- **A refresh agrees with a full rescan** when only amplifier settings have changed. -/
theorem refresh_rescan (R₁ R₂ : BitVec 32 → BitVec 32) (h : AgreeButAmps R₁ R₂) :
    (cmdRefresh ((collectWidgetInformation []).answer (answeringAll R₁))).answer
        (answeringAll R₂) =
      (collectWidgetInformation []).answer (answeringAll R₂) := by
  rw [cmdRefresh_answer, collect_empty, collect_empty, List.map_map]
  exact List.map_congr_left fun i _ => refresh_scanned h (BitVec.ofNat 32 i)

/-- Every node a digital-to-analog converter with an output amplifier, muted in between. -/
theorem refresh_rescan_muted :
    (cmdRefresh ((collectWidgetInformation []).answer (answeringAll fun _ => 0x04))).answer
        (answeringAll fun word => if IsGetAmpWord word then 0x80 else 0x04) =
      (collectWidgetInformation []).answer
        (answeringAll fun word => if IsGetAmpWord word then 0x80 else 0x04) :=
  refresh_rescan _ _ fun _ hword => (if_neg hword).symm

end Rescan

end TinyOS64
