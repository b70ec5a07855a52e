/-
  File:      TinyOS64/Hda/InputAmps.lean
  Subject:   The input amplifiers of a mixer, after a scan and after every refresh.

  A query names its input in four bits (`channel & 0x0F`), the list has one amplifier for each of
  up to 127 connections. `inputAmps_answered`: element `k` holds what the codec answers for input
  `k % 16`, and two inputs are asked for by different words exactly when they differ modulo 16.
-/
import TinyOS64.Hda.ConnectionList

namespace TinyOS64

open Interaction WordFields

/-! ## 1. One amplifier -/

/-- The settings query of the right side of an input of a node. -/
def rightQuery (widgetID : BitVec 32) (input : Nat) : BitVec 32 :=
  verbWord 0 widgetID 0xB00 (BitVec.ofNat 32 input)

/-- The settings query of the left side. -/
def leftQuery (widgetID : BitVec 32) (input : Nat) : BitVec 32 :=
  verbWord 0 widgetID 0xB00 (BitVec.ofNat 32 input ||| (1 <<< 13))

/-- The amplifier of an input as the codec tells it. -/
def answeredAmp (R : BitVec 32 → BitVec 32) (widgetID : BitVec 32) (input : Nat) : Amp where
  m_canMute := (R (verbWord 0 widgetID 0xF00 0x0D)).getLsbD 31
  m_0dBSetting := R (verbWord 0 widgetID 0xF00 0x0D) &&& 0x7F
  m_valid := true
  m_muted := ((R (leftQuery widgetID input)).getLsbD 7, (R (rightQuery widgetID input)).getLsbD 7)
  m_volume := (R (leftQuery widgetID input) &&& 0x7F, R (rightQuery widgetID input) &&& 0x7F)

section Amplifier

variable {R : BitVec 32 → BitVec 32} {widgetID : BitVec 32}

/-- The mask of the source is a remainder. -/
theorem channel_masked (k : Nat) : BitVec.ofNat 32 k &&& 0x0F#32 = BitVec.ofNat 32 (k % 16) := by
  refine BitVec.eq_of_toNat_eq ?_
  rw [toNat_and_low (j := 4) _ rfl, BitVec.toNat_ofNat, BitVec.toNat_ofNat]
  omega

theorem getInputAmplifierInfo_eq (widgetID : BitVec 32) (k : Nat) :
    getInputAmplifierInfo widgetID (BitVec.ofNat 32 k) = readAmp widgetID 0x0D
      (BitVec.ofNat 32 (k % 16)) (BitVec.ofNat 32 (k % 16) ||| (1 <<< 13)) := by
  rw [← channel_masked]
  rfl

/-- One amplifier that answers its capabilities. -/
theorem getInputAmplifierInfo_answer (hcaps : R (verbWord 0 widgetID 0xF00 0x0D) ≠ 0) (k : Nat) :
    (getInputAmplifierInfo widgetID (BitVec.ofNat 32 k)).answer (answeringAll R) =
      answeredAmp R widgetID (k % 16) := by
  rw [getInputAmplifierInfo_eq, readAmp, Prog.answer_bind]
  have hasked : ((Verbs.ask 0 widgetID 0xF00 0x0D).answer (answeringAll R)).getD 0 =
      R (verbWord 0 widgetID 0xF00 0x0D) := rfl
  dsimp only
  rw [hasked, if_pos hcaps]
  rfl

/-- The vector of them. -/
theorem readInputAmps_answer (hcaps : R (verbWord 0 widgetID 0xF00 0x0D) ≠ 0) (n : Nat) :
    (readInputAmps widgetID n).answer (answeringAll R) =
      (List.range n).map fun k => answeredAmp R widgetID (k % 16) := by
  rw [readInputAmps, Prog.answer_mapM]
  exact List.map_congr_left fun k _ => getInputAmplifierInfo_answer hcaps k

/-- The questions for one input: the capabilities, the right side, the left side. -/
theorem getInputAmplifierInfo_asked (hcaps : R (verbWord 0 widgetID 0xF00 0x0D) ≠ 0) (k : Nat) :
    (getInputAmplifierInfo widgetID (BitVec.ofNat 32 k)).asked (answeringAll R) =
      [.verb 0 widgetID 0xF00 0x0D, .verb 0 widgetID 0xB00 (BitVec.ofNat 32 (k % 16)),
        .verb 0 widgetID 0xB00 (BitVec.ofNat 32 (k % 16) ||| (1 <<< 13))] := by
  rw [getInputAmplifierInfo_eq, readAmp, Prog.asked_bind]
  have hasked : ((Verbs.ask 0 widgetID 0xF00 0x0D).answer (answeringAll R)).getD 0 =
      R (verbWord 0 widgetID 0xF00 0x0D) := rfl
  dsimp only
  rw [hasked, if_pos hcaps]
  rfl

end Amplifier

/-! ## 2. The words -/

/-- Settings queries with different payloads are different words. -/
theorem settings_payload_eq {widgetID payload payload' : BitVec 32} (hp : payload.toNat < 2 ^ 16)
    (hp' : payload'.toNat < 2 ^ 16)
    (h : verbWord 0 widgetID 0xB00 payload = verbWord 0 widgetID 0xB00 payload') :
    payload = payload' := by
  have hverb : ∀ i : Fin 16, ((0xB00 : BitVec 32) <<< 8).getLsbD i = false := by decide
  refine BitVec.eq_of_getLsbD_eq fun i _ => ?_
  by_cases hi : i < 16
  · have hbit := congrArg (·.getLsbD i) h
    simp only [verbWord_getLsbD widgetID 0xB00 _ (by omega : i < 20), BitVec.getLsbD_or,
      hverb ⟨i, hi⟩, Bool.false_or] at hbit
    exact hbit
  · have hpow : 2 ^ 16 ≤ 2 ^ i := Nat.pow_le_pow_right (by decide) (by omega)
    have hnone : ∀ p : BitVec 32, p.toNat < 2 ^ 16 → p.getLsbD i = false := fun p hlt =>
      Nat.testBit_lt_two_pow (Nat.lt_of_lt_of_le hlt hpow)
    rw [hnone payload hp, hnone payload' hp']

/-- The payloads of two inputs, and of the two sides. -/
theorem settings_payloads : ∀ a b : Fin 16,
    (BitVec.ofNat 32 a).toNat < 2 ^ 16 ∧
    (BitVec.ofNat 32 a ||| (1 <<< 13)).toNat < 2 ^ 16 ∧
    BitVec.ofNat 32 a ≠ BitVec.ofNat 32 b ||| (1 <<< 13) ∧
    (BitVec.ofNat 32 a = BitVec.ofNat 32 b → a = b) ∧
    (BitVec.ofNat 32 a ||| (1 <<< 13) = BitVec.ofNat 32 b ||| (1 <<< 13) → a = b) := by
  decide

/-- **The words of one widget**: those of two inputs agree when the inputs agree modulo 16, those
    of the two sides never. -/
theorem settings_words (widgetID : BitVec 32) (k k' : Nat) :
    (rightQuery widgetID (k % 16) = rightQuery widgetID (k' % 16) ↔ k % 16 = k' % 16) ∧
    (leftQuery widgetID (k % 16) = leftQuery widgetID (k' % 16) ↔ k % 16 = k' % 16) ∧
    rightQuery widgetID (k % 16) ≠ leftQuery widgetID (k' % 16) := by
  obtain ⟨hr, hl, hsides, hright, hleft⟩ :=
    settings_payloads ⟨k % 16, Nat.mod_lt k (by decide)⟩ ⟨k' % 16, Nat.mod_lt k' (by decide)⟩
  obtain ⟨hr', hl', -, -, -⟩ :=
    settings_payloads ⟨k' % 16, Nat.mod_lt k' (by decide)⟩ ⟨k % 16, Nat.mod_lt k (by decide)⟩
  refine ⟨⟨fun h => ?_, fun h => by rw [h]⟩, ⟨fun h => ?_, fun h => by rw [h]⟩, fun h => ?_⟩
  · exact congrArg Fin.val (hright (settings_payload_eq hr hr' h))
  · exact congrArg Fin.val (hleft (settings_payload_eq hl hl' h))
  · exact hsides (settings_payload_eq hr hl' h)

/-- Up to 16 inputs, and no further, all of them are told apart. -/
theorem settings_distinct (widgetID : BitVec 32) (n : Nat) :
    (∀ k < n, ∀ k' < n,
      rightQuery widgetID (k % 16) = rightQuery widgetID (k' % 16) ∨
      leftQuery widgetID (k % 16) = leftQuery widgetID (k' % 16) → k = k') ↔ n ≤ 16 := by
  constructor
  · intro h
    by_contra hn
    exact absurd (h 0 (by omega) 16 (by omega) (.inl rfl)) (by decide)
  · intro hn k hk k' hk' h
    obtain ⟨hright, hleft, -⟩ := settings_words widgetID k k'
    have hmod : k % 16 = k' % 16 := h.elim hright.mp hleft.mp
    omega

/-! ## 3. The table after a scan and after refreshes -/

/-- A mixer with an input amplifier and `n` connections in the short form, as the codec describes
    it. -/
structure DescribesMixer (R : BitVec 32 → BitVec 32) (widgetID : BitVec 32) (n : Nat) : Prop where
  present : ¬ Absent (fun word => some (R word)) widgetID
  mixer : (R (widgetCapabilities widgetID) >>> 20) &&& 0x0F = 2
  inputAmp : (R (widgetCapabilities widgetID)).getLsbD 1 = true
  connections : (R (widgetCapabilities widgetID) >>> 8) &&& 1 ≠ 0
  short : (R (verbWord 0 widgetID 0xF00 0x0E) >>> 7) &&& 0x1 = 0
  count : (R (verbWord 0 widgetID 0xF00 0x0E) &&& 0x7F).toNat = n
  amplifier : R (verbWord 0 widgetID 0xF00 0x0D) ≠ 0

/-- Refresh after refresh, each with what the codec answers then. -/
def refreshes (Rs : List (BitVec 32 → BitVec 32)) (m_widgets : List Widget) : List Widget :=
  Rs.foldl (fun table R => (cmdRefresh table).answer (answeringAll R)) m_widgets

section Mixer

variable {R : BitVec 32 → BitVec 32} {widgetID : BitVec 32} {n : Nat}

/-- **After a scan** a mixer has an amplifier for each connection. -/
theorem describedNode_inputAmps (h : DescribesMixer R widgetID n) :
    (describedNode (fun word => some (R word)) widgetID
        (R (widgetCapabilities widgetID))).m_inputAmps =
      (List.range n).map fun k => answeredAmp R widgetID (k % 16) := by
  obtain ⟨w, hw, hnode⟩ := readNode_announced (fun word => some (R word)) widgetID
    (R (widgetCapabilities widgetID))
  have honly := (onlyConnections_readConnections w (R (widgetCapabilities widgetID))).answer
    (answeringAll R)
  have hlist := readConnections_short (R := fun word => some (R word)) hw.id hw.connections
    h.connections rfl h.short
  have hcount : numberOfInputAmps ((readConnections w (R (widgetCapabilities widgetID))).answer
      (answeringAll R)) = n := by
    have hlength := congrArg List.length hlist
    rw [List.length_map, List.length_range, h.count] at hlength
    obtain ⟨list, selection, hsame⟩ := honly
    have hmixer : w.m_type = .Mixer := by
      rw [hw.type, h.mixer]
      rfl
    rw [numberOfInputAmps, hlength, hsame]
    dsimp only
    rw [hw.hasInputAmp, h.inputAmp, hmixer, if_pos rfl, if_pos rfl]
  rw [describedNode_eq, hnode]
  dsimp only
  rw [hcount]
  exact readInputAmps_answer h.amplifier n

/-- One refresh of an entry: its ID and the number of its amplifiers stay. -/
theorem refreshes_entry (Rs : List (BitVec 32 → BitVec 32)) {m_widgets : List Widget} {i : Nat}
    {w : Widget} (hw : m_widgets[i]? = some w) :
    ∃ w', (refreshes Rs m_widgets)[i]? = some w' ∧ w'.m_ID = w.m_ID ∧
      w'.m_inputAmps.length = w.m_inputAmps.length := by
  induction Rs generalizing m_widgets w with
  | nil => exact ⟨w, hw, rfl, rfl⟩
  | cons R Rs ih =>
      have hnext : ((cmdRefresh m_widgets).answer (answeringAll R))[i]? =
          some ((refreshWidget w).answer (answeringAll R)) := by
        rw [cmdRefresh_answer, List.getElem?_map, hw]
        rfl
      obtain ⟨w', hw', hid, hlength⟩ := ih hnext
      rw [refreshWidget_answer] at hid hlength
      exact ⟨w', hw', hid, hlength.trans ((readInputAmps_length _ _).answer _)⟩

/-- **After a refresh** every amplifier of the entry is read again. -/
theorem refreshes_inputAmps (Rs : List (BitVec 32 → BitVec 32)) {m_widgets : List Widget} {i : Nat}
    {w : Widget} (hw : m_widgets[i]? = some w)
    (hcaps : R (verbWord 0 w.m_ID 0xF00 0x0D) ≠ 0) :
    ∃ w', (refreshes (Rs ++ [R]) m_widgets)[i]? = some w' ∧ w'.m_inputAmps =
      (List.range w.m_inputAmps.length).map fun k => answeredAmp R w.m_ID (k % 16) := by
  obtain ⟨w', hw', hid, hlength⟩ := refreshes_entry Rs hw
  refine ⟨(refreshWidget w').answer (answeringAll R), ?_, ?_⟩
  · rw [refreshes, List.foldl_append]
    show ((cmdRefresh (refreshes Rs m_widgets)).answer (answeringAll R))[i]? = _
    rw [cmdRefresh_answer, List.getElem?_map, hw']
    rfl
  · rw [refreshWidget_answer, hid, hlength]
    exact readInputAmps_answer hcaps _

end Mixer

/-- **The input amplifiers of a mixer.** Whatever the codec answers: after a scan of any earlier
    table, and after every refresh that follows, element `k` holds the sides of input `k % 16`.
    The questions for an input name it modulo 16, in words that differ for the two sides, and for
    two inputs exactly when these differ modulo 16; so all are different up to 16 connections. -/
theorem inputAmps_answered (R : BitVec 32 → BitVec 32) (m_widgets : List Widget) {i n : Nat}
    (hi : i < 64) (hmixer : DescribesMixer R (BitVec.ofNat 32 i) n) :
    let table := (collectWidgetInformation m_widgets).answer (answeringAll R)
    (∃ w, table[i]? = some w ∧ w.m_inputAmps =
      (List.range n).map fun k => answeredAmp R (BitVec.ofNat 32 i) (k % 16)) ∧
    (∀ Rs R', R' (verbWord 0 (BitVec.ofNat 32 i) 0xF00 0x0D) ≠ 0 →
      ∃ w, (refreshes (Rs ++ [R']) table)[i]? = some w ∧ w.m_inputAmps =
        (List.range n).map fun k => answeredAmp R' (BitVec.ofNat 32 i) (k % 16)) ∧
    (∀ k, (getInputAmplifierInfo (BitVec.ofNat 32 i) (BitVec.ofNat 32 k)).asked
        (answeringAll R) = [.verb 0 (BitVec.ofNat 32 i) 0xF00 0x0D,
          .verb 0 (BitVec.ofNat 32 i) 0xB00 (BitVec.ofNat 32 (k % 16)),
          .verb 0 (BitVec.ofNat 32 i) 0xB00 (BitVec.ofNat 32 (k % 16) ||| (1 <<< 13))]) ∧
    (∀ k k',
      (rightQuery (BitVec.ofNat 32 i) (k % 16) = rightQuery (BitVec.ofNat 32 i) (k' % 16) ↔
        k % 16 = k' % 16) ∧
      (leftQuery (BitVec.ofNat 32 i) (k % 16) = leftQuery (BitVec.ofNat 32 i) (k' % 16) ↔
        k % 16 = k' % 16) ∧
      rightQuery (BitVec.ofNat 32 i) (k % 16) ≠ leftQuery (BitVec.ofNat 32 i) (k' % 16)) ∧
    ((∀ k < n, ∀ k' < n,
      rightQuery (BitVec.ofNat 32 i) (k % 16) = rightQuery (BitVec.ofNat 32 i) (k' % 16) ∨
      leftQuery (BitVec.ofNat 32 i) (k % 16) = leftQuery (BitVec.ofNat 32 i) (k' % 16) →
        k = k') ↔ n ≤ 16) := by
  intro table
  have hscan : ∃ w, table[i]? = some w ∧ w.m_ID = BitVec.ofNat 32 i ∧ w.m_inputAmps =
      (List.range n).map fun k => answeredAmp R (BitVec.ofNat 32 i) (k % 16) := by
    have hscanned := scanned_present (R := fun word => some (R word)) rfl hmixer.present
    have hslot : i < (resize m_widgets 64 {}).length := by rw [length_resize]; exact hi
    refine ⟨_, ?_, scanned_id hscanned, describedNode_inputAmps hmixer⟩
    rw [show table = _ from rfl, collect_getElem? _ m_widgets hi, hscanned,
      List.getElem?_eq_getElem hslot]
    rfl
  obtain ⟨w, hw, hid, hamps⟩ := hscan
  refine ⟨⟨w, hw, hamps⟩, fun Rs R' hcaps => ?_, fun k =>
    getInputAmplifierInfo_asked hmixer.amplifier k, settings_words _, settings_distinct _ n⟩
  obtain ⟨w', hw', hamps'⟩ := refreshes_inputAmps Rs hw (by rw [hid]; exact hcaps)
  refine ⟨w', hw', ?_⟩
  rw [hamps', hid, hamps, List.length_map, List.length_range]

/-- Node 2 is a mixer with 17 connections. -/
def seventeenConnections (word : BitVec 32) : BitVec 32 :=
  if word = widgetCapabilities 2 then 0x00200102
  else if word = verbWord 0 2 0xF00 0x0E then 17
  else 0x80

theorem seventeenConnections_mixer : DescribesMixer seventeenConnections 2 17 :=
  ⟨by decide, by decide, by decide, by decide, by decide, by decide, by decide⟩

theorem inputAmps_answered_seventeen :
    let table := (collectWidgetInformation []).answer (answeringAll seventeenConnections)
    ∃ w, table[2]? = some w ∧ w.m_inputAmps =
      (List.range 17).map fun k => answeredAmp seventeenConnections 2 (k % 16) :=
  (inputAmps_answered seventeenConnections [] (by decide : 2 < 64) seventeenConnections_mixer).1

/-- **Inputs 0 and 16 are one to the codec**: the same words ask for both. -/
theorem inputAmps_masked : ¬ ∀ (R : BitVec 32 → BitVec 32) (widgetID : BitVec 32) (n : Nat),
    DescribesMixer R widgetID n → ∀ k < n, ∀ k' < n, k ≠ k' →
      (getInputAmplifierInfo widgetID (BitVec.ofNat 32 k)).asked (answeringAll R) ≠
        (getInputAmplifierInfo widgetID (BitVec.ofNat 32 k')).asked (answeringAll R) := by
  intro h
  refine h seventeenConnections 2 17 seventeenConnections_mixer 0 (by decide) 16 (by decide)
    (by decide) ?_
  rw [getInputAmplifierInfo_asked seventeenConnections_mixer.amplifier,
    getInputAmplifierInfo_asked seventeenConnections_mixer.amplifier]

end TinyOS64
