/-
  File:      TinyOS64/Console/Unmute.lean
  Subject:   The amplifier commands of unmute, and the gain they carry (commands.cpp).

  `unmute N C` sets the input amplifier `C` and the output amplifier of node `N`, both channels.
  The channel is masked to four bits, the node is an index that nothing checks, and one gain,
  chosen from the entry, goes into both words.

  * `unmute_words` -- what is sent for a node of the table: the mute bit is clear because every
    gain of a reachable table is below 128;
  * `unmute_gain_iff` -- when the one gain is that of both amplifiers.
-/
import TinyOS64.Console.NodeCommands

namespace TinyOS64

open Interaction WordFields

/-! ## 1. Amplifier commands -/

/-- A set-amplifier command as a codec takes it: verb 3 with a 16-bit payload. -/
structure SetAmp where
  node : Nat
  output : Bool
  input : Bool
  left : Bool
  right : Bool
  index : Nat
  mute : Bool
  gain : Nat
  deriving DecidableEq, Repr

/-- The set-amplifier command a word for codec 0 is. -/
def setAmpOf (word : BitVec 32) : Option SetAmp :=
  let n := word.toNat
  if n / 2 ^ 28 = 0 ∧ n / 2 ^ 16 % 2 ^ 4 = 3 then
    some { node := n / 2 ^ 20 % 2 ^ 8, output := n / 2 ^ 15 % 2 = 1, input := n / 2 ^ 14 % 2 = 1,
           left := n / 2 ^ 13 % 2 = 1, right := n / 2 ^ 12 % 2 = 1, index := n / 2 ^ 8 % 2 ^ 4,
           mute := n / 2 ^ 7 % 2 = 1, gain := n % 2 ^ 7 }
  else none

/-- The command for input amplifier `index`, both channels, not muted. -/
def SetAmp.inputAmp (node index gain : Nat) : SetAmp :=
  ⟨node, false, true, true, true, index, false, gain⟩

/-- The command for the output amplifier, both channels, not muted. -/
def SetAmp.outputAmp (node gain : Nat) : SetAmp := ⟨node, true, false, true, true, 0, false, gain⟩

/-- A payload that fits below a 4-bit verb. -/
theorem setAmp_decodes {node payload : BitVec 32} (hn : node.toNat < 2 ^ 8)
    (hp : payload.toNat < 2 ^ 16) :
    Decodes (verbWord 0 node 0x0300 payload) node 0x0300 payload := by
  have hapart : ((0x0300 : BitVec 32) <<< 8) &&& payload = 0 := by
    rw [show (0x0300 : BitVec 32) <<< 8 = (3 : BitVec 32) <<< 16 by decide]
    exact shiftLeft_and 3 hp
  exact verbWord_decodes hn (by decide) (by omega) hapart

/-- A payload put together from its fields. -/
theorem payload_toNat (marks index : BitVec 32) {gain : BitVec 32} (hmarks : marks.toNat < 2 ^ 4)
    (hindex : index.toNat < 2 ^ 4) (hgain : gain.toNat < 2 ^ 7) :
    ((marks <<< 12) ||| (index <<< 8) ||| gain).toNat =
      marks.toNat * 2 ^ 12 + index.toNat * 2 ^ 8 + gain.toNat := by
  have hlow := toNat_field_above index (k := 8) (y := gain) rfl (by omega) (by omega)
  rw [BitVec.or_assoc, toNat_field_above marks hlow (by omega) (by omega), Nat.add_assoc]

/-- **The command a word is**, from the fields of its payload. -/
theorem setAmpOf_verbWord (node : BitVec 32) {payload : BitVec 32} {marks index gain : Nat}
    (hn : node.toNat < 2 ^ 8) (hmarks : marks < 2 ^ 4) (hindex : index < 2 ^ 4)
    (hgain : gain < 2 ^ 7) (hp : payload.toNat = marks * 2 ^ 12 + index * 2 ^ 8 + gain) :
    setAmpOf (verbWord 0 node 0x0300 payload) =
      some ⟨node.toNat, marks / 2 ^ 3 = 1, marks / 2 ^ 2 % 2 = 1, marks / 2 % 2 = 1, marks % 2 = 1,
        index, false, gain⟩ := by
  have hlow : payload.toNat < 2 ^ 16 := by omega
  have hdec := setAmp_decodes hn hlow
  have hcodec := hdec.codecField
  have hnode := hdec.nodeField
  have hverb : (verbWord 0 node 0x0300 payload).toNat % 2 ^ 20 = 3 * 2 ^ 16 + payload.toNat :=
    hdec.verbField
  unfold setAmpOf
  generalize (verbWord 0 node 0x0300 payload).toNat = n at hcodec hnode hverb ⊢
  dsimp only
  rw [if_pos (by omega), hnode, Option.some_inj, SetAmp.mk.injEq]
  refine ⟨rfl, decide_eq_decide.mpr ?_, decide_eq_decide.mpr ?_, decide_eq_decide.mpr ?_,
    decide_eq_decide.mpr ?_, ?_, decide_eq_false ?_, ?_⟩ <;> omega

/-! ## 2. What is sent -/

/-- The one gain: below 128, as every gain of a well-formed entry. -/
theorem gainSetting_lt {w : Widget} (hw : WidgetWellFormed w) : (gainSetting w).toNat < 2 ^ 7 := by
  unfold gainSetting
  split
  · exact Nat.lt_succ_of_le hw.outputAmp.gain
  · cases hamps : w.m_inputAmps with
    | nil => decide
    | cons amp amps =>
        have hamp : amp ∈ w.m_inputAmps := by rw [hamps]; exact List.mem_cons_self
        exact Nat.lt_succ_of_le (hw.inputAmps amp hamp).gain

/-- The payload for an input amplifier: the channel keeps its low four bits. -/
theorem inputPayload_toNat (C : Nat) {gain : BitVec 32} (hgain : gain.toNat < 2 ^ 7) :
    (0x7000 ||| (((BitVec.ofNat 64 C &&& 0xF) <<< 8).setWidth 32) ||| gain).toNat =
      7 * 2 ^ 12 + C % 16 * 2 ^ 8 + gain.toNat := by
  have hmask : (BitVec.ofNat 64 C &&& 0xF).toNat = C % 16 := by
    rw [toNat_and_low _ (j := 4) rfl, BitVec.toNat_ofNat]
    omega
  have hlow : (BitVec.ofNat 32 (C % 16)).toNat = C % 16 := toNat_ofNat_of_lt (by omega)
  have hindex : ((BitVec.ofNat 64 C &&& 0xF) <<< 8).setWidth 32 =
      BitVec.ofNat 32 (C % 16) <<< 8 := by
    refine BitVec.eq_of_toNat_eq ?_
    rw [BitVec.toNat_setWidth, toNat_shiftLeft_of_lt (by omega), toNat_shiftLeft_of_lt (by omega),
      hmask, hlow, Nat.mod_eq_of_lt (by omega)]
  have hpayload := payload_toNat 7 (BitVec.ofNat 32 (C % 16)) (by decide) (by omega) hgain
  rw [hlow] at hpayload
  rw [hindex]
  exact hpayload

theorem outputPayload_toNat {gain : BitVec 32} (hgain : gain.toNat < 2 ^ 7) :
    (0xB000 ||| gain).toNat = 0xB * 2 ^ 12 + 0 * 2 ^ 8 + gain.toNat := by
  have hpayload := payload_toNat 0xB 0 (by decide) (by decide) hgain
  rwa [show (0xB : BitVec 32) <<< 12 ||| (0 : BitVec 32) <<< 8 = 0xB000 by decide] at hpayload

/-- The handler sends a command for input amplifier `index` and one for the output amplifier of
    `node`, both channels and not muted, with these gains, and returns true. -/
def Unmutes (node index : Nat) (gain : Nat) (p : ConsoleM (Bool × HDACodec)) : Prop :=
  ∀ tr r, p.run.Transcript tr r →
    (wordsSent tr).map setAmpOf =
        [some (.inputAmp node index gain), some (.outputAmp node gain)] ∧
      ∃ codec, r = .ok (true, codec)

section Unmute

variable (polls : Nat) {codec : HDACodec} (N C : Numeral)

/-- **unmute on a well-formed entry.** -/
theorem unmutes_entry {w : Widget} (hw : codec.m_widgets[N.value]? = some w)
    (hwell : WidgetWellFormed w) (hN : N.value < 64) :
    Unmutes N.value (C.value % 16) (gainSetting w).toNat
      (execute polls (lineMemory (unmuteLine N C)) codec ⟨some 0, (unmuteLine N C).length⟩) := by
  have hgain := gainSetting_lt hwell
  have hnode : (BitVec.ofNat 32 N.value).toNat = N.value := toNat_ofNat_of_lt (by omega)
  have hentry : widgetAt codec (BitVec.ofNat 64 N.value) = .ok w := by
    rw [widgetAt, toNat_ofNat_of_lt (by omega), hw]
  have hinput := setAmpOf_verbWord (BitVec.ofNat 32 N.value) (by omega) (by decide)
    (by omega) hgain (inputPayload_toNat C.value hgain)
  have houtput := setAmpOf_verbWord (BitVec.ofNat 32 N.value) (by omega) (by decide)
    (by decide) hgain (outputPayload_toNat hgain)
  rw [hnode] at hinput houtput
  intro tr r htr
  obtain ⟨hwords, hr⟩ := unmute_sends polls codec N C hentry tr r htr
  refine ⟨?_, codec, hr⟩
  rw [hwords, List.map_cons, List.map_cons, List.map_nil, hinput, houtput]
  rfl

/-- **unmute on a reachable table**: for every node of the table and every channel exactly two
    amplifier commands are sent, one for the input amplifier with the channel's low four bits and
    one for the output amplifier, both channels, not muted. -/
theorem unmute_words (h : Reachable codec.m_widgets) (hN : N.value < codec.m_widgets.length) :
    ∃ gain, Unmutes N.value (C.value % 16) gain
      (execute polls (lineMemory (unmuteLine N C)) codec ⟨some 0, (unmuteLine N C).length⟩) := by
  have hwell := h.wellFormed
  exact ⟨_, unmutes_entry polls N C (List.getElem?_eq_getElem hN)
    (hwell.widgets _ (List.getElem_mem hN)) (hwell.length ▸ hN)⟩

/-- **What `unmute N C` owes** a table of `size` entries: two commands for a node and a channel
    there are, and for others it fails and sends nothing. -/
def UnmuteExact (size N C : Nat) (p : ConsoleM (Bool × HDACodec)) : Prop :=
  if N < size ∧ C < 16 then ∃ gain, Unmutes N C gain p
  else ∀ tr r, p.run.Transcript tr r → wordsSent tr = [] ∧ ∃ codec, r = .ok (false, codec)

/-- A channel from 16 on is sent all the same. -/
theorem unmute_inexact {w : Widget} (hw : codec.m_widgets[N.value]? = some w)
    (hwell : WidgetWellFormed w) (hN : N.value < 64) (hC : 16 ≤ C.value) :
    ¬ UnmuteExact codec.m_widgets.length N.value C.value
      (execute polls (lineMemory (unmuteLine N C)) codec ⟨some 0, (unmuteLine N C).length⟩) := by
  intro hexact
  rw [UnmuteExact, if_neg (by omega)] at hexact
  obtain ⟨tr, r, htr⟩ := exists_transcript
    (execute polls (lineMemory (unmuteLine N C)) codec ⟨some 0, (unmuteLine N C).length⟩)
  have hsent := (unmutes_entry polls N C hw hwell hN tr r htr).1
  rw [(hexact tr r htr).1] at hsent
  cases hsent

end Unmute

/-- A codec whose node 1 has two amplifiers with different 0 dB settings. -/
def twoGains (word : BitVec 32) : Option (BitVec 32) :=
  if word = widgetCapabilities 1 then some 0x00F00006
  else if word = verbWord 0 1 0xF00 0x0D then some 0x1F
  else if word = verbWord 0 1 0xF00 0x12 then some 0x4A
  else none

/-- What its scan stores for node 1. -/
def twoGainsNode : Widget :=
  { m_ID := 1, m_type := .Vendor, m_channels := 1, m_hasInputAmp := true, m_hasOutputAmp := true
    m_inputAmps := [{ m_0dBSetting := 0x1F, m_valid := true }]
    m_outputAmp := { m_0dBSetting := 0x4A, m_valid := true } }

def twoGainsCodec : HDACodec :=
  ⟨(collectWidgetInformation []).answer (answering twoGains), 0x1000, 0x2000, 0x12000, 0x80, 0x100⟩

theorem twoGainsCodec_reachable : Reachable twoGainsCodec.m_widgets :=
  .scan (Prog.outcome_of_answer (fun _ => trivial) _)

theorem twoGainsCodec_node : twoGainsCodec.m_widgets[1]? = some twoGainsNode := by
  have hnode : describedNode twoGains 1 0x00F00006 = twoGainsNode := by decide +kernel
  have hscanned : scanned twoGains (BitVec.ofNat 32 1) = some twoGainsNode := by
    have hcap : twoGains (widgetCapabilities (BitVec.ofNat 32 1)) = some 0x00F00006 := rfl
    rw [scanned_eq, hcap, ← hnode]
    rfl
  have hslot : (resize [] 64 ({} : Widget))[1]? = some ({} : Widget) := rfl
  rw [twoGainsCodec, collect_getElem? twoGains [] (show 1 < 64 by decide), hscanned, hslot]
  rfl

/-- A node with two recorded amplifiers, and a channel above the fifteenth. -/
theorem unmute_words_two : ∃ gain, Unmutes 1 0 gain
    (execute 0 (lineMemory (bytes "unmute 1 $10")) twoGainsCodec
      ⟨some 0, (bytes "unmute 1 $10").length⟩) := by
  have hlt : 1 < twoGainsCodec.m_widgets.length :=
    (List.getElem?_eq_some_iff.mp twoGainsCodec_node).1
  exact unmute_words 0 ⟨bytes "1", 1, by decide, by decide⟩
    ⟨bytes "$10", 16, by decide, by decide⟩ twoGainsCodec_reachable hlt

/-- A codec that never answers, scanned. -/
def silentCodec : HDACodec :=
  ⟨(collectWidgetInformation []).answer (answering fun _ => none), 0x1000, 0x2000, 0x12000, 0x80,
    0x100⟩

theorem silentCodec_reachable : Reachable silentCodec.m_widgets :=
  .scan (Prog.outcome_of_answer (fun _ => trivial) _)

theorem silentCodec_length : silentCodec.m_widgets.length = 64 := length_collect _ []

/-- Channel 16 is unmuted as channel 0. -/
theorem unmute_channel_masked : ¬ UnmuteExact silentCodec.m_widgets.length 12 16
    (execute 0 (lineMemory (bytes "unmute 12 16")) silentCodec
      ⟨some 0, (bytes "unmute 12 16").length⟩) := by
  have hwell := silentCodec_reachable.wellFormed
  have hlt : 12 < silentCodec.m_widgets.length := silentCodec_length ▸ by decide
  exact unmute_inexact 0 ⟨bytes "12", 12, by decide, by decide⟩
    ⟨bytes "16", 16, by decide, by decide⟩ (List.getElem?_eq_getElem hlt)
    (hwell.widgets _ (List.getElem_mem hlt)) (by decide) (by decide)

/-! ## 3. The gain -/

/-- **What each command owes the entry**: the 0 dB setting of the amplifier it addresses, where
    that amplifier is recorded as valid. -/
def GainsExact (w : Widget) (p : ConsoleM (Bool × HDACodec)) : Prop :=
  ∀ tr r, p.run.Transcript tr r → ∀ set, some set ∈ (wordsSent tr).map setAmpOf →
    (set.input = true → ∀ amp, w.m_inputAmps[set.index]? = some amp → amp.m_valid = true →
      set.gain = amp.m_0dBSetting.toNat) ∧
    (set.output = true → w.m_outputAmp.m_valid = true →
      set.gain = w.m_outputAmp.m_0dBSetting.toNat)

/-- Input amplifier `index`, where it is there and valid, has the 0 dB setting of the output
    amplifier, or of the first input amplifier when the output amplifier is not valid. -/
def OneGain (w : Widget) (index : Nat) : Prop :=
  ∀ amp, w.m_inputAmps[index]? = some amp → amp.m_valid = true →
    (w.m_outputAmp.m_valid = true → amp.m_0dBSetting = w.m_outputAmp.m_0dBSetting) ∧
    (w.m_outputAmp.m_valid = false → ∀ first ∈ w.m_inputAmps.head?,
      amp.m_0dBSetting = first.m_0dBSetting)

theorem gainSetting_output {w : Widget} (h : w.m_outputAmp.m_valid = true) :
    gainSetting w = w.m_outputAmp.m_0dBSetting := by
  rw [gainSetting, if_pos h]

theorem oneGain_iff {w : Widget} {index : Nat} : OneGain w index ↔
    ∀ amp, w.m_inputAmps[index]? = some amp → amp.m_valid = true →
      gainSetting w = amp.m_0dBSetting := by
  refine forall_congr' fun amp => imp_congr_right fun hget => imp_congr_right fun _ => ?_
  cases hout : w.m_outputAmp.m_valid with
  | true =>
      rw [gainSetting_output hout]
      exact ⟨fun h => (h.1 rfl).symm, fun h => ⟨fun _ => h.symm, nofun⟩⟩
  | false =>
      cases hamps : w.m_inputAmps with
      | nil =>
          rw [hamps] at hget
          cases hget
      | cons first amps =>
          have hgain : gainSetting w = first.m_0dBSetting := by
            rw [gainSetting, hout, hamps]
            rfl
          rw [hgain]
          refine ⟨fun h => (h.2 rfl first rfl).symm, fun h => ⟨nofun, fun _ first' hfirst => ?_⟩⟩
          cases hfirst
          exact h.symm

section Gain

variable (polls : Nat) {codec : HDACodec} (N C : Numeral)

/-- **unmute on an entry**: its gains are right exactly when one gain is right for both. -/
theorem gainsExact_entry {w : Widget} (hw : codec.m_widgets[N.value]? = some w)
    (hwell : WidgetWellFormed w) (hN : N.value < 64) (hC : C.value < 16) :
    GainsExact w (execute polls (lineMemory (unmuteLine N C)) codec
      ⟨some 0, (unmuteLine N C).length⟩) ↔ OneGain w C.value := by
  have hsent := unmutes_entry polls N C hw hwell hN
  rw [Nat.mod_eq_of_lt hC] at hsent
  rw [oneGain_iff]
  refine ⟨fun h amp hamp hvalid => ?_, fun h tr r htr set hset => ?_⟩
  · obtain ⟨tr, r, htr⟩ := exists_transcript
      (execute polls (lineMemory (unmuteLine N C)) codec ⟨some 0, (unmuteLine N C).length⟩)
    have hmem : some (SetAmp.inputAmp N.value C.value (gainSetting w).toNat) ∈
        (wordsSent tr).map setAmpOf := by
      rw [(hsent tr r htr).1]
      exact List.mem_cons_self
    exact BitVec.eq_of_toNat_eq ((h tr r htr _ hmem).1 rfl amp hamp hvalid)
  · rw [(hsent tr r htr).1] at hset
    rcases List.mem_cons.mp hset with he | hset
    · cases he
      exact ⟨fun _ amp hamp hvalid => congrArg BitVec.toNat (h amp hamp hvalid), nofun⟩
    · cases List.mem_singleton.mp hset
      exact ⟨nofun, fun _ hvalid => congrArg BitVec.toNat (gainSetting_output hvalid)⟩

/-- **The gains of unmute are those of the amplifiers it sets exactly when the input amplifier's
    0 dB setting is the one used for both**: for every reachable table, node and channel. -/
theorem unmute_gain_iff (h : Reachable codec.m_widgets) (hN : N.value < 64) (hC : C.value < 16)
    {w : Widget} (hw : codec.m_widgets[N.value]? = some w) :
    GainsExact w (execute polls (lineMemory (unmuteLine N C)) codec
      ⟨some 0, (unmuteLine N C).length⟩) ↔ OneGain w C.value :=
  gainsExact_entry polls N C hw (h.wellFormed.widgets w (List.mem_of_getElem? hw)) hN hC

end Gain

/-- The channel of an input amplifier that is there, with another gain. -/
theorem unmute_gain_iff_two : GainsExact twoGainsNode
    (execute 0 (lineMemory (bytes "unmute 1 0")) twoGainsCodec
      ⟨some 0, (bytes "unmute 1 0").length⟩) ↔ OneGain twoGainsNode 0 :=
  unmute_gain_iff 0 ⟨bytes "1", 1, by decide, by decide⟩ ⟨bytes "0", 0, by decide, by decide⟩
    twoGainsCodec_reachable (by decide) (by decide) twoGainsCodec_node

/-- Input amplifier 0 of node 1 is unmuted with the output amplifier's gain. -/
theorem unmute_wrong_gain : ¬ GainsExact twoGainsNode
    (execute 0 (lineMemory (bytes "unmute 1 0")) twoGainsCodec
      ⟨some 0, (bytes "unmute 1 0").length⟩) := by
  intro hexact
  have hwell := twoGainsCodec_reachable.wellFormed.widgets _
    (List.mem_of_getElem? twoGainsCodec_node)
  have hone := (gainsExact_entry 0 ⟨bytes "1", 1, by decide, by decide⟩
    ⟨bytes "0", 0, by decide, by decide⟩ twoGainsCodec_node hwell (by decide) (by decide)).mp hexact
  exact absurd ((hone _ rfl rfl).1 rfl) (by decide)

end TinyOS64
