/-
  File:      TinyOS64/Hda/Settings.lean
  Subject:   A codec that keeps what it is told, and the control functions on it (hdacodec.cpp).

  `Settings` is what a codec keeps of its nodes: stream format, stream, pin control and the
  channels of the amplifiers. `CodecVerb.ofWord` says what a verb word asks of it, `keeper` is the
  codec: a set verb stores its payload, a get verb reads it back, and every other word has a fixed
  answer.

  * `session_settings` -- a scan and any calls after it change the settings as the calls say, and
    the table is the one the scan found.
-/
import TinyOS64.Hda.Words
import Mathlib.Logic.Function.Basic

namespace TinyOS64

open Interaction WordFields

/-! ## 1. Verbs and settings -/

/-- One channel of an amplifier: of the node's output amplifier, or of its input amplifier
    `index`. -/
structure AmpChannel where
  node : Nat
  output : Bool
  left : Bool
  index : Nat
  deriving DecidableEq, Repr

/-- The set-amplifier payload chooses this channel of its node. -/
def AmpChannel.Chosen (ch : AmpChannel) (payload : Nat) : Prop :=
  (if ch.output then payload / 2 ^ 15 % 2 = 1
    else payload / 2 ^ 14 % 2 = 1 ∧ payload / 2 ^ 8 % 2 ^ 4 = ch.index) ∧
  (if ch.left then payload / 2 ^ 13 % 2 = 1 else payload / 2 ^ 12 % 2 = 1)

instance (ch : AmpChannel) (payload : Nat) : Decidable (ch.Chosen payload) :=
  inferInstanceAs (Decidable (_ ∧ _))

/-- What a verb asks of the settings. -/
inductive CodecVerb where
  | setFormat (node : Nat) (format : BitVec 16)
  | getFormat (node : Nat)
  | setAmp (node payload : Nat)
  | getAmp (channel : AmpChannel)
  | setStream (node : Nat) (stream : BitVec 8)
  | getStream (node : Nat)
  | setPin (node : Nat) (control : BitVec 8)
  | getPin (node : Nat)
  | other
  deriving DecidableEq

namespace CodecVerb

/-- Verb and payload, the low 20 bits of a word: a 4-bit verb with a payload of 16 bits, or a
    12-bit verb with one of 8 bits. -/
def ofFields (node low : Nat) : CodecVerb :=
  match low / 2 ^ 16 with
  | 0x2 => setFormat node (BitVec.ofNat 16 low)
  | 0x3 => setAmp node (low % 2 ^ 16)
  | 0xA => getFormat node
  | 0xB => getAmp ⟨node, low / 2 ^ 15 % 2 = 1, low / 2 ^ 13 % 2 = 1, low % 2 ^ 4⟩
  | _ =>
    match low / 2 ^ 8 with
    | 0x706 => setStream node (BitVec.ofNat 8 low)
    | 0x707 => setPin node (BitVec.ofNat 8 low)
    | 0xF06 => getStream node
    | 0xF07 => getPin node
    | _ => other

/-- What a word asks; the codec has address 0. -/
def ofWord (word : BitVec 32) : CodecVerb :=
  let n := word.toNat
  if n / 2 ^ 28 = 0 then ofFields (n / 2 ^ 20 % 2 ^ 8) (n % 2 ^ 20) else other

theorem ofWord_decodes {word node verb command : BitVec 32} (h : Decodes word node verb command) :
    ofWord word = ofFields node.toNat (verb.toNat * 2 ^ 8 + command.toNat) := by
  unfold ofWord
  dsimp only
  rw [if_pos h.codecField, h.nodeField, h.verbField]

section Words

variable {node payload : BitVec 32} (hn : node.toNat < 2 ^ 8)

include hn

/-- A 4-bit verb with its payload. -/
theorem ofWord_long {verb v : BitVec 32} (hverb : verb <<< 8 = v <<< 16) (hv : verb.toNat < 2 ^ 12)
    (hp : payload.toNat < 2 ^ 16) : ofWord (verbWord 0 node verb payload) =
      ofFields node.toNat (verb.toNat * 2 ^ 8 + payload.toNat) := by
  refine ofWord_decodes (verbWord_decodes hn hv (by omega) ?_)
  rw [hverb]
  exact shiftLeft_and v hp

/-- A 12-bit verb with its payload. -/
theorem ofWord_short {verb : BitVec 32} (hv : verb.toNat < 2 ^ 12) (hp : payload.toNat < 2 ^ 8) :
    ofWord (verbWord 0 node verb payload) =
      ofFields node.toNat (verb.toNat * 2 ^ 8 + payload.toNat) :=
  ofWord_decodes (verbWord_decodes hn hv (by omega) (shiftLeft_and verb hp))

theorem ofWord_setFormat (hp : payload.toNat < 2 ^ 16) :
    ofWord (verbWord 0 node 0x200 payload) = setFormat node.toNat (payload.setWidth 16) := by
  have hlow : (0x200 * 2 ^ 8 + payload.toNat) / 2 ^ 16 = 0x2 := by omega
  rw [ofWord_long hn (v := 0x2) (by decide) (by decide) hp]
  show ofFields node.toNat (0x200 * 2 ^ 8 + payload.toNat) = _
  rw [ofFields, hlow]
  refine congrArg (setFormat node.toNat) (BitVec.eq_of_toNat_eq ?_)
  rw [BitVec.toNat_ofNat, BitVec.toNat_setWidth]
  omega

theorem ofWord_getFormat (hp : payload.toNat < 2 ^ 16) :
    ofWord (verbWord 0 node 0xA00 payload) = getFormat node.toNat := by
  have hlow : (0xA00 * 2 ^ 8 + payload.toNat) / 2 ^ 16 = 0xA := by omega
  rw [ofWord_long hn (v := 0xA) (by decide) (by decide) hp]
  show ofFields node.toNat (0xA00 * 2 ^ 8 + payload.toNat) = _
  rw [ofFields, hlow]
  rfl

theorem ofWord_setAmp (hp : payload.toNat < 2 ^ 16) :
    ofWord (verbWord 0 node 0x300 payload) = setAmp node.toNat payload.toNat := by
  have hlow : (0x300 * 2 ^ 8 + payload.toNat) / 2 ^ 16 = 0x3 := by omega
  have hpayload : (0x300 * 2 ^ 8 + payload.toNat) % 2 ^ 16 = payload.toNat := by omega
  rw [ofWord_long hn (v := 0x3) (by decide) (by decide) hp]
  show ofFields node.toNat (0x300 * 2 ^ 8 + payload.toNat) = _
  rw [ofFields, hlow]
  exact congrArg (setAmp node.toNat) hpayload

theorem ofWord_getAmp (hp : payload.toNat < 2 ^ 16) :
    ofWord (verbWord 0 node 0xB00 payload) = getAmp ⟨node.toNat, payload.toNat / 2 ^ 15 % 2 = 1,
      payload.toNat / 2 ^ 13 % 2 = 1, payload.toNat % 2 ^ 4⟩ := by
  have hlow : (0xB00 * 2 ^ 8 + payload.toNat) / 2 ^ 16 = 0xB := by omega
  have h15 : (0xB00 * 2 ^ 8 + payload.toNat) / 2 ^ 15 % 2 = payload.toNat / 2 ^ 15 % 2 := by omega
  have h13 : (0xB00 * 2 ^ 8 + payload.toNat) / 2 ^ 13 % 2 = payload.toNat / 2 ^ 13 % 2 := by omega
  have h4 : (0xB00 * 2 ^ 8 + payload.toNat) % 2 ^ 4 = payload.toNat % 2 ^ 4 := by omega
  rw [ofWord_long hn (v := 0xB) (by decide) (by decide) hp]
  show ofFields node.toNat (0xB00 * 2 ^ 8 + payload.toNat) = _
  rw [ofFields, hlow, h15, h13, h4]
  rfl

/-- A 12-bit verb is none of the 4-bit ones when its highest digit is not. -/
theorem ofWord_twelve {verb : BitVec 32}
    (hv : verb.toNat / 2 ^ 8 = 0x7 ∨ verb.toNat / 2 ^ 8 = 0xF) (hp : payload.toNat < 2 ^ 8) :
    ofWord (verbWord 0 node verb payload) =
      match verb.toNat with
      | 0x706 => setStream node.toNat (payload.setWidth 8)
      | 0x707 => setPin node.toNat (payload.setWidth 8)
      | 0xF06 => getStream node.toNat
      | 0xF07 => getPin node.toNat
      | _ => other := by
  have hpayload : BitVec.ofNat 8 (verb.toNat * 2 ^ 8 + payload.toNat) = payload.setWidth 8 := by
    refine BitVec.eq_of_toNat_eq ?_
    rw [BitVec.toNat_ofNat, BitVec.toNat_setWidth]
    omega
  have hverb : (verb.toNat * 2 ^ 8 + payload.toNat) / 2 ^ 8 = verb.toNat := by omega
  have hhigh : (verb.toNat * 2 ^ 8 + payload.toNat) / 2 ^ 16 = verb.toNat / 2 ^ 8 := by omega
  rw [ofWord_short hn (by omega) hp, ofFields, hhigh, hverb, hpayload]
  rcases hv with hv | hv
  · rw [hv]
    rfl
  · rw [hv]
    rfl

end Words

end CodecVerb

/-! ## 2. The codec -/

/-- What a codec keeps of its nodes; an amplifier's channel has its mute bit and its gain. -/
structure Settings where
  amps : AmpChannel → BitVec 8
  formats : Nat → BitVec 16
  streams : Nat → BitVec 8
  pins : Nat → BitVec 8

namespace Settings

/-- The settings a verb leaves. -/
def carryOut (s : Settings) : CodecVerb → Settings
  | .setFormat node format => { s with formats := Function.update s.formats node format }
  | .setAmp node payload => { s with
      amps := fun ch =>
        if ch.node = node ∧ ch.Chosen payload then BitVec.ofNat 8 payload else s.amps ch }
  | .setStream node stream => { s with streams := Function.update s.streams node stream }
  | .setPin node control => { s with pins := Function.update s.pins node control }
  | .getFormat _ | .getAmp _ | .getStream _ | .getPin _ | .other => s

/-- The setting a verb reads. -/
def read (s : Settings) : CodecVerb → Option (BitVec 32)
  | .getFormat node => some ((s.formats node).setWidth 32)
  | .getAmp ch => some ((s.amps ch).setWidth 32)
  | .getStream node => some ((s.streams node).setWidth 32)
  | .getPin node => some ((s.pins node).setWidth 32)
  | .setFormat .. | .setAmp .. | .setStream .. | .setPin .. | .other => none

def set (s : Settings) (word : BitVec 32) : Settings := s.carryOut (.ofWord word)

/-- The answer to a word: what it reads, and `R` for the others. -/
def answer (R : BitVec 32 → BitVec 32) (s : Settings) (word : BitVec 32) : BitVec 32 :=
  (s.read (.ofWord word)).getD (R word)

/-- A word with bit 19 changes nothing: every set verb is below it. -/
theorem set_get (s : Settings) {word : BitVec 32} (h : word.getLsbD 19 = true) :
    s.set word = s := by
  have hbit : word.toNat / 2 ^ 19 % 2 = 1 := by
    rw [BitVec.getLsbD, Nat.testBit_eq_decide_div_mod_eq] at h
    exact of_decide_eq_true h
  unfold set CodecVerb.ofWord
  dsimp only
  split
  · unfold CodecVerb.ofFields
    split <;> first | omega | rfl | skip
    split <;> first | omega | rfl
  · rfl

end Settings

/-- **The codec**: it answers from its settings and does what set verbs say. -/
def keeper (R : BitVec 32 → BitVec 32) : Prog.Device Verbs Settings := fun o s =>
  match o with
  | .verb codec node verb command =>
    (some (s.answer R (verbWord codec node verb command)), s.set (verbWord codec node verb command))
  | .print fmt va => (printCount fmt va, s)

/-! ## 3. Scan and refresh -/

/-- The table a scan finds on a codec with these settings. -/
def Settings.scan (R : BitVec 32 → BitVec 32) (s : Settings) : List Widget :=
  (collectWidgetInformation []).answer (answeringAll (s.answer R))

section Scan

variable (R : BitVec 32 → BitVec 32) (s s' : Settings)

theorem getLsbD_get {node verb command : BitVec 32} (h : verb.getLsbD 11 = true) :
    (verbWord 0 node verb command).getLsbD 19 = true := by
  rw [verbWord_getLsbD node verb command (by decide)]
  simp [h]

/-- A query is answered from the settings, and changes none. -/
theorem keeper_query {id : BitVec 32} {o : VerbOp} (h : Query id o) :
    keeper R o s = (answeringAll (s.answer R) o, s) := by
  have hnode : ∀ v ∈ [0xF00#32, 0xF01, 0xF02, 0xF1C], v.getLsbD 11 = true := by simp
  rcases h with h | h
  · cases h with
    | verb hv hp => exact Prod.ext rfl (s.set_get (getLsbD_get (hnode _ hv)))
    | print => rfl
  · cases h with
    | capabilities | settings => exact Prod.ext rfl (s.set_get (getLsbD_get (by decide)))

/-- The words of a scan but for the settings of the amplifiers read no setting. -/
theorem answer_fixed {id verb payload : BitVec 32} (hid : id < 64)
    (hv : verb ∈ [0xF00#32, 0xF01, 0xF02, 0xF1C]) (hp : payload < 0x100) :
    s.answer R (verbWord 0 id verb payload) = R (verbWord 0 id verb payload) := by
  have hother : ∀ v ∈ [0xF00#32, 0xF01, 0xF02, 0xF1C],
      CodecVerb.ofWord (verbWord 0 id v payload) = .other := by
    intro v hv
    simp only [List.mem_cons, List.not_mem_nil, or_false] at hv
    rcases hv with rfl | rfl | rfl | rfl <;>
      exact CodecVerb.ofWord_twelve (by bv_omega) (.inr rfl) (by bv_omega)
  rw [Settings.answer, hother verb hv]
  rfl

/-- Codecs with the same amplifiers answer the queries alike. -/
theorem answers_query {id : BitVec 32} (hid : id < 64) (hamps : s.amps = s'.amps) {o : VerbOp}
    (h : Query id o) : answeringAll (s.answer R) o = answeringAll (s'.answer R) o := by
  rcases h with h | h
  · cases h with
    | verb hv hp =>
        exact congrArg some ((answer_fixed R s hid hv hp).trans (answer_fixed R s' hid hv hp).symm)
    | print => rfl
  · cases h with
    | capabilities hp =>
        exact congrArg some ((answer_fixed R s hid (by decide) hp).trans
          (answer_fixed R s' hid (by decide) hp).symm)
    | settings hp =>
        refine congrArg some ?_
        rw [Settings.answer, Settings.answer, CodecVerb.ofWord_getAmp (by bv_omega) hp]
        exact congrArg (fun amps : AmpChannel → BitVec 8 => (amps _).setWidth 32) hamps

/-- What is found depends on the amplifiers only. -/
theorem scan_congr (hamps : s.amps = s'.amps) : s.scan R = s'.scan R := by
  rw [Settings.scan, Settings.scan, collect_empty, collect_empty]
  refine List.map_congr_left fun i hi => congrArg (fun w : Option Widget => w.getD {}) ?_
  have hid : BitVec.ofNat 32 i < 64 := ofNat_lt (List.mem_range.mp hi)
  exact Prog.answer_congr (fun o ho => answers_query R s s' hid hamps (not_not.mp ho))
    (scanNode_asks (BitVec.ofNat 32 i))

theorem wellFormed_scan : TableWellFormed (s.scan R) := tableWellFormed_collect.answer _

theorem exec_scan : (collectWidgetInformation []).exec (keeper R) s = (s.scan R, s) := by
  have hasks : (collectWidgetInformation []).AsksOnly fun o => ∃ id, Query id o := by
    refine Prog.avoids_foldlM (I := fun _ => True) (fun table _ i _ => ⟨?_, fun _ _ => trivial⟩)
      trivial
    exact Prog.avoids_bind ((scanNode_asks _).mono fun _ h => ⟨_, h⟩) fun _ => trivial
  rw [Prog.exec_of_still (fun o ho => congrArg Prod.snd (keeper_query R s ho.choose_spec)) hasks]
  refine Prod.ext (Prog.answer_congr (fun o ho => ?_) hasks) rfl
  exact congrArg Prod.fst (keeper_query R s (not_not.mp ho).choose_spec)

/-- What the second codec answers to the settings queries, and else the first. -/
def mixed (word : BitVec 32) : BitVec 32 :=
  if IsGetAmpWord word then s'.answer R word else s.answer R word

theorem mixed_query {id : BitVec 32} (hid : id < 64) {o : VerbOp} (h : Query id o) :
    answeringAll (mixed R s s') o = answeringAll (s'.answer R) o := by
  have hfixed : ∀ {verb payload : BitVec 32}, verb ∈ [0xF00#32, 0xF01, 0xF02, 0xF1C] →
      payload < 0x100 → mixed R s s' (verbWord 0 id verb payload) =
        s'.answer R (verbWord 0 id verb payload) := by
    intro verb payload hv hp
    rw [mixed]
    split
    · rfl
    · rw [answer_fixed R s hid hv hp, answer_fixed R s' hid hv hp]
  rcases h with h | h
  · cases h with
    | verb hv hp => exact congrArg some (hfixed hv hp)
    | print => rfl
  · cases h with
    | capabilities hp => exact congrArg some (hfixed (by decide) hp)
    | settings hp => exact congrArg some (if_pos (isGetAmpWord_settings hp))

/-- **A refresh on the codec**: a table found when the settings were others is found anew. -/
theorem exec_refresh_scan : (cmdRefresh (s.scan R)).exec (keeper R) s' = (s'.scan R, s') := by
  have hwell := wellFormed_scan R s
  have hasks : (cmdRefresh (s.scan R)).AsksOnly fun o => ∃ id, Query id o :=
    Prog.avoids_mapM fun w _ => (refreshWidget_asks w).mono fun _ ho => ⟨w.m_ID, .inr ho⟩
  have hanswer : (cmdRefresh (s.scan R)).answer (fun o => (keeper R o s').1) =
      (cmdRefresh (s.scan R)).answer (answeringAll (s'.answer R)) :=
    Prog.answer_congr (fun o ho =>
      congrArg Prod.fst (keeper_query R s' (not_not.mp ho).choose_spec)) hasks
  rw [Prog.exec_of_still (fun o ho => congrArg Prod.snd (keeper_query R s' ho.choose_spec)) hasks,
    hanswer, cmdRefresh_answer]
  refine congrArg (·, s') ?_
  -- entry by entry: the first codec, its amplifiers set to those of the second
  rw [Settings.scan, Settings.scan, collect_empty, collect_empty, List.map_map]
  refine List.map_congr_left fun i hi => ?_
  have hid : BitVec.ofNat 32 i < 64 := ofNat_lt (List.mem_range.mp hi)
  have hagree : AgreeButAmps (s.answer R) (mixed R s s') := fun _ hword => (if_neg hword).symm
  have hmixed := refresh_scanned hagree (BitVec.ofNat 32 i)
  have hscanned : scanned (fun word => some (mixed R s s' word)) (BitVec.ofNat 32 i) =
      scanned (fun word => some (s'.answer R word)) (BitVec.ofNat 32 i) :=
    Prog.answer_congr (fun o ho => mixed_query R s s' hid (not_not.mp ho)) (scanNode_asks _)
  have hentry : (scanned (fun word => some (s.answer R word)) (BitVec.ofNat 32 i)).getD {} ∈
      s.scan R := by
    rw [Settings.scan, collect_empty]
    exact List.mem_map.mpr ⟨i, hi, rfl⟩
  rw [hscanned] at hmixed
  rw [← hmixed]
  refine Prog.answer_congr (fun o ho => ?_) (refreshWidget_asks _)
  exact (mixed_query R s s' (hwell.widgets _ hentry).id (.inr (not_not.mp ho))).symm

end Scan

/-! ## 4. The control functions -/

/-- Pin control as `enablePinWidget` leaves it: the low bits as they were, the output enabled, and
    the headphone driver where there is one. -/
def enabledControl (w : Widget) (control : BitVec 8) : BitVec 8 :=
  (control &&& 7) ||| 0x40 ||| (if w.m_headphoneDriver then 0x80 else 0)

/-- The pin control of a pin changed. -/
def onPin (w : Widget) (change : BitVec 8 → BitVec 8) (s : Settings) : Settings :=
  if w.m_type = .PinComplex then
    { s with pins := Function.update s.pins w.m_ID.toNat (change (s.pins w.m_ID.toNat)) }
  else s

/-- The format of a converter set. -/
def onFormat (w : Widget) (format : StreamFormat) (s : Settings) : Settings :=
  if w.m_type = .Output ∨ w.m_type = .Input then
    { s with formats := Function.update s.formats w.m_ID.toNat (format.m_value.setWidth 16) }
  else s

section Fields

variable (w : Widget) (change : BitVec 8 → BitVec 8) (format : StreamFormat) (s : Settings)

@[simp] theorem onPin_amps : (onPin w change s).amps = s.amps := by unfold onPin; split <;> rfl
@[simp] theorem onPin_formats : (onPin w change s).formats = s.formats := by
  unfold onPin; split <;> rfl
@[simp] theorem onPin_streams : (onPin w change s).streams = s.streams := by
  unfold onPin; split <;> rfl

@[simp] theorem onFormat_amps : (onFormat w format s).amps = s.amps := by
  unfold onFormat; split <;> rfl
@[simp] theorem onFormat_streams : (onFormat w format s).streams = s.streams := by
  unfold onFormat; split <;> rfl
@[simp] theorem onFormat_pins : (onFormat w format s).pins = s.pins := by
  unfold onFormat; split <;> rfl

variable {w}

theorem onPin_pins (hpin : w.m_type = .PinComplex) : (onPin w change s).pins w.m_ID.toNat =
    change (s.pins w.m_ID.toNat) := by
  rw [onPin, if_pos hpin]
  exact Function.update_self _ _ s.pins

theorem onFormat_formats (hconverter : w.m_type = .Output ∨ w.m_type = .Input) :
    (onFormat w format s).formats w.m_ID.toNat = format.m_value.setWidth 16 := by
  rw [onFormat, if_pos hconverter]
  exact Function.update_self _ _ s.formats

end Fields

/-- The format read back from a converter. -/
def formatOf (s : Settings) (w : Widget) : Option StreamFormat :=
  if w.m_type = .Output ∨ w.m_type = .Input then
    some ⟨(s.formats w.m_ID.toNat).setWidth 32⟩
  else none

/-- **What a call means** for the settings of the codec. -/
def CodecCall.meaning (table : List Widget) (s : Settings) : CodecCall → Settings
  | refresh | getFormat _ => s
  | enablePin i => table[i]?.elim s fun w => onPin w (enabledControl w) s
  | disablePin i => table[i]?.elim s fun w => onPin w (· &&& 7) s
  | setFormat i format => table[i]?.elim s fun w => onFormat w format s

section Control

variable (R : BitVec 32 → BitVec 32) {w : Widget} (hid : w.m_ID < 64) (s : Settings)

include hid

/-- What the pin-control functions share, on the codec. -/
theorem exec_pinControl (value : BitVec 32 → BitVec 32) (change : BitVec 8 → BitVec 8)
    (hvalue : ∀ control : BitVec 8, value (control.setWidth 32) = (change control).setWidth 32) :
    Prog.exec (keeper R) (do
      match ← Verbs.ask 0 w.m_ID 0xF07 0 with
      | none => pure false
      | some ctrl =>
        let ctrl ← Verbs.ask 0 w.m_ID 0x707 (value ctrl)
        pure ctrl.isSome) s =
      (true, { s with pins :=
        Function.update s.pins w.m_ID.toNat (change (s.pins w.m_ID.toNat)) }) := by
  have hget : CodecVerb.ofWord (verbWord 0 w.m_ID 0xF07 0) = .getPin w.m_ID.toNat :=
    CodecVerb.ofWord_twelve (by bv_omega) (.inr rfl) (by decide)
  have hanswer : s.answer R (verbWord 0 w.m_ID 0xF07 0) =
      (s.pins w.m_ID.toNat).setWidth 32 := by
    rw [Settings.answer, hget]
    rfl
  have hstay : s.set (verbWord 0 w.m_ID 0xF07 0) = s := s.set_get (getLsbD_get (by decide))
  have hset : CodecVerb.ofWord
      (verbWord 0 w.m_ID 0x707 ((change (s.pins w.m_ID.toNat)).setWidth 32))
      = .setPin w.m_ID.toNat (change (s.pins w.m_ID.toNat)) := by
    refine (CodecVerb.ofWord_twelve (by bv_omega) (.inl rfl) (by bv_omega)).trans ?_
    exact congrArg (CodecVerb.setPin w.m_ID.toNat) (by simp)
  show (true, (s.set (verbWord 0 w.m_ID 0xF07 0)).set (verbWord 0 w.m_ID 0x707
    (value (s.answer R (verbWord 0 w.m_ID 0xF07 0))))) = _
  rw [hanswer, hstay, hvalue, Settings.set, hset]
  rfl

theorem exec_enablePinWidget : ((enablePinWidget w).exec (keeper R) s).2 =
    onPin w (enabledControl w) s := by
  unfold enablePinWidget onPin
  by_cases hpin : w.m_type = .PinComplex
  · rw [if_neg (not_not.mpr hpin), if_pos hpin]
    refine congrArg Prod.snd
      (exec_pinControl R hid s (enabledPin w) (enabledControl w) fun control => ?_)
    unfold enabledPin enabledControl
    cases w.m_headphoneDriver
    · revert control
      decide
    · revert control
      decide
  · rw [if_pos hpin, if_neg hpin]
    rfl

theorem exec_disablePinWidget : ((disablePinWidget w).exec (keeper R) s).2 =
    onPin w (· &&& 7) s := by
  unfold disablePinWidget onPin
  by_cases hpin : w.m_type = .PinComplex
  · rw [if_neg (not_not.mpr hpin), if_pos hpin]
    refine congrArg Prod.snd (exec_pinControl R hid s (· &&& 7) (· &&& 7) fun control => ?_)
    revert control
    decide
  · rw [if_pos hpin, if_neg hpin]
    rfl

theorem exec_setIOWidgetFormat (format : StreamFormat) :
    ((setIOWidgetFormat w format).exec (keeper R) s).2 = onFormat w format s := by
  unfold setIOWidgetFormat onFormat
  by_cases hconverter : w.m_type = .Output ∨ w.m_type = .Input
  · rw [if_neg (by tauto), if_pos hconverter]
    have hset : CodecVerb.ofWord (verbWord 0 w.m_ID 0x200 (format.m_value &&& 0xFFFF)) =
        .setFormat w.m_ID.toNat (format.m_value.setWidth 16) := by
      rw [CodecVerb.ofWord_setFormat (by bv_omega) (and_toNat_lt _ (by decide))]
      refine congrArg _ (BitVec.eq_of_toNat_eq ?_)
      rw [BitVec.toNat_setWidth, BitVec.toNat_setWidth, toNat_and_low _ (j := 16) rfl,
        Nat.mod_mod]
    show s.set (verbWord 0 w.m_ID 0x200 (format.m_value &&& 0xFFFF)) = _
    rw [Settings.set, hset]
    rfl
  · rw [if_pos (by tauto), if_neg hconverter]
    rfl

theorem exec_getIOWidgetFormat : (getIOWidgetFormat w).exec (keeper R) s = (formatOf s w, s) := by
  unfold getIOWidgetFormat formatOf
  by_cases hconverter : w.m_type = .Output ∨ w.m_type = .Input
  · rw [if_neg (by tauto), if_pos hconverter]
    have hget : CodecVerb.ofWord (verbWord 0 w.m_ID 0xA00 0) = .getFormat w.m_ID.toNat :=
      CodecVerb.ofWord_getFormat (by bv_omega) (by decide)
    show (some (StreamFormat.mk (s.answer R (verbWord 0 w.m_ID 0xA00 0))),
      s.set (verbWord 0 w.m_ID 0xA00 0)) = _
    rw [Settings.answer, Settings.set, hget]
    rfl
  · rw [if_pos (by tauto), if_neg hconverter]
    rfl

end Control

/-! ## 5. Calls after a scan -/

section Calls

variable (R : BitVec 32 → BitVec 32)

theorem meaning_amps (table : List Widget) (s : Settings) (call : CodecCall) :
    (call.meaning table s).amps = s.amps := by
  cases call with
  | refresh | getFormat => rfl
  | enablePin i | disablePin i | setFormat i format =>
      rw [CodecCall.meaning]
      cases table[i]? with
      | none => rfl
      | some w => simp

/-- A call on an entry does to the codec what it does to that entry's node. -/
theorem exec_onEntry {α : Type} {table : List Widget} (ht : TableWellFormed table) (i : Nat)
    (call : Widget → Prog Verbs α) (meaning : Widget → Settings → Settings) (s : Settings)
    (hcall : ∀ w : Widget, w.m_ID < 64 → ((call w).exec (keeper R) s).2 = meaning w s) :
    (onEntry table i call).exec (keeper R) s =
      (table, table[i]?.elim s fun w => meaning w s) := by
  unfold onEntry
  cases hentry : table[i]? with
  | none => rfl
  | some w =>
      dsimp only
      rw [Prog.exec_bind, hcall w (ht.widgets w (List.mem_of_getElem? hentry)).id]
      rfl

/-- **One call**, on a codec whose amplifiers are as at the scan. -/
theorem exec_call {s₀ s : Settings} (hamps : s.amps = s₀.amps) (call : CodecCall) :
    (call.run (s₀.scan R)).exec (keeper R) s =
      (s₀.scan R, call.meaning (s₀.scan R) s) := by
  have ht := wellFormed_scan R s₀
  cases call with
  | refresh => exact (exec_refresh_scan R s₀ s).trans (congrArg (·, s) (scan_congr R s s₀ hamps))
  | enablePin i =>
      exact exec_onEntry R ht i enablePinWidget (fun w => onPin w (enabledControl w)) s
        fun w hid => exec_enablePinWidget R hid s
  | disablePin i =>
      exact exec_onEntry R ht i disablePinWidget (fun w => onPin w (· &&& 7)) s
        fun w hid => exec_disablePinWidget R hid s
  | getFormat i =>
      refine (exec_onEntry R ht i getIOWidgetFormat (fun _ s => s) s
        fun w hid => congrArg Prod.snd (exec_getIOWidgetFormat R hid s)).trans ?_
      refine congrArg (s₀.scan R, ·) ?_
      cases (s₀.scan R)[i]? <;> rfl
  | setFormat i format =>
      exact exec_onEntry R ht i (fun w => setIOWidgetFormat w format)
        (fun w => onFormat w format) s fun w hid => exec_setIOWidgetFormat R hid s format

theorem exec_calls {s₀ s : Settings} (hamps : s.amps = s₀.amps) (calls : List CodecCall) :
    (calls.foldlM CodecCall.run (s₀.scan R)).exec (keeper R) s =
      (s₀.scan R, calls.foldl (CodecCall.meaning (s₀.scan R)) s) := by
  induction calls generalizing s with
  | nil => rfl
  | cons call calls ih =>
      rw [List.foldlM_cons, Prog.exec_bind, exec_call R hamps call, List.foldl_cons]
      exact ih ((meaning_amps _ s call).trans hamps)

variable {R} {σ : Type} {view : σ → Settings} {d : Prog.Device Verbs σ}

/-- **A scan, and calls after it**, on any machine whose codec keeps its settings: for every
    sequence of refreshes, pin enables and disables and formats got and set, the settings at the
    end are what the calls mean one after the other, the table is the one the scan found, and the
    format read back from an entry is the one the settings then hold. -/
theorem session_settings (hd : Prog.SeenThrough view d (keeper R)) (calls : List CodecCall)
    (s : σ) :
    let table := (view s).scan R
    let settings := calls.foldl (CodecCall.meaning table) (view s)
    let run := (session calls).exec d s
    run.1 = table ∧ view run.2 = settings ∧
      ∀ w ∈ table, ((getIOWidgetFormat w).exec d run.2).1 = formatOf settings w := by
  intro table settings run
  have hrun : (run.1, view run.2) = (table, settings) := by
    rw [hd.exec (session calls) s, session, Prog.exec_bind, exec_scan]
    exact exec_calls R rfl calls
  obtain ⟨htable, hsettings⟩ := Prod.mk.inj hrun
  refine ⟨htable, hsettings, fun w hw => ?_⟩
  have hid : w.m_ID < 64 := ((wellFormed_scan R (view s)).widgets w hw).id
  have hget := congrArg Prod.fst (hd.exec (getIOWidgetFormat w) run.2)
  rw [hsettings, exec_getIOWidgetFormat R hid] at hget
  exact hget

/-- A codec that counts what it is asked: every node a converter, the format of node 2 set, and set
    again after a refresh. -/
theorem session_settings_twice :
    let d : Prog.Device Verbs (Settings × Nat) := fun o s =>
      ((keeper (fun _ => 0x04) o s.1).1, (keeper (fun _ => 0x04) o s.1).2, s.2 + 1)
    let s : Settings := ⟨fun _ => 0, fun _ => 0, fun _ => 0, fun _ => 0⟩
    let calls := [.setFormat 2 ⟨0x11⟩, .refresh, .setFormat 2 ⟨0x4011⟩]
    let table := s.scan fun _ => 0x04
    let settings := calls.foldl (CodecCall.meaning table) s
    let run := (session calls).exec d (s, 0)
    run.1 = table ∧ run.2.1 = settings ∧
      ∀ w ∈ table, ((getIOWidgetFormat w).exec d run.2).1 = formatOf settings w := by
  intro d s calls
  have hd : Prog.SeenThrough Prod.fst d (keeper fun _ => 0x04) := fun _ _ => rfl
  exact session_settings hd calls (s, 0)

end Calls

end TinyOS64
