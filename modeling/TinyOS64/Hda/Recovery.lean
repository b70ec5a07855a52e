/-
  File:      TinyOS64/Hda/Recovery.lean
  Subject:   Refresh rounds that lose answers, and the round after them that does not.

  A round may leave any of its verbs unanswered. Input amplifiers always come back: their number
  is never changed and the next refresh reads them all again. An output amplifier whose
  capabilities query was lost is invalid, and no later refresh asks for it
  (`refresh_recovers_iff`).
-/
import TinyOS64.Hda.Refresh

namespace TinyOS64

open Interaction

/-! ## 1. Rounds -/

/-- A transcript of verbs. -/
abbrev Answers := List (Σ o : VerbOp, o.Ans)

/-- Each verb of the transcript went unanswered or was answered by `R`. -/
def Lossy (R : BitVec 32 → BitVec 32) (tr : Answers) : Prop :=
  ∀ e ∈ tr, Verbs.AnswersBy (fun word v => v = R word) e.1 e.2

/-- No output-amplifier-capabilities query of the transcript went unanswered. -/
def KeepsOutputCaps (tr : Answers) : Prop :=
  ∀ codec node verb command, ⟨.verb codec node verb command, none⟩ ∈ tr →
    ¬ IsOutputCaps (.verb codec node verb command)

/-- **Refresh rounds**, each leaving an arbitrary part of its verbs unanswered. -/
inductive LossyRounds (R : BitVec 32 → BitVec 32) :
    List Widget → List Answers → List Widget → Prop where
  | none {ws : List Widget} : LossyRounds R ws [] ws
  | round {ws ws' ws'' : List Widget} {tr : Answers} {trs : List Answers}
      (h : (cmdRefresh ws).Transcript tr ws') (hl : Lossy R tr)
      (rest : LossyRounds R ws' trs ws'') : LossyRounds R ws (tr :: trs) ws''

section Rounds

variable {R : BitVec 32 → BitVec 32} {w₀ w w' : Widget} {tr tr₁ tr₂ : Answers}

theorem lossy_append : Lossy R (tr₁ ++ tr₂) ↔ Lossy R tr₁ ∧ Lossy R tr₂ := List.forall_mem_append

theorem keepsOutputCaps_append :
    KeepsOutputCaps (tr₁ ++ tr₂) ↔ KeepsOutputCaps tr₁ ∧ KeepsOutputCaps tr₂ := by
  simp only [KeepsOutputCaps, List.mem_append]
  constructor
  · exact fun h => ⟨fun c n v p hm => h c n v p (.inl hm), fun c n v p hm => h c n v p (.inr hm)⟩
  · intro h c n v p hm
    rcases h with ⟨h₁, h₂⟩
    exact hm.elim (h₁ c n v p) (h₂ c n v p)

/-- What every refresh keeps of a widget, answers lost or not, against the collected one. -/
structure Tracks (w₀ w : Widget) : Prop where
  id : w.m_ID = w₀.m_ID
  inputs : w.m_inputAmps.length = w₀.m_inputAmps.length
  valid : w.m_outputAmp.m_valid = true → w₀.m_outputAmp.m_valid = true
  invalid : w₀.m_outputAmp.m_valid = false → w.m_outputAmp = w₀.m_outputAmp

/-- The amplifiers are the same. -/
structure SameAmps (w w' : Widget) : Prop where
  inputAmps : w.m_inputAmps = w'.m_inputAmps
  outputAmp : w.m_outputAmp = w'.m_outputAmp

/-- The output amplifier is as valid as the collected one. -/
def Intact (w₀ w : Widget) : Prop := w.m_outputAmp.m_valid = w₀.m_outputAmp.m_valid

/-- The output amplifier's transcript: its capabilities query first, and no other one. -/
theorem outputAmp_transcript {widgetID : BitVec 32} {amp : Amp}
    (h : (getOutputAmplifierInfo widgetID).Transcript tr amp) :
    ∃ ampCap tr', tr = ⟨.verb 0 widgetID 0xF00 0x12, ampCap⟩ :: tr' ∧
      (∀ e ∈ tr', ¬ IsOutputCaps e.1) ∧ (amp.m_valid = true ↔ ampCap.getD 0 ≠ 0) := by
  unfold getOutputAmplifierInfo readAmp at h
  obtain ⟨_, tr', ampCap, ⟨_, _, rfl, rfl, rfl⟩, h₂, rfl⟩ := Prog.transcript_bind.mp h
  refine ⟨ampCap, tr', rfl, ?_⟩
  dsimp only at h₂
  split at h₂
  · rename_i hcap
    have hvalid := (readAmpSettings_valid _ _ _ _).transcript h₂
    exact ⟨Prog.transcript_avoids (readAmpSettings_avoids (by decide) (by decide) _) h₂,
      fun _ => hcap, fun _ => hvalid⟩
  · rename_i hcap
    obtain ⟨rfl, rfl⟩ := h₂
    exact ⟨fun e he => absurd he List.not_mem_nil, nofun, fun h => absurd h hcap⟩

theorem keepsOutputCaps_of_avoids (h : ∀ e ∈ tr, ¬ IsOutputCaps e.1) : KeepsOutputCaps tr :=
  fun _ _ _ _ hm => h _ hm

/-- The input half of a refresh: as many amplifiers as before. -/
theorem refreshInputAmps_transcript (h : (refreshInputAmps w).Transcript tr w') :
    KeepsOutputCaps tr ∧
      ∃ amps, amps.length = w.m_inputAmps.length ∧ w' = { w with m_inputAmps := amps } := by
  unfold refreshInputAmps at h
  split at h
  · obtain ⟨tr₁, _, amps, h₁, ⟨rfl, rfl⟩, rfl⟩ := Prog.transcript_bind.mp h
    rw [List.append_nil]
    exact ⟨keepsOutputCaps_of_avoids (Prog.transcript_avoids (readInputAmps_avoids _ _) h₁),
      amps, (readInputAmps_length _ _).transcript h₁, rfl⟩
  · obtain ⟨rfl, rfl⟩ := h
    exact ⟨fun _ _ _ _ hm => absurd hm List.not_mem_nil, w'.m_inputAmps, rfl, rfl⟩

/-- The output half of a refresh: a valid amplifier stays valid when its capabilities query is
    not lost. -/
theorem refreshOutputAmp_transcript (h : (refreshOutputAmp w).Transcript tr w')
    (hl : Lossy R tr)
    (hcaps : w.m_outputAmp.m_valid = true → R (verbWord 0 w.m_ID 0xF00 0x12) ≠ 0) :
    ∃ amp, w' = { w with m_outputAmp := amp } ∧
      (w.m_outputAmp.m_valid = false → amp = w.m_outputAmp ∧ KeepsOutputCaps tr) ∧
      (w.m_outputAmp.m_valid = true → (amp.m_valid = true ↔ KeepsOutputCaps tr)) := by
  unfold refreshOutputAmp at h
  split at h
  · rename_i hvalid
    obtain ⟨tr₁, _, amp, h₁, ⟨rfl, rfl⟩, rfl⟩ := Prog.transcript_bind.mp h
    rw [List.append_nil] at hl ⊢
    obtain ⟨ampCap, tr', rfl, hrest, hamp⟩ := outputAmp_transcript h₁
    refine ⟨amp, rfl, fun hf => (Bool.noConfusion (hf.symm.trans hvalid)), fun _ => ?_⟩
    rw [hamp]
    cases ampCap with
    | none =>
        refine ⟨fun hne => absurd rfl hne, fun hk => ?_⟩
        exact absurd (isOutputCaps_iff.mpr (by decide)) (hk _ _ _ _ List.mem_cons_self)
    | some v =>
        have hv : v = R (verbWord 0 w.m_ID 0xF00 0x12) := hl _ List.mem_cons_self v rfl
        refine ⟨fun _ _ _ _ _ hm => ?_, fun _ => ?_⟩
        · rcases List.mem_cons.mp hm with e | hm
          · exact absurd e (by simp)
          · exact hrest _ hm
        · rw [Option.getD_some, hv]
          exact hcaps hvalid
  · rename_i hinvalid
    obtain ⟨rfl, rfl⟩ := h
    exact ⟨w'.m_outputAmp, rfl, fun _ => ⟨rfl, fun _ _ _ _ hm => absurd hm List.not_mem_nil⟩,
      fun hv => absurd hv hinvalid⟩

/-- A collected output amplifier that is valid has capabilities. -/
theorem caps_of_fixed (hfix : (refreshWidget w₀).answer (answeringAll R) = w₀)
    (hvalid : w₀.m_outputAmp.m_valid = true) : R (verbWord 0 w₀.m_ID 0xF00 0x12) ≠ 0 := by
  intro hzero
  have h := readAmp_answer (fun word => some (R word)) w₀.m_ID 0x12 (1 <<< 15)
    ((1 <<< 15) ||| (1 <<< 13))
  rw [Option.getD_some, hzero, if_neg (not_not.mpr rfl)] at h
  rw [refreshWidget_answer] at hfix
  have hout := congrArg Widget.m_outputAmp hfix
  dsimp only at hout
  rw [if_pos hvalid] at hout
  have e : w₀.m_outputAmp = {} := hout.symm.trans h
  rw [e] at hvalid
  cases hvalid

/-- **One widget, one refresh**: it stays intact exactly when it was and no capabilities query of
    its output amplifier is lost. -/
theorem refreshWidget_transcript (hfix : (refreshWidget w₀).answer (answeringAll R) = w₀)
    (ht : Tracks w₀ w) (h : (refreshWidget w).Transcript tr w') (hl : Lossy R tr) :
    Tracks w₀ w' ∧ (Intact w₀ w' ↔ Intact w₀ w ∧ KeepsOutputCaps tr) := by
  obtain ⟨tr₁, tr₂, w₁, h₁, h₂, rfl⟩ := Prog.transcript_bind.mp h
  obtain ⟨hk₁, amps, hlen, rfl⟩ := refreshInputAmps_transcript h₁
  have hcaps : w.m_outputAmp.m_valid = true → R (verbWord 0 w.m_ID 0xF00 0x12) ≠ 0 := fun hv => by
    rw [ht.id]
    exact caps_of_fixed hfix (ht.valid hv)
  obtain ⟨amp, rfl, hinvalid, hvalid⟩ :=
    refreshOutputAmp_transcript h₂ (lossy_append.mp hl).2 hcaps
  rw [keepsOutputCaps_append]
  dsimp only at hinvalid hvalid
  cases hv : w.m_outputAmp.m_valid with
  | false =>
      obtain ⟨rfl, hk₂⟩ := hinvalid hv
      exact ⟨⟨ht.id, hlen.trans ht.inputs, ht.valid, ht.invalid⟩,
        fun hi => ⟨hi, hk₁, hk₂⟩, fun hi => hi.1⟩
  | true =>
      have h₀ : w₀.m_outputAmp.m_valid = true := ht.valid hv
      have hk := hvalid hv
      refine ⟨⟨ht.id, hlen.trans ht.inputs, fun _ => h₀, fun hf => ?_⟩, fun hi => ?_, fun hi => ?_⟩
      · exact Bool.noConfusion (hf.symm.trans h₀)
      · exact ⟨hv.trans h₀.symm, hk₁, hk.mp (hi.trans h₀)⟩
      · exact (hk.mpr hi.2.2).trans h₀.symm

/-- **One widget refreshed with every verb answered**: the collected amplifiers, if and only if it
    was intact. -/
theorem refreshWidget_recovers (hfix : (refreshWidget w₀).answer (answeringAll R) = w₀)
    (ht : Tracks w₀ w) : SameAmps ((refreshWidget w).answer (answeringAll R)) w₀ ↔ Intact w₀ w := by
  have hin := congrArg Widget.m_inputAmps hfix
  have hout := congrArg Widget.m_outputAmp hfix
  rw [refreshWidget_answer] at hin hout ⊢
  rw [ht.id, ht.inputs]
  refine ⟨fun h => ?_, fun hi => ?_⟩
  · rcases h with ⟨_, ho⟩
    dsimp only at ho
    cases hv : w.m_outputAmp.m_valid with
    | true => exact hv.trans (ht.valid hv).symm
    | false =>
        rw [hv, if_neg (by decide)] at ho
        exact congrArg Amp.m_valid ho
  · refine ⟨hin, ?_⟩
    rw [show w.m_outputAmp.m_valid = w₀.m_outputAmp.m_valid from hi]
    cases hv : w₀.m_outputAmp.m_valid with
    | true =>
        rw [hv] at hout
        exact hout
    | false => exact ht.invalid hv

/-! ## 2. Tables -/

/-- **All widgets, one refresh.** -/
theorem cmdRefresh_transcript {ws₀ ws ws' : List Widget}
    (hfix : ∀ w₀ ∈ ws₀, (refreshWidget w₀).answer (answeringAll R) = w₀)
    (ht : List.Forall₂ Tracks ws₀ ws) (h : (cmdRefresh ws).Transcript tr ws') (hl : Lossy R tr) :
    List.Forall₂ Tracks ws₀ ws' ∧
      (List.Forall₂ Intact ws₀ ws' ↔ List.Forall₂ Intact ws₀ ws ∧ KeepsOutputCaps tr) := by
  induction ht generalizing tr ws' with
  | nil =>
      obtain ⟨rfl, rfl⟩ := h
      exact ⟨.nil, fun _ => ⟨.nil, fun _ _ _ _ hm => absurd hm List.not_mem_nil⟩, fun _ => .nil⟩
  | @cons w₀ w ws₀ ws hw _ ih =>
      rw [cmdRefresh, List.mapM_cons] at h
      obtain ⟨tr₁, _, w', h₁, h', rfl⟩ := Prog.transcript_bind.mp h
      obtain ⟨tr₂, _, ws', h₂, ⟨rfl, rfl⟩, rfl⟩ := Prog.transcript_bind.mp h'
      rw [List.append_nil] at hl ⊢
      obtain ⟨hl₁, hl₂⟩ := lossy_append.mp hl
      obtain ⟨hw', hi⟩ := refreshWidget_transcript (hfix w₀ List.mem_cons_self) hw h₁ hl₁
      obtain ⟨hws', his⟩ := ih (fun w hm => hfix w (List.mem_cons_of_mem _ hm)) h₂ hl₂
      refine ⟨.cons hw' hws', ?_⟩
      rw [List.forall₂_cons, List.forall₂_cons, hi, his, keepsOutputCaps_append]
      tauto

/-- **Any number of lossy rounds**: the table stays intact exactly when no round loses a
    capabilities query of an output amplifier. -/
theorem lossyRounds_intact {ws₀ ws ws' : List Widget} {trs : List Answers}
    (hfix : ∀ w₀ ∈ ws₀, (refreshWidget w₀).answer (answeringAll R) = w₀)
    (h : LossyRounds R ws trs ws') (ht : List.Forall₂ Tracks ws₀ ws) :
    List.Forall₂ Tracks ws₀ ws' ∧ (List.Forall₂ Intact ws₀ ws' ↔
      List.Forall₂ Intact ws₀ ws ∧ ∀ tr ∈ trs, KeepsOutputCaps tr) := by
  induction h with
  | none => exact ⟨ht, fun hi => ⟨hi, fun _ hm => absurd hm List.not_mem_nil⟩, fun hi => hi.1⟩
  | round h hl _ ih =>
      obtain ⟨ht₁, hi₁⟩ := cmdRefresh_transcript hfix ht h hl
      obtain ⟨ht₂, hi₂⟩ := ih ht₁
      refine ⟨ht₂, ?_⟩
      rw [hi₂, hi₁, List.forall_mem_cons]
      tauto

/-- **All widgets, with every verb answered.** -/
theorem cmdRefresh_recovers {ws₀ ws : List Widget}
    (hfix : ∀ w₀ ∈ ws₀, (refreshWidget w₀).answer (answeringAll R) = w₀)
    (ht : List.Forall₂ Tracks ws₀ ws) :
    List.Forall₂ SameAmps ((cmdRefresh ws).answer (answeringAll R)) ws₀ ↔
      List.Forall₂ Intact ws₀ ws := by
  rw [cmdRefresh_answer]
  induction ht with
  | nil => exact ⟨fun _ => .nil, fun _ => .nil⟩
  | @cons w₀ w ws₀ ws hw _ ih =>
      rw [List.map_cons, List.forall₂_cons, List.forall₂_cons,
        refreshWidget_recovers (hfix w₀ List.mem_cons_self) hw,
        ih fun w hm => hfix w (List.mem_cons_of_mem _ hm)]

end Rounds

/-- The table collected when every verb is answered by `R`. -/
def collected (R : BitVec 32 → BitVec 32) : List Widget :=
  (collectWidgetInformation []).answer (answeringAll R)

theorem collected_fixed (R : BitVec 32 → BitVec 32) :
    ∀ w ∈ collected R, (refreshWidget w).answer (answeringAll R) = w := by
  intro w hw
  rw [collected, collect_empty] at hw
  obtain ⟨i, _, rfl⟩ := List.mem_map.mp hw
  exact refresh_scanned (fun _ _ => rfl) _

/-- **A refresh with every verb answered brings the collected amplifiers back exactly when no
    earlier round lost a capabilities query of an output amplifier.** -/
theorem refresh_recovers_iff (R : BitVec 32 → BitVec 32) (trs : List Answers) (ws : List Widget)
    (h : LossyRounds R (collected R) trs ws) :
    List.Forall₂ SameAmps ((cmdRefresh ws).answer (answeringAll R)) (collected R) ↔
      ∀ tr ∈ trs, KeepsOutputCaps tr := by
  have hfix := collected_fixed R
  have hself : ∀ ws : List Widget, List.Forall₂ Tracks ws ws ∧ List.Forall₂ Intact ws ws :=
    fun ws => ⟨List.forall₂_same.mpr fun _ _ => ⟨rfl, rfl, id, fun _ => rfl⟩,
      List.forall₂_same.mpr fun _ _ => rfl⟩
  obtain ⟨ht, hi⟩ := lossyRounds_intact hfix h (hself _).1
  rw [cmdRefresh_recovers hfix ht, hi]
  exact ⟨fun h => h.2, fun h => ⟨(hself _).2, h⟩⟩

/-- A round in which the codec answers by `R'`: where that says nothing the verb is lost. -/
theorem lossyRound_answering (R : BitVec 32 → BitVec 32) (R' : BitVec 32 → Option (BitVec 32))
    (h : ∀ word v, R' word = some v → v = R word) (ws : List Widget) :
    ∃ tr, LossyRounds R ws [tr] ((cmdRefresh ws).answer (answering R')) := by
  have hok : ∀ o, Verbs.AnswersBy (fun word v => v = R word) o (answering R' o) := by
    intro o
    cases o with
    | verb codec node verb command => exact h _
    | print => trivial
  obtain ⟨tr, htr, hl⟩ :=
    Prog.outcome_iff_transcript.mp (Prog.outcome_of_answer hok (cmdRefresh ws))
  exact ⟨tr, .round htr hl .none⟩

theorem sameAmps_valid {ws ws' : List Widget} (h : List.Forall₂ SameAmps ws ws') :
    ws.map (·.m_outputAmp.m_valid) = ws'.map (·.m_outputAmp.m_valid) := by
  induction h with
  | nil => rfl
  | cons hw _ ih => rw [List.map_cons, List.map_cons, hw.outputAmp, ih]

/-- Every node a converter with an output amplifier; one round loses all settings queries. -/
theorem refresh_recovers_iff_settings_lost : ∃ tr ws,
    LossyRounds (fun _ => 0x04) (collected fun _ => 0x04) [tr] ws ∧
      (List.Forall₂ SameAmps ((cmdRefresh ws).answer (answeringAll fun _ => 0x04))
        (collected fun _ => 0x04) ↔ ∀ tr' ∈ [tr], KeepsOutputCaps tr') := by
  obtain ⟨tr, h⟩ := lossyRound_answering (fun _ => 0x04)
    (fun word => if IsGetAmpWord word then none else some 0x04)
    (fun word v hv => by
      split at hv
      · cases hv
      · exact (Option.some.inj hv).symm) (collected fun _ => 0x04)
  exact ⟨tr, _, h, refresh_recovers_iff _ _ _ h⟩

/-- One round without any answer, and the output amplifiers do not come back. -/
theorem refresh_loses_output_amp : ∃ tr ws,
    LossyRounds (fun _ => 0x04) (collected fun _ => 0x04) [tr] ws ∧
      ¬ List.Forall₂ SameAmps ((cmdRefresh ws).answer (answeringAll fun _ => 0x04))
        (collected fun _ => 0x04) := by
  obtain ⟨tr, h⟩ := lossyRound_answering (fun _ => 0x04) (fun _ => none)
    (fun _ _ hv => nomatch hv) (collected fun _ => 0x04)
  refine ⟨tr, _, h, fun hsame => ?_⟩
  have hlost : ((cmdRefresh ((cmdRefresh (collected fun _ => 0x04)).answer
      (answering fun _ => none))).answer (answeringAll fun _ => 0x04)).map
        (·.m_outputAmp.m_valid) ≠ (collected fun _ => 0x04).map (·.m_outputAmp.m_valid) := by
    decide +kernel
  exact hlost (sameAmps_valid hsame)

end TinyOS64
