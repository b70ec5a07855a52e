/-
  File:      TinyOS64/Console/Session.lean
  Subject:   Whole sessions at the console: line after line, on the codec as each leaves it.

  * `runLines_keeps` -- no session changes more of the codec than the amplifiers of its widgets, and
    only its `refresh` lines do; a well-formed table stays well-formed;
  * `readOnly_still` -- which sessions cannot change the machine;
  * `refresh_catchesUp` -- whatever a session has done, `refresh` ends it with the table a rescan of
    the machine would find.
-/
import TinyOS64.Console.Confinement
import TinyOS64.Console.RegisterCommands
import TinyOS64.Hda.Table

namespace TinyOS64

open Interaction

/-- Lines executed one after the other. What `execute` returns decides a message only. -/
def runLines (polls : Nat) : List (List Byte) → HDACodec → ConsoleM HDACodec
  | [], codec => pure codec
  | line :: lines, codec => do
    let (_, codec) ← execute polls (lineMemory line) codec ⟨some 0, line.length⟩
    runLines polls lines codec

theorem runLines_append (polls : Nat) (lines lines' : List (List Byte)) (codec : HDACodec) :
    runLines polls (lines ++ lines') codec =
      (runLines polls lines codec >>= fun codec => runLines polls lines' codec) := by
  induction lines generalizing codec with
  | nil => exact (pure_bind _ _).symm
  | cons line lines ih =>
      rw [List.cons_append, runLines, runLines, bind_assoc]
      exact congrArg _ (funext fun r => ih r.2)

/-! ## 1. What a session keeps -/

/-- The codecs differ in the amplifiers of their widgets at most. -/
structure HDACodec.SameButAmps (codec codec' : HDACodec) : Prop where
  widgets : List.Forall₂ OnlyAmps codec.m_widgets codec'.m_widgets
  members : codec' = { codec with m_widgets := codec'.m_widgets }

theorem OnlyAmps.refl (w : Widget) : OnlyAmps w w := ⟨w.m_inputAmps, w.m_outputAmp, rfl⟩

theorem OnlyAmps.trans {w w' w'' : Widget} (h : OnlyAmps w w') (h' : OnlyAmps w' w'') :
    OnlyAmps w w'' := by
  obtain ⟨inputs, output, rfl⟩ := h
  obtain ⟨inputs', output', rfl⟩ := h'
  exact ⟨inputs', output', rfl⟩

theorem forall₂_onlyAmps_trans {ws ws' ws'' : List Widget} (h : List.Forall₂ OnlyAmps ws ws')
    (h' : List.Forall₂ OnlyAmps ws' ws'') : List.Forall₂ OnlyAmps ws ws'' := by
  induction h generalizing ws'' with
  | nil => exact h'
  | cons hw _ ih =>
      cases h' with
      | cons hw' htail => exact .cons (hw.trans hw') (ih htail)

namespace HDACodec.SameButAmps

theorem refl (codec : HDACodec) : codec.SameButAmps codec :=
  ⟨List.forall₂_same.mpr fun w _ => .refl w, rfl⟩

theorem trans {codec codec' codec'' : HDACodec} (h : codec.SameButAmps codec')
    (h' : codec'.SameButAmps codec'') : codec.SameButAmps codec'' := by
  refine ⟨?_, ?_⟩
  · exact forall₂_onlyAmps_trans h.widgets h'.widgets
  · rw [h'.members, h.members]

end HDACodec.SameButAmps

theorem refreshWidget_onlyAmps (w : Widget) : (refreshWidget w).Always (OnlyAmps w) := by
  have hin : (refreshInputAmps w).Always (OnlyAmps w) := by
    unfold refreshInputAmps
    split
    · exact Prog.always_bind.mpr fun amps _ => Prog.always_ret.mpr ⟨amps, w.m_outputAmp, rfl⟩
    · exact Prog.always_ret.mpr (.refl w)
  refine hin.bind fun w' hw' => ?_
  unfold refreshOutputAmp
  split
  · exact Prog.always_bind.mpr fun amp _ =>
      Prog.always_ret.mpr (hw'.trans ⟨w'.m_inputAmps, amp, rfl⟩)
  · exact Prog.always_ret.mpr hw'

/-- A refresh round leaves everything but the amplifiers. -/
theorem cmdRefresh_onlyAmps {m_widgets table : List Widget}
    (h : (cmdRefresh m_widgets).Outcome (fun _ _ => True) table) :
    List.Forall₂ OnlyAmps m_widgets table :=
  (Prog.outcome_mapM.mp h).imp fun w _ hw => refreshWidget_onlyAmps w _ hw

/-- What a line may make of the codec: leave it, or put the outcome of a refresh in its table. -/
def AfterLine (codec codec' : HDACodec) : Prop :=
  codec' = codec ∨ ∃ table, (cmdRefresh codec.m_widgets).Outcome (fun _ _ => True) table ∧
    codec' = { codec with m_widgets := table }

section Handlers

variable (mem : List Byte) (codec : HDACodec) (params : View)

/-- **Every handler but that of `refresh` returns the codec it was given**, on each of its paths. -/
theorem m_func_codec (polls : Nat) {c : Command} (hc : c ≠ .refresh) :
    Yields (fun r => r.2 = codec) (c.m_func polls mem codec params) := by
  cases c with
  | refresh => exact absurd rfl hc
  | read | unmute | nodeio | playpos | showtext | help =>
      -- one path, with its codec at the end
      repeat refine yields_then fun _ => ?_
      exact yields_pure.mpr rfl
  | write | node | getformat | showvideo | settextmode | rdmem =>
      -- a path for each way the parameters and the answers turn out
      repeat' first
        | exact yields_pure.mpr rfl
        | refine yields_then fun _ => ?_
        | split

theorem refresh_codec : Yields (fun r => AfterLine codec r.2)
    (cmdRefreshCodec mem codec params) := by
  refine yields_bind (yields_liftM (Prog.always_lower (cmdRefresh codec.m_widgets))) ?_
  exact fun table h => yields_pure.mpr (.inr ⟨table, h, rfl⟩)

end Handlers

/-- A line of another command leaves the codec as it is. -/
theorem execute_unchanged (polls : Nat) (codec : HDACodec) {line : List Byte}
    (hline : commandOf line ≠ some .refresh) : Yields (fun r => r.2 = codec)
      (execute polls (lineMemory line) codec ⟨some 0, line.length⟩) := by
  rw [execute_eq]
  cases hc : commandOf line with
  | none => exact yields_pure.mpr rfl
  | some c =>
      have hother : c ≠ .refresh := fun h => hline (hc.trans (congrArg some h))
      exact m_func_codec _ _ _ polls hother

/-- **One line.** -/
theorem execute_codec (polls : Nat) (codec : HDACodec) (line : List Byte) :
    Yields (fun r => AfterLine codec r.2)
      (execute polls (lineMemory line) codec ⟨some 0, line.length⟩) := by
  by_cases hline : commandOf line = some .refresh
  · rw [execute_eq, hline]
    exact refresh_codec (lineMemory line) codec (.tail line (line.dropWhile isAlpha))
  · exact (execute_unchanged polls codec hline).mono fun _ h => .inl h

theorem AfterLine.sameButAmps {codec codec' : HDACodec} (h : AfterLine codec codec') :
    codec.SameButAmps codec' := by
  rcases h with rfl | ⟨table, htable, rfl⟩
  · exact .refl codec'
  · exact ⟨cmdRefresh_onlyAmps htable, rfl⟩

theorem AfterLine.wellFormed {codec codec' : HDACodec} (h : AfterLine codec codec')
    (hw : TableWellFormed codec.m_widgets) : TableWellFormed codec'.m_widgets := by
  rcases h with rfl | ⟨table, htable, rfl⟩
  · exact hw
  · exact tableWellFormed_cmdRefresh hw _ htable

/-- **A session is a chain of lines.** -/
theorem runLines_chain (polls : Nat) (lines : List (List Byte)) (codec : HDACodec) :
    Yields (Relation.ReflTransGen AfterLine codec) (runLines polls lines codec) := by
  induction lines generalizing codec with
  | nil => exact yields_pure.mpr .refl
  | cons line lines ih =>
      refine yields_bind (execute_codec polls codec line) fun r hr => ?_
      exact (ih r.2).mono fun codec' hcodec' => .head hr hcodec'

theorem sameButAmps_of_lines {codec codec' : HDACodec}
    (h : Relation.ReflTransGen AfterLine codec codec') : codec.SameButAmps codec' := by
  induction h with
  | refl => exact .refl codec
  | tail _ hline ih => exact ih.trans hline.sameButAmps

/-- **What every line of a session asks**, on any codec it can meet, the session asks. -/
theorem runLines_confined {Q : ConsoleOp → Prop} (polls : Nat) {lines : List (List Byte)}
    {codec : HDACodec} (h : ∀ line ∈ lines, ∀ codec', codec.SameButAmps codec' →
      Confined Q (execute polls (lineMemory line) codec' ⟨some 0, line.length⟩)) :
    Confined Q (runLines polls lines codec) := by
  induction lines generalizing codec with
  | nil => exact confined_pure _
  | cons line lines ih =>
      refine confined_bind_yields (h line List.mem_cons_self codec (.refl codec))
        (execute_codec polls codec line) fun r hr => ?_
      exact ih fun line' hline' codec' hcodec' =>
        h line' (List.mem_cons_of_mem _ hline') codec' (hr.sameButAmps.trans hcodec')

/-- **Only `refresh` counts**: what a session makes of the codec, its refresh lines alone could
    have made of it. -/
theorem runLines_refreshes (polls : Nat) (lines : List (List Byte)) (codec : HDACodec) :
    Yields (fun codec' => (runLines polls (lines.filter (commandOf · = some .refresh))
        codec).run.Outcome (fun _ _ => True) (.ok codec')) (runLines polls lines codec) := by
  induction lines generalizing codec with
  | nil => exact yields_pure.mpr rfl
  | cons line lines ih =>
      by_cases hline : commandOf line = some .refresh
      · rw [List.filter_cons, if_pos (decide_eq_true hline), runLines]
        refine yields_bind (yields_outcome _) fun r hr => ?_
        exact (ih r.2).mono fun codec' hcodec' => outcome_run_bind hr hcodec'
      · rw [List.filter_cons, if_neg fun h => hline (of_decide_eq_true h), runLines]
        refine yields_bind (execute_unchanged polls codec hline) fun r hr => ?_
        rw [← hr]
        exact ih r.2

/-- **A session changes nothing of the codec but the amplifiers of its widgets, leaves the table
    well-formed, and only its `refresh` lines have a part in it**: for every sequence of lines,
    whatever the machine answers. -/
theorem runLines_keeps (polls : Nat) (lines : List (List Byte)) (codec : HDACodec)
    (h : TableWellFormed codec.m_widgets) :
    Yields (fun codec' => codec.SameButAmps codec' ∧ TableWellFormed codec'.m_widgets ∧
        (runLines polls (lines.filter (commandOf · = some .refresh)) codec).run.Outcome
          (fun _ _ => True) (.ok codec'))
      (runLines polls lines codec) := by
  have hkeeps := (runLines_chain polls lines codec).mono fun codec' hcodec' =>
    show codec.SameButAmps codec' ∧ TableWellFormed codec'.m_widgets from by
      refine ⟨sameButAmps_of_lines hcodec', ?_⟩
      induction hcodec' with
      | refl => exact h
      | tail _ hline ih => exact hline.wellFormed ih
  intro r hr codec' hcodec'
  obtain ⟨hsame, hwell⟩ := hkeeps r hr codec' hcodec'
  exact ⟨hsame, hwell, runLines_refreshes polls lines codec r hr codec' hcodec'⟩

/-- Every amplifier is muted at the scan and no longer when the session refreshes: the table is
    another, and the two other lines have no part in it. -/
theorem runLines_keeps_unmuted :
    let atScan := fun word => if IsGetAmpWord word then 0x80#32 else 0x04
    let codec : HDACodec :=
      ⟨(collectWidgetInformation []).answer (answeringAll atScan), 0, 0, 0, 0, 0⟩
    let lines := [bytes "nodeio 3 $300 $b004", bytes "refresh", bytes "mute 3"]
    let now : (o : ConsoleOp) → o.Ans := fun o =>
      match o with
      | .verb _ => some 0x04
      | o => Console.silent o
    Yields (fun codec' => codec.SameButAmps codec' ∧ TableWellFormed codec'.m_widgets ∧
        (runLines 0 (lines.filter (commandOf · = some .refresh)) codec).run.Outcome
          (fun _ _ => True) (.ok codec'))
      (runLines 0 lines codec) ∧
    codec.m_widgets[3]?.map (·.m_outputAmp.m_muted) = some (true, true) ∧
    ((runLines 0 lines codec).run.answer now).map
      (fun codec' => codec'.m_widgets[3]?.map (·.m_outputAmp.m_muted)) =
        .ok (some (false, false)) := by
  intro atScan codec lines now
  refine ⟨runLines_keeps 0 lines codec ?_, ?_, ?_⟩
  · exact tableWellFormed_collect.answer (answeringAll atScan)
  · decide +kernel
  · decide +kernel

/-! ## 2. Commands that leave the machine as it is -/

/-- A verb that asks: bit 19 of its word is set in every get verb and in no set verb. -/
def IsGet (word : BitVec 32) : Prop := word.getLsbD 19 = true

instance : DecidablePred IsGet := fun _ => inferInstanceAs (Decidable (_ = true))

/-- A question that can change the machine, the screen apart. -/
def ConsoleOp.Changes : ConsoleOp → Prop
  | register (.write8 ..) | register (.write16 ..) | register (.write32 ..) => True
  | register (.store32 ..) => True
  | verb word => ¬ IsGet word
  | setMode _ => True
  | _ => False

/-- The commands that cannot change the machine. -/
def Command.ReadsOnly (c : Command) : Prop :=
  c ∉ [Command.write, .unmute, .nodeio, .settextmode]

instance : DecidablePred Command.ReadsOnly := fun c =>
  inferInstanceAs (Decidable (c ∉ [Command.write, .unmute, .nodeio, .settextmode]))

theorem isGet_verbWord {node verb command : BitVec 32} (h : verb.getLsbD 11 = true) :
    IsGet (verbWord 0 node verb command) := by
  unfold IsGet
  rw [verbWord_getLsbD node verb command (by decide)]
  simp [h]

theorem AmpQuery.isGet {id verb payload : BitVec 32}
    (h : AmpQuery id (.verb 0 id verb payload)) : IsGet (verbWord 0 id verb payload) := by
  cases h with
  | capabilities | settings => exact isGet_verbWord (by decide)

/-- A print that fits is a print. -/
theorem printFits_still {o : ConsoleOp} (h : PrintFits o) : ¬ o.Changes := by
  cases o with
  | register o =>
      cases o with
      | print => exact id
      | _ => exact h.elim
  | _ => exact h.elim

/-- What these commands may ask changes nothing. -/
theorem may_still {codec : HDACodec} {rest : List Byte} {c : Command} (hc : c.ReadsOnly)
    {o : ConsoleOp} (ho : May codec rest c o) : ¬ o.Changes := by
  cases ho with
  | shows h => exact printFits_still h
  | readRegister h =>
      rename_i o
      cases o with
      | read8 | read16 | read32 => exact id
      | _ => exact h.elim
  | refreshAmp hw h => exact not_not.mpr h.isGet
  | converterFormat hw => exact not_not.mpr (isGet_verbWord (by decide))
  | writeRegister | writeReply | setAmp | anyVerb | setMode => exact absurd (by decide) hc
  | _ => exact id

section CatchUp

variable {σ : Type} (d : Prog.Device Console σ)

/-- What the codec answers to a verb where the machine stands. -/
def verbAnswers (s : σ) (word : BitVec 32) : Option (BitVec 32) := (d (.verb word) s).1

/-- The table a full scan finds where the machine stands. -/
def rescanned (s : σ) : List Widget :=
  (collectWidgetInformation []).answer (answering (verbAnswers d s))

/-- **The amplifiers can be asked**: a get verb leaves the machine as it is; a query of settings is
    answered, with whatever they are then; one of capabilities always as `R` says. -/
structure AnswersAmps (R : BitVec 32 → BitVec 32) : Prop where
  still : ∀ word s, IsGet word → (d (.verb word) s).2 = s
  settings : ∀ word s, IsGetAmpWord word → (verbAnswers d s word).isSome = true
  capabilities : ∀ node parameter s, parameter < 0x100#32 →
    verbAnswers d s (verbWord 0 node 0xF00 parameter) = some (R (verbWord 0 node 0xF00 parameter))

/-- What `R` says, with the settings of the amplifiers as they are now. -/
def settingsNow (R : BitVec 32 → BitVec 32) (s : σ) (word : BitVec 32) : BitVec 32 :=
  if IsGetAmpWord word then (verbAnswers d s word).getD 0 else R word

/-- The table a scan finds when the verbs are answered so. -/
def found (R : BitVec 32 → BitVec 32) : List Widget :=
  (collectWidgetInformation []).answer (answeringAll R)

/-- The console's verbs on the machine. -/
def verbDevice : Prog.Device Verbs σ := fun o s =>
  match o with
  | .verb codec node verb command => d (.verb (verbWord codec node verb command)) s
  | .print fmt va => d (.register (.print fmt va)) s

variable {d} {R R' : BitVec 32 → BitVec 32}

/-- An amplifier query is answered as `settingsNow` says, and nothing moves. -/
theorem AnswersAmps.query (hd : AnswersAmps d R) {id : BitVec 32} {o : VerbOp}
    (h : AmpQuery id o) (s : σ) :
    verbDevice d o s = (answeringAll (settingsNow d R s) o, s) := by
  cases h with
  | @capabilities parameter hp =>
      refine Prod.ext ?_ (hd.still _ s (isGet_verbWord (by decide)))
      have hword : ¬ IsGetAmpWord (verbWord 0 id 0xF00 parameter) := not_isGetAmpWord (by decide)
      show verbAnswers d s _ = some (settingsNow d R s _)
      rw [hd.capabilities _ _ s hp, settingsNow, if_neg hword]
  | settings hp =>
      refine Prod.ext ?_ (hd.still _ s (isGet_verbWord (by decide)))
      have hword : IsGetAmpWord (verbWord 0 id 0xB00 _) := isGetAmpWord_settings hp
      show verbAnswers d s _ = some (settingsNow d R s _)
      obtain ⟨r, hr⟩ := Option.isSome_iff_exists.mp (hd.settings _ s hword)
      rw [settingsNow, if_pos hword, hr]
      rfl

/-- **One refresh round**: a table found when the settings were others is found anew. -/
theorem AnswersAmps.exec_cmdRefresh (hd : AnswersAmps d R) (h : AgreeButAmps R R') (s : σ) :
    (cmdRefresh (found R')).exec (verbDevice d) s = (found (settingsNow d R s), s) := by
  have hagree : AgreeButAmps R' (settingsNow d R s) := fun word hword =>
    (h word hword).symm.trans (if_neg hword).symm
  have hasks : (cmdRefresh (found R')).AsksOnly fun o => ∃ id, AmpQuery id o :=
    Prog.avoids_mapM fun w _ => (refreshWidget_asks w).mono fun _ ho => ⟨w.m_ID, ho⟩
  have hstill := Prog.exec_of_still (d := verbDevice d) (s := s)
    (fun o ho => congrArg Prod.snd (hd.query ho.choose_spec s)) hasks
  have hanswer : (cmdRefresh (found R')).answer (fun o => (verbDevice d o s).1) =
      (cmdRefresh (found R')).answer (answeringAll (settingsNow d R s)) :=
    Prog.answer_congr (fun o ho => by
      have ho := not_not.mp ho
      exact congrArg Prod.fst (hd.query ho.choose_spec s)) hasks
  rw [hstill, hanswer, cmdRefresh_answer, found, found, collect_empty, collect_empty, List.map_map]
  refine Prod.ext ?_ rfl
  exact List.map_congr_left fun i _ => refresh_scanned hagree (BitVec.ofNat 32 i)

/-- The table was found when the verbs were answered as `R` says, but for settings. -/
def FoundUpToSettings (R : BitVec 32 → BitVec 32) (codec : HDACodec) : Prop :=
  ∃ R', AgreeButAmps R R' ∧ codec.m_widgets = found R'

theorem agree_settingsNow (R : BitVec 32 → BitVec 32) (s : σ) :
    AgreeButAmps R (settingsNow d R s) := fun _ hword => (if_neg hword).symm

/-- `refresh`, on the machine. -/
theorem AnswersAmps.exec_refresh (hd : AnswersAmps d R) {codec : HDACodec}
    (h : FoundUpToSettings R codec) (mem : List Byte) (params : View) (s : σ) :
    (cmdRefreshCodec mem codec params).run.exec d s =
      (.ok (true, { codec with m_widgets := found (settingsNow d R s) }), s) := by
  obtain ⟨R', hR', htable⟩ := h
  have hlower : (liftM (cmdRefresh codec.m_widgets) : Prog Console _).exec d s =
      (cmdRefresh codec.m_widgets).exec (verbDevice d) s :=
    Prog.exec_lower (fun o s => by cases o <;> rfl) _ s
  have hrefresh : ((liftM (liftM (cmdRefresh codec.m_widgets) : Prog Console _) :
      ConsoleM _)).run.exec d s = (.ok (found (settingsNow d R s)), s) := by
    rw [run_liftM, Prog.exec_bind, hlower, htable, hd.exec_cmdRefresh hR' s]
    rfl
  unfold cmdRefreshCodec
  exact exec_run_bind hrefresh _

/-- **One line** keeps the table so. -/
theorem AnswersAmps.after_line (hd : AnswersAmps d R) {codec : HDACodec}
    (h : FoundUpToSettings R codec) (polls : Nat) (line : List Byte) {s s' : σ}
    {r : Bool × HDACodec}
    (hrun : (execute polls (lineMemory line) codec ⟨some 0, line.length⟩).run.exec d s =
      (.ok r, s')) : FoundUpToSettings R r.2 := by
  rw [execute_eq] at hrun
  cases hc : commandOf line with
  | none =>
      rw [hc] at hrun
      cases hrun
      exact h
  | some c =>
      rw [hc] at hrun
      dsimp only at hrun
      by_cases hrefresh : c = .refresh
      · subst hrefresh
        have hline := hd.exec_refresh h (lineMemory line) (.tail line (line.dropWhile isAlpha)) s
        cases hline.symm.trans hrun
        exact ⟨_, agree_settingsNow R s, rfl⟩
      · have hcodec : r.2 = codec := (m_func_codec _ _ _ polls hrefresh).exec hrun
        rw [hcodec]
        exact h

/-- **A session** keeps the table so. -/
theorem AnswersAmps.after_session (hd : AnswersAmps d R) {codec codec' : HDACodec}
    (h : FoundUpToSettings R codec) (polls : Nat) (lines : List (List Byte)) {s s' : σ}
    (hrun : (runLines polls lines codec).run.exec d s = (.ok codec', s')) :
    FoundUpToSettings R codec' := by
  induction lines generalizing codec s with
  | nil =>
      cases hrun
      exact h
  | cons line lines ih =>
      obtain ⟨r, s₁, hline, hrest⟩ := exec_run_bind_ok hrun
      exact ih (hd.after_line h polls line hline) hrest

/-- Where the codec answers as at the scan, but for settings, a rescan finds this table. -/
theorem AnswersAmps.rescanned_eq (hd : AnswersAmps d R) {s : σ}
    (hsame : ∀ word, IsGet word → ¬ IsGetAmpWord word → verbAnswers d s word = some (R word)) :
    rescanned d s = found (settingsNow d R s) := by
  have hword : ∀ word, IsGet word → verbAnswers d s word = some (settingsNow d R s word) := by
    intro word hget
    by_cases hamp : IsGetAmpWord word
    · obtain ⟨r, hr⟩ := Option.isSome_iff_exists.mp (hd.settings word s hamp)
      rw [settingsNow, if_pos hamp, hr]
      rfl
    · rw [settingsNow, if_neg hamp, hsame word hget hamp]
  have hnode : ∀ v ∈ [0xF00#32, 0xF01, 0xF02, 0xF1C], v.getLsbD 11 = true := by simp
  rw [rescanned, found, collect_empty, collect_empty]
  refine List.map_congr_left fun i _ => congrArg (fun w : Option Widget => w.getD {}) ?_
  refine Prog.answer_congr (fun o ho => ?_) (scanNode_asks (BitVec.ofNat 32 i))
  rcases not_not.mp ho with ho | ho
  · cases ho with
    | verb hv hp => exact hword _ (isGet_verbWord (hnode _ hv))
    | print => rfl
  · cases ho with
    | capabilities | settings => exact hword _ (isGet_verbWord (by decide))

/-- **Refresh catches up**: a session, whatever it has done to the machine, and a line `refresh`
    leave the machine where the session left it and the codec with the table a full scan would
    find there, and with all its other members as they were. The codec is one that was scanned,
    its amplifiers can be asked, and everything that is no setting of an amplifier is answered as
    it was at the scan. -/
theorem refresh_catchesUp (hd : AnswersAmps d R) {codec codec' : HDACodec}
    (htable : codec.m_widgets = found R) (polls : Nat) {lines : List (List Byte)}
    {line : List Byte} (hline : commandOf line = some .refresh) {s s' : σ}
    (hrun : (runLines polls lines codec).run.exec d s = (.ok codec', s'))
    (hsame : ∀ word, IsGet word → ¬ IsGetAmpWord word → verbAnswers d s' word = some (R word)) :
    (runLines polls (lines ++ [line]) codec).run.exec d s =
      (.ok { codec with m_widgets := rescanned d s' }, s') := by
  have hscan : FoundUpToSettings R codec := ⟨R, fun _ _ => rfl, htable⟩
  have hfound := hd.after_session hscan polls lines hrun
  have hmembers :=
    (sameButAmps_of_lines ((runLines_chain polls lines codec).exec hrun)).members
  have hrefresh : (execute polls (lineMemory line) codec' ⟨some 0, line.length⟩).run.exec d s' =
      (.ok (true, { codec' with m_widgets := found (settingsNow d R s') }), s') := by
    rw [execute_eq, hline]
    exact hd.exec_refresh hfound (lineMemory line) (.tail line (line.dropWhile isAlpha)) s'
  rw [runLines_append, exec_run_bind hrun, runLines, exec_run_bind hrefresh, hd.rescanned_eq hsame,
    hmembers]
  rfl

end CatchUp

/-- Every node a converter with an output amplifier; its setting is the state, and a set verb
    stores its payload there. -/
def oneSetting : Prog.Device Console (BitVec 32) := fun o s =>
  match o with
  | .verb word =>
    if IsGetAmpWord word then (some s, s)
    else if IsGet word then (some 0x04, s)
    else (some 0, word &&& 0xFF)
  | o => (Console.silent o, s)

/-- What its scan met: amplifiers with the setting 0x80. -/
def mutedAtScan (word : BitVec 32) : BitVec 32 := if IsGetAmpWord word then 0x80 else 0x04

theorem oneSetting_answersAmps : AnswersAmps oneSetting mutedAtScan where
  still word s hget := by
    show (if IsGetAmpWord word then (some s, s)
      else if IsGet word then (some 0x04, s) else (some 0, word &&& 0xFF)).2 = s
    rw [if_pos hget]
    split <;> rfl
  settings word s hamp := by
    show (if IsGetAmpWord word then (some s, s)
      else if IsGet word then (some 0x04, s) else (some 0, word &&& 0xFF)).1.isSome = true
    rw [if_pos hamp]
    rfl
  capabilities node parameter s _ := by
    have hget : IsGet (verbWord 0 node 0xF00 parameter) := isGet_verbWord (by decide)
    have hamp : ¬ IsGetAmpWord (verbWord 0 node 0xF00 parameter) := not_isGetAmpWord (by decide)
    show (if IsGetAmpWord _ then (some s, s)
      else if IsGet _ then (some 0x04, s) else (some 0, _ &&& 0xFF)).1 = some (mutedAtScan _)
    rw [if_neg hamp, if_pos hget, mutedAtScan, if_neg hamp]

set_option maxRecDepth 20000 in
/-- The line sets the state, whatever the table. -/
theorem nodeio_oneSetting (table : List Widget) :
    (runLines 0 [bytes "nodeio 3 $300 $b004"] ⟨table, 0, 0, 0, 0, 0⟩).run.exec oneSetting 0x80 =
      (.ok ⟨table, 0, 0, 0, 0, 0⟩, 0x04) := rfl

/-- Muted at the scan, set with `nodeio`, read by `refresh`. -/
theorem refresh_catchesUp_nodeio :
    (runLines 0 ([bytes "nodeio 3 $300 $b004"] ++ [bytes "refresh"])
        ⟨found mutedAtScan, 0, 0, 0, 0, 0⟩).run.exec oneSetting 0x80 =
      (.ok ⟨rescanned oneSetting 0x04, 0, 0, 0, 0, 0⟩, 0x04) := by
  have hsame : ∀ word, IsGet word → ¬ IsGetAmpWord word →
      verbAnswers oneSetting 0x04 word = some (mutedAtScan word) := by
    intro word hget hamp
    show (if IsGetAmpWord word then (some 0x04, 0x04)
      else if IsGet word then (some 0x04, 0x04#32) else (some 0, word &&& 0xFF)).1 = _
    rw [if_neg hamp, if_pos hget, mutedAtScan, if_neg hamp]
  have hline : commandOf (bytes "refresh") = some .refresh := by decide +kernel
  have htable : ∀ table, (⟨table, 0, 0, 0, 0, 0⟩ : HDACodec).m_widgets = table := fun _ => rfl
  exact refresh_catchesUp oneSetting_answersAmps (htable (found mutedAtScan)) 0 hline
    (nodeio_oneSetting _) hsame

end TinyOS64
