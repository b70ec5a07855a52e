/-
  File:      TinyOS64/Console/LineSafety.lean
  Subject:   Which lines the command handlers read within bounds.

  `findNextParam` returns two views without pointer when it meets spaces only. A handler that
  goes on with the remainder of such a result, or hands its pointer to `%s`, reads through a null
  pointer: `execute_lineSafe_iff` says for which lines that happens.
-/
import TinyOS64.Console.Grammar

namespace TinyOS64

open Interaction

/-- Whatever the environment answers, no character is read through a null view and none past
    the terminator. -/
abbrev LineSafe {α : Type} (p : ConsoleM α) : Prop := Spares Fault.OnLine p

/-! ## 1. Parts of a handler -/

section Parts

variable {α β : Type} {line rest : List Byte}

theorem lineSafe_after (p : Prog Console α) {f : α → ConsoleM β} (hf : ∀ a, LineSafe (f a)) :
    LineSafe ((liftM p : ConsoleM α) >>= f) := spares_bind (spares_liftM p) hf

theorem lineSafe_register (p : Prog Mmio α) {f : α → ConsoleM β} (hf : ∀ a, LineSafe (f a)) :
    LineSafe ((liftM p : ConsoleM α) >>= f) := lineSafe_after (liftM p) hf

theorem lineSafe_verbs (p : Prog Verbs α) {f : α → ConsoleM β} (hf : ∀ a, LineSafe (f a)) :
    LineSafe ((liftM p : ConsoleM α) >>= f) := lineSafe_after (liftM p) hf

/-- A value read elsewhere than from the line. -/
theorem lineSafe_value {r : Except Fault α} (hr : ∀ e, r = .error e → ¬ e.OnLine)
    {f : α → ConsoleM β} (hf : ∀ a, LineSafe (f a)) :
    LineSafe ((liftM r : ConsoleM α) >>= f) := by
  cases r with
  | ok a => exact hf a
  | error e => exact spares_throw.mpr (hr e rfl)

theorem not_onLine_unfinished : ¬ Fault.unfinished.OnLine := by decide

theorem widgetAt_onLine (codec : HDACodec) (id : BitVec 64) :
    ∀ e, widgetAt codec id = .error e → ¬ e.OnLine := by
  intro e he
  unfold widgetAt at he
  split at he
  · cases he
    decide
  · cases he

/-- The next parameter, found or not. -/
theorem lineSafe_next (h : rest <:+ line) {f : ParamResult → ConsoleM β} (hnull : LineSafe (f {}))
    (hparam : LineSafe (f ⟨.param line rest, .tail line (afterParam rest)⟩)) :
    LineSafe (liftM (findNextParam (lineMemory line) (.tail line rest)) >>= f) := by
  by_cases hs : OnlySpaces rest
  · rw [findNextParam_spaces h hs]
    exact hnull
  · rw [findNextParam_param h hs]
    exact hparam

/-- **A parameter a handler needs**: what it does without one is not safe. -/
theorem lineSafe_needed (h : rest <:+ line) {f : ParamResult → ConsoleM β}
    (hnull : ¬ LineSafe (f {}))
    (hparam : LineSafe (f ⟨.param line rest, .tail line (afterParam rest)⟩)) :
    LineSafe (liftM (findNextParam (lineMemory line) (.tail line rest)) >>= f) ↔
      ¬ OnlySpaces rest := by
  by_cases hs : OnlySpaces rest
  · rw [findNextParam_spaces h hs]
    exact iff_of_false hnull (not_not.mpr hs)
  · rw [findNextParam_param h hs]
    exact iff_of_true hparam hs

/-- The value of a parameter that was found. -/
theorem lineSafe_param (h : rest <:+ line) {f : Option (BitVec 64) → ConsoleM β}
    (hf : ∀ value, LineSafe (f value)) :
    LineSafe (liftM (valueFromStr (lineMemory line) (.param line rest)) >>= f) := by
  refine lineSafe_value (fun e he => ?_) hf
  rcases valueFromStr_param h with ⟨_, value, hv⟩ | ⟨_, hv⟩
  · rw [hv] at he
    cases he
  · rw [hv] at he
    cases he
    exact not_onLine_unfinished

/-- **The last parameter of a handler**: its value is read within bounds, missing or not. -/
theorem lineSafe_lastValue (h : rest <:+ line) {f : Option (BitVec 64) → ConsoleM β}
    (hf : ∀ value, LineSafe (f value)) :
    LineSafe (liftM (findNextParam (lineMemory line) (.tail line rest)) >>= fun r =>
      liftM (valueFromStr (lineMemory line) r.m_param) >>= f) :=
  lineSafe_next h (hf none) (lineSafe_param h hf)

end Parts

/-! ## 2. The handlers -/

section Handlers

variable {line rest : List Byte} {codec : HDACodec}

theorem lineSafe_read (h : rest <:+ line) :
    LineSafe (cmdReadCodecRegister (lineMemory line) codec (.tail line rest)) ↔
      ¬ OnlySpaces rest := by
  unfold cmdReadCodecRegister
  refine lineSafe_needed h (fun hsafe => ?_) ?_
  · have hrest := (spares_liftM_bind (p := liftM (readReg []))).mp hsafe
    exact spares_throw.mp (hrest.answer Console.silent) (.inl rfl)
  · dsimp only
    rw [param_text h, liftM_ok_bind, param_cString h]
    exact lineSafe_register _ fun _ => lineSafe_after _ fun _ => spares_pure _

theorem lineSafe_write (h : rest <:+ line) :
    LineSafe (cmdWriteCodecRegister (lineMemory line) codec (.tail line rest)) ↔
      ¬ OnlySpaces rest := by
  unfold cmdWriteCodecRegister
  refine lineSafe_needed h (fun hsafe => spares_throw.mp hsafe (.inl rfl)) ?_
  refine lineSafe_lastValue ((afterParam_suffix rest).trans h) fun value => ?_
  cases value with
  | none => exact lineSafe_after _ fun _ => spares_pure _
  | some value =>
      dsimp only
      rw [param_cString h, liftM_ok_bind, param_text h]
      exact lineSafe_after _ fun _ => lineSafe_register _ fun _ => spares_pure _

theorem lineSafe_unmute (h : rest <:+ line) :
    LineSafe (cmdUnmute (lineMemory line) codec (.tail line rest)) ↔ ¬ OnlySpaces rest := by
  unfold cmdUnmute
  refine lineSafe_needed h (fun hsafe => spares_throw.mp hsafe (.inl rfl)) ?_
  refine lineSafe_param h fun widgetID => ?_
  refine lineSafe_lastValue ((afterParam_suffix rest).trans h) fun channel => ?_
  refine lineSafe_value (widgetAt_onLine codec _) fun w => ?_
  exact lineSafe_after _ fun _ => lineSafe_verbs _ fun _ => lineSafe_verbs _ fun _ =>
    spares_pure _

theorem lineSafe_rdmem (h : rest <:+ line) :
    LineSafe (cmdReadMem (lineMemory line) codec (.tail line rest)) ↔ ¬ OnlySpaces rest := by
  unfold cmdReadMem
  refine lineSafe_needed h (fun hsafe => spares_throw.mp hsafe (.inl rfl)) ?_
  refine lineSafe_param h fun addr => ?_
  refine lineSafe_lastValue ((afterParam_suffix rest).trans h) fun len => ?_
  cases addr with
  | none => exact spares_pure _
  | some address => exact lineSafe_after _ fun _ => lineSafe_after _ fun _ => spares_pure _

/-- **nodeio** goes on twice: with the remainder of its first and of its second parameter. -/
theorem lineSafe_nodeio (h : rest <:+ line) :
    LineSafe ( cmdNodeIO (lineMemory line) codec (.tail line rest)) ↔
      ¬ (OnlySpaces rest ∨ OnlySpaces (afterParam rest) ∧ ¬ Endless (firstParam rest)) := by
  have hafter := (afterParam_suffix rest).trans h
  unfold cmdNodeIO
  refine ⟨fun hsafe h => ?_, fun hnot => ?_⟩
  · rcases h with hs | ⟨hs, hend⟩
    · rw [findNextParam_spaces h hs] at hsafe
      exact spares_throw.mp hsafe (.inl rfl)
    · rw [findNextParam_param h (not_onlySpaces_of_after hs.1), liftM_ok_bind] at hsafe
      rcases valueFromStr_param h with ⟨_, value, hv⟩ | ⟨hend', _⟩
      · dsimp only at hsafe
        rw [hv, liftM_ok_bind, findNextParam_spaces hafter hs] at hsafe
        exact spares_throw.mp hsafe (.inl rfl)
      · exact absurd hend' hend
  · rw [findNextParam_param h fun hs => hnot (.inl hs), liftM_ok_bind]
    rcases valueFromStr_param h with ⟨hend, widgetID, hv⟩ | ⟨_, hv⟩
    · have hs : ¬ OnlySpaces (afterParam rest) := fun hs => hnot (.inr ⟨hs, hend⟩)
      dsimp only
      rw [hv, liftM_ok_bind, findNextParam_param hafter hs, liftM_ok_bind]
      refine lineSafe_param hafter fun verb => ?_
      refine lineSafe_lastValue ((afterParam_suffix _).trans hafter) fun payload => ?_
      exact lineSafe_after _ fun _ => lineSafe_verbs _ fun _ => lineSafe_after _ fun _ =>
        spares_pure _
    · dsimp only
      rw [hv, liftM_error_bind]
      exact spares_throw.mpr not_onLine_unfinished

theorem colourAt_onLine (i : Nat) : ∀ e, colourAt i = .error e → ¬ e.OnLine := by
  intro e he
  unfold colourAt at he
  split at he
  · cases he
    decide
  · cases he
    decide
  · cases he

theorem lineSafe_dump (w : Widget) : LineSafe w.dump := by
  have hjack : LineSafe (dumpJackInfo w.m_jackInfo) :=
    lineSafe_value (colourAt_onLine _) fun _ => lineSafe_after _ fun _ => spares_liftM _
  have hpin : LineSafe (dumpPinComplex w) :=
    lineSafe_after _ fun _ => lineSafe_after _ fun _ => lineSafe_after _ fun _ =>
      lineSafe_after _ fun _ => lineSafe_after _ fun _ => spares_bind hjack fun _ => spares_liftM _
  unfold Widget.dump
  refine lineSafe_after _ fun _ => lineSafe_after _ fun _ => ?_
  cases w.m_type with
  | PinComplex => exact lineSafe_after _ fun _ => hpin
  | Input | Output | Mixer => exact lineSafe_after _ fun _ => spares_liftM _
  | Unknown | Selector | BeepGen | Vendor => exact spares_liftM _

theorem lineSafe_node (h : rest <:+ line) :
    LineSafe (cmdDisplayNode (lineMemory line) codec (.tail line rest)) := by
  refine lineSafe_lastValue h fun widgetID => ?_
  cases widgetID with
  | none => exact lineSafe_after _ fun _ => spares_pure _
  | some id =>
      dsimp only
      cases codec.m_widgets[id.toNat]? with
      | none => exact lineSafe_after _ fun _ => spares_pure _
      | some w => exact spares_bind (lineSafe_dump w) fun _ => spares_pure _

theorem lineSafe_getformat (h : rest <:+ line) :
    LineSafe (cmdGetFormat (lineMemory line) codec (.tail line rest)) := by
  refine lineSafe_lastValue h fun widgetID => ?_
  cases widgetID with
  | none => exact spares_pure _
  | some id =>
      dsimp only
      cases codec.m_widgets[id.toNat]? with
      | none => exact lineSafe_after _ fun _ => spares_pure _
      | some w =>
          refine lineSafe_verbs _ fun format => ?_
          cases format with
          | none => exact lineSafe_after _ fun _ => spares_pure _
          | some f => exact lineSafe_after _ fun _ => spares_pure _

theorem lineSafe_settextmode (h : rest <:+ line) :
    LineSafe (cmdSetTextMode (lineMemory line) codec (.tail line rest)) := by
  refine lineSafe_lastValue h fun mode => ?_
  cases mode with
  | none => exact spares_pure _
  | some modeID => exact lineSafe_after _ fun _ => spares_pure _

theorem derefMode_onLine (mode : Option GraphicsMode) :
    ∀ e, derefMode mode = .error e → ¬ e.OnLine := by
  intro e he
  cases mode with
  | none =>
      cases he
      decide
  | some mode => cases he

theorem lineSafe_showvideo (mem : List Byte) (params : View) :
    LineSafe (cmdShowVideo mem codec params) := by
  refine lineSafe_after _ fun _ => lineSafe_after _ fun answer => ?_
  refine spares_ite (lineSafe_after _ fun _ => spares_pure _) ?_
  refine lineSafe_after _ fun _ => lineSafe_after _ fun _ => lineSafe_after _ fun _ => ?_
  exact lineSafe_value (derefMode_onLine _) fun _ => lineSafe_after _ fun _ =>
    lineSafe_after _ fun _ => lineSafe_after _ fun _ => spares_pure _

theorem lineSafe_showTextModes (polls : Nat) (mode : BitVec 64) :
    LineSafe (showTextModes polls mode) := by
  induction polls generalizing mode with
  | zero => exact spares_throw.mpr not_onLine_unfinished
  | succ polls ih =>
      refine lineSafe_after _ fun answer => ?_
      exact spares_ite (lineSafe_after _ fun _ => ih _) (spares_pure _)

/-- The handlers that do not look at the rest of the line. -/
theorem lineSafe_noParams (codec : HDACodec) (polls : Nat) (mem : List Byte) (params : View) :
    LineSafe (cmdRefreshCodec mem codec params) ∧ LineSafe (cmdPlayPos mem codec params) ∧
      LineSafe (cmdShowText polls mem codec params) ∧ LineSafe (cmdHelp mem codec params) := by
  refine ⟨?_, ?_, ?_, ?_⟩
  · exact lineSafe_verbs _ fun _ => spares_pure _
  · exact lineSafe_register _ fun _ => lineSafe_after _ fun _ => spares_pure _
  · exact lineSafe_after _ fun _ => spares_bind (lineSafe_showTextModes polls 0) fun _ =>
      spares_pure _
  · refine lineSafe_after _ fun _ => spares_bind (spares_forM (fun cmd => ?_) _) fun _ =>
      spares_pure _
    exact lineSafe_after _ fun _ => lineSafe_after _ fun _ => spares_liftM _

end Handlers

/-! ## 3. execute -/

/-- What makes a handler read outside the line, `rest` being what follows its name: there is no
    parameter where it needs one, and there are spaces. `nodeio` needs two, and gets to the second
    unless the first is a number it never comes to the end of. -/
def Command.MissesParam : Command → List Byte → Prop
  | read, rest | write, rest | unmute, rest | rdmem, rest => OnlySpaces rest
  | nodeio, rest =>
    OnlySpaces rest ∨ (OnlySpaces (afterParam rest) ∧ ¬ Endless (firstParam rest))
  | _, _ => False

/-- The line is a command that misses a parameter. -/
def MissesParam (line : List Byte) : Prop :=
  ∃ c : Command, bytes c.name = line.takeWhile isAlpha ∧ c.MissesParam (line.dropWhile isAlpha)

theorem lineSafe_m_func {line rest : List Byte} (h : rest <:+ line) (polls : Nat)
    (codec : HDACodec) (c : Command) :
    LineSafe (c.m_func polls (lineMemory line) codec (.tail line rest)) ↔
      ¬ c.MissesParam rest := by
  have hnone := lineSafe_noParams codec polls (lineMemory line) (.tail line rest)
  cases c with
  | read => exact lineSafe_read h
  | write => exact lineSafe_write h
  | unmute => exact lineSafe_unmute h
  | rdmem => exact lineSafe_rdmem h
  | nodeio => exact lineSafe_nodeio h
  | node => exact iff_of_true (lineSafe_node h) id
  | getformat => exact iff_of_true (lineSafe_getformat h) id
  | settextmode => exact iff_of_true (lineSafe_settextmode h) id
  | showvideo => exact iff_of_true (lineSafe_showvideo (lineMemory line) (.tail line rest)) id
  | refresh => exact iff_of_true hnone.1 id
  | playpos => exact iff_of_true hnone.2.1 id
  | showtext => exact iff_of_true hnone.2.2.1 id
  | help => exact iff_of_true hnone.2.2.2 id

/-- **A line is read within its bounds exactly when its command misses no parameter.** -/
theorem execute_lineSafe_iff (polls : Nat) (codec : HDACodec) (line : List Byte) :
    LineSafe (execute polls (lineMemory line) codec ⟨some 0, line.length⟩) ↔
      ¬ MissesParam line := by
  rw [execute_eq]
  cases hc : commandOf line with
  | none =>
      refine iff_of_true (spares_pure _) ?_
      intro h
      rcases h with ⟨c, hname, _⟩
      rw [commandOf_eq_some.mpr hname] at hc
      cases hc
  | some c =>
      refine (lineSafe_m_func (List.dropWhile_suffix _) polls codec c).trans (not_congr ?_)
      constructor
      · exact fun h => ⟨c, commandOf_eq_some.mp hc, h⟩
      · intro h₀
        rcases h₀ with ⟨c', hname, h⟩
        rw [commandOf_eq_some.mpr hname] at hc
        cases hc
        exact h

/-- The line `unmute`, followed by one space. -/
theorem execute_trailing_space :
    ¬ LineSafe (execute 0 (lineMemory (bytes "unmute ")) ⟨[], 0, 0, 0, 0x80, 0x100⟩
      ⟨some 0, (bytes "unmute ").length⟩) := by
  intro hsafe
  have hrun : (execute 0 (lineMemory (bytes "unmute ")) ⟨[], 0, 0, 0, 0x80, 0x100⟩
      ⟨some 0, (bytes "unmute ").length⟩).run = .ret (.error .nullView) := by rfl
  unfold LineSafe Spares at hsafe
  rw [hrun] at hsafe
  exact Prog.always_ret.mp hsafe .nullView rfl (.inl rfl)

end TinyOS64
