/-
  File:      TinyOS64/Main/KeyLoop.lean
  Subject:   The key loop of efi_init (main.cpp, compiled out): the console's line editor.

  A turn of the loop waits for a key, reads it and edits a buffer of 256 characters; Enter ends
  the buffer with a 0 and passes the line to `Commands::execute`. The buffer is never left. The
  lines are those of the reference editor in every run in which no backspace comes while 255
  characters are held (`keyLoop_lines`): a full buffer takes no key but Enter.
-/
import TinyOS64.Console.Line
import TinyOS64.Lib.Stopping
import TinyOS64.Print.Format

namespace TinyOS64

open Interaction

/-! ## 1. The program -/

/-- The questions of the key loop: the firmware's, `print` and `Commands::execute` on a view into
    the buffer. -/
inductive KeyOp where
  | waitForKey
  | readKey
  | outputString (buffer : List (BitVec 16))
  | print (fmt : String) (va : List Arg)
  | execute (consoleBuffer : List Byte) (line : View)

/-- Their answers: statuses, for `readKey` with `m_unicodeChar`; what `execute` returns. -/
@[reducible] def KeyOp.Ans : KeyOp → Type
  | waitForKey | outputString _ => BitVec 64
  | readKey => BitVec 64 × BitVec 16
  | print .. => Nat
  | execute .. => Bool

/-- The signature of the key loop. -/
@[reducible] def Keyboard : Sig := ⟨KeyOp, KeyOp.Ans⟩

/-- Programs at the keyboard that may stop. -/
abbrev KeyM := ExceptT Fault (Prog Keyboard)

namespace Keyboard

def ask (o : KeyOp) : Prog Keyboard o.Ans := .ask (S := Keyboard) o .ret

def print (fmt : String) : Prog Keyboard Unit := do
  let _ ← ask (.print fmt [])

/-- What follows `execute`, by what it returned. -/
def reportError (executed : Bool) : Prog Keyboard Unit :=
  if executed then pure () else print "Command error\n\r"

end Keyboard

/-- The locals of the loop. -/
structure LineEditor where
  consoleBuffer : Vector Byte 256
  consoleBufferIdx : Nat := 0

namespace LineEditor

/-- `consoleBuffer[consoleBufferIdx] = c`. -/
def store (s : LineEditor) (c : Byte) : Except Fault LineEditor :=
  if h : s.consoleBufferIdx < 256 then
    .ok { s with consoleBuffer := s.consoleBuffer.set s.consoleBufferIdx c h }
  else .error .outOfRange

/-- What the loop does with a key that is not Enter. -/
def edit (s : LineEditor) (m_unicodeChar : BitVec 16) : Except Fault LineEditor := do
  if s.consoleBufferIdx < 255 then
    if m_unicodeChar < 256 ∧ 32 ≤ m_unicodeChar then
      let stored ← s.store (m_unicodeChar.setWidth 8)
      pure { stored with consoleBufferIdx := s.consoleBufferIdx + 1 }
    else if m_unicodeChar = 0x08 then
      if 0 < s.consoleBufferIdx then pure { s with consoleBufferIdx := s.consoleBufferIdx - 1 }
      else pure s
    else pure s
  else pure s

/-- What the loop does at Enter. -/
def enter (s : LineEditor) : KeyM LineEditor := do
  Keyboard.print "\n\r"
  let ended ← s.store 0
  let executed ← Keyboard.ask (.execute ended.consoleBuffer.toList ⟨some 0, s.consoleBufferIdx⟩)
  Keyboard.reportError executed
  Keyboard.print ">"
  pure { ended with consoleBufferIdx := 0 }

end LineEditor

/-- One turn of the loop. -/
def keyTurn (s : LineEditor) : KeyM LineEditor := do
  let status ← Keyboard.ask .waitForKey
  if status = 0 then
    let (status, m_unicodeChar) ← Keyboard.ask .readKey
    if status ≠ 0 then pure s
    else if m_unicodeChar = 13 then s.enter
    else
      let _ ← Keyboard.ask (.outputString [m_unicodeChar, 0, 0])
      s.edit m_unicodeChar
  else pure s

/-- The first `n` turns of the loop. -/
def keyTurns : Nat → LineEditor → KeyM LineEditor
  | 0, s => pure s
  | n + 1, s => do
    let s' ← keyTurn s
    keyTurns n s'

/-- The prompt and the first `n` turns; nothing is known of what the buffer holds before. -/
def keyLoop (n : Nat) (consoleBuffer : Vector Byte 256) : KeyM LineEditor := do
  Keyboard.print ">"
  keyTurns n ⟨consoleBuffer, 0⟩

/-! ## 2. The reference editor -/

/-- The line held, and the lines of the Enters before. -/
structure Editor where
  held : List Byte := []
  lines : List (List Byte) := []

namespace Editor

/-- A line after a key that is not Enter. -/
def type (held : List Byte) (key : BitVec 16) : List Byte :=
  if 32 ≤ key ∧ key < 256 then
    if held.length < 255 then held ++ [key.setWidth 8] else held
  else if key = 0x08 then held.dropLast
  else held

def press (e : Editor) (key : BitVec 16) : Editor :=
  if key = 13 then ⟨[], e.lines ++ [e.held]⟩ else { e with held := type e.held key }

/-- A full line takes no key but a backspace. -/
theorem type_full {held : List Byte} {key : BitVec 16} (hfull : ¬ held.length < 255)
    (hkey : key ≠ 0x08) : type held key = held := by
  rw [type, if_neg hfull, if_neg hkey, ite_self]

/-- No backspace comes while 255 characters are held. -/
def SparesFullLine : Editor → List (BitVec 16) → Prop
  | _, [] => True
  | e, key :: keys => (key = 0x08 → e.held.length < 255) ∧ (e.press key).SparesFullLine keys

end Editor

/-! ## 3. What a run shows -/

/-- The questions of a run with their answers. -/
abbrev KeyTranscript := List (Σ o, Keyboard.Ans o)

/-- The keys that were read. -/
def keysRead (tr : KeyTranscript) : List (BitVec 16) :=
  tr.filterMap fun e =>
    match e with
    | ⟨.readKey, status, m_unicodeChar⟩ => if status = 0 then some m_unicodeChar else none
    | _ => none

/-- What was passed to `Commands::execute`: the memory and the view. -/
def linesPassed (tr : KeyTranscript) : List (List Byte × View) :=
  tr.filterMap fun e =>
    match e with
    | ⟨.execute consoleBuffer line, _⟩ => some (consoleBuffer, line)
    | _ => none

/-- A line in the buffer: the view is at its start, and the 0 behind the line is inside. -/
def InBuffer (passed : List Byte × View) : Prop :=
  passed.1.length = 256 ∧ passed.2.data = some 0 ∧ passed.2.size ≤ 255 ∧
    passed.1[passed.2.size]? = some 0

/-! ## 4. One turn -/

/-- All that a turn can do: read nothing; Enter; another key. -/
inductive TurnOf (s : LineEditor) : List (BitVec 16) → List (List Byte × View) → LineEditor → Prop
  | idle : TurnOf s [] [] s
  | enter {ended : LineEditor} (h : s.store 0 = .ok ended) :
      TurnOf s [13] [(ended.consoleBuffer.toList, ⟨some 0, s.consoleBufferIdx⟩)]
        { ended with consoleBufferIdx := 0 }
  | key {key : BitVec 16} {s' : LineEditor} (hkey : key ≠ 13) (h : s.edit key = .ok s') :
      TurnOf s [key] [] s'

namespace LineEditor

/-- The line held in the buffer. -/
def held (s : LineEditor) : List Byte := s.consoleBuffer.toList.take s.consoleBufferIdx

variable {s : LineEditor}

theorem length_held (hs : s.consoleBufferIdx ≤ 255) : s.held.length = s.consoleBufferIdx := by
  rw [held, List.length_take, Vector.length_toList]
  omega

theorem store_eq (hs : s.consoleBufferIdx ≤ 255) (c : Byte) :
    s.store c = .ok { s with
      consoleBuffer := s.consoleBuffer.set s.consoleBufferIdx c (Nat.lt_succ_of_le hs) } :=
  dif_pos (Nat.lt_succ_of_le hs)

/-- A store behind the line leaves the line. -/
theorem take_set (hs : s.consoleBufferIdx < 256) (c : Byte) :
    (s.consoleBuffer.set s.consoleBufferIdx c hs).toList.take s.consoleBufferIdx = s.held := by
  have hbefore : (s.consoleBuffer.toList.take s.consoleBufferIdx).length ≤ s.consoleBufferIdx := by
    rw [List.length_take]
    omega
  rw [Vector.toList_set, List.take_set, List.set_eq_of_length_le hbefore, held]

theorem getElem?_set (hs : s.consoleBufferIdx < 256) (c : Byte) :
    (s.consoleBuffer.set s.consoleBufferIdx c hs).toList[s.consoleBufferIdx]? = some c := by
  rw [Vector.toList_set]
  exact List.getElem?_set_self (by rwa [Vector.length_toList])

theorem held_append (hs : s.consoleBufferIdx < 256) (c : Byte) :
    LineEditor.held ⟨s.consoleBuffer.set s.consoleBufferIdx c hs, s.consoleBufferIdx + 1⟩ =
      s.held ++ [c] := by
  rw [held, List.take_add_one, take_set, getElem?_set, Option.toList_some]

/-- The line passed at Enter is the line held. -/
theorem text_held (hs : s.consoleBufferIdx ≤ 255) (c : Byte) :
    View.text (s.consoleBuffer.set s.consoleBufferIdx c (Nat.lt_succ_of_le hs)).toList
      ⟨some 0, s.consoleBufferIdx⟩ = .ok s.held := by
  by_cases hempty : s.consoleBufferIdx = 0
  · rw [View.text, if_pos hempty, held, hempty, List.take_zero]
  · have hsize : s.consoleBufferIdx ≤
        (s.consoleBuffer.set s.consoleBufferIdx c (Nat.lt_succ_of_le hs)).toList.length := by
      rw [Vector.length_toList]
      omega
    have hread : ∀ mem : List Byte, View.chars mem ⟨some 0, s.consoleBufferIdx⟩ = .ok mem :=
      fun _ => rfl
    rw [View.text, if_neg hempty, hread, Fault.ok_bind, if_pos hsize, take_set]

theorem held_dropLast (hs : s.consoleBufferIdx ≤ 255) :
    LineEditor.held ⟨s.consoleBuffer, s.consoleBufferIdx - 1⟩ = s.held.dropLast := by
  rw [held, held, List.dropLast_take (by rw [Vector.length_toList]; omega)]

/-- **A key that is not Enter** does not leave the buffer. It edits the line as the reference
    editor does when the buffer is not full, and does nothing when it is. -/
theorem edit_spec (hs : s.consoleBufferIdx ≤ 255) (key : BitVec 16) :
    ∃ s', s.edit key = .ok s' ∧ s'.consoleBufferIdx ≤ 255 ∧
      s'.held = if s.held.length < 255 then Editor.type s.held key else s.held := by
  rw [length_held hs]
  unfold edit Editor.type
  by_cases hfull : s.consoleBufferIdx < 255
  · rw [if_pos hfull, if_pos hfull]
    by_cases hprint : 32 ≤ key ∧ key < 256
    · rw [if_pos hprint.symm, if_pos hprint, length_held hs, if_pos hfull, store_eq hs]
      exact ⟨_, rfl, hfull, held_append (Nat.lt_succ_of_le hs) _⟩
    · rw [if_neg fun h => hprint h.symm, if_neg hprint]
      by_cases hback : key = 0x08
      · rw [if_pos hback, if_pos hback]
        by_cases hsome : 0 < s.consoleBufferIdx
        · rw [if_pos hsome]
          exact ⟨_, rfl, Nat.le_trans (Nat.sub_le _ _) hs, held_dropLast hs⟩
        · -- the source does not count below 0: the line is empty
          have hempty : s.consoleBufferIdx = 0 := Nat.eq_zero_of_not_pos hsome
          have hnone : s.held = [] := by rw [held, hempty, List.take_zero]
          rw [if_neg hsome, hnone]
          exact ⟨s, rfl, hs, hnone⟩
      · rw [if_neg hback, if_neg hback]
        exact ⟨s, rfl, hs, rfl⟩
  · rw [if_neg hfull, if_neg hfull]
    exact ⟨s, rfl, hs, rfl⟩

end LineEditor

section Turn

variable {s : LineEditor} {tr : KeyTranscript} {r : Except Fault LineEditor}

theorem transcript_ask {α : Type} {o : KeyOp} {f : o.Ans → KeyM α} {r : Except Fault α} :
    (liftM (Keyboard.ask o) >>= f : KeyM α).run.Transcript tr r ↔
      ∃ x tr', tr = ⟨o, x⟩ :: tr' ∧ (f x).run.Transcript tr' r := by
  rw [run_liftM_bind]
  rfl

theorem transcript_print {α : Type} {fmt : String} {f : Unit → KeyM α} {r : Except Fault α} :
    (liftM (Keyboard.print fmt) >>= f : KeyM α).run.Transcript tr r ↔
      ∃ n tr', tr = ⟨.print fmt [], n⟩ :: tr' ∧ (f ()).run.Transcript tr' r := by
  rw [run_liftM_bind]
  rfl

/-- What Enter asks reads no key and passes one line. -/
theorem enter_spec (hs : s.consoleBufferIdx ≤ 255) (h : s.enter.run.Transcript tr r) :
    ∃ ended, s.store 0 = .ok ended ∧ r = .ok { ended with consoleBufferIdx := 0 } ∧
      keysRead tr = [] ∧
      linesPassed tr = [(ended.consoleBuffer.toList, ⟨some 0, s.consoleBufferIdx⟩)] := by
  unfold LineEditor.enter at h
  rw [transcript_print] at h
  obtain ⟨n, tr, rfl, h⟩ := h
  rw [LineEditor.store_eq hs] at h ⊢
  rw [liftM_ok_bind] at h
  rw [transcript_ask] at h
  obtain ⟨executed, tr, rfl, h⟩ := h
  refine ⟨_, rfl, ?_⟩
  cases executed with
  | true =>
      rw [Keyboard.reportError, if_pos rfl, run_liftM_bind, Prog.pure_eq, Prog.ret_bind,
        transcript_print] at h
      obtain ⟨n', tr, rfl, rfl, rfl⟩ := h
      exact ⟨rfl, rfl, rfl⟩
  | false =>
      rw [Keyboard.reportError, if_neg Bool.false_ne_true, transcript_print] at h
      obtain ⟨n', tr, rfl, h⟩ := h
      rw [transcript_print] at h
      obtain ⟨n'', tr, rfl, rfl, rfl⟩ := h
      exact ⟨rfl, rfl, rfl⟩

/-- **One turn** reads at most one key and stays inside the buffer. -/
theorem keyTurn_spec (hs : s.consoleBufferIdx ≤ 255) (h : (keyTurn s).run.Transcript tr r) :
    ∃ s', r = .ok s' ∧ s'.consoleBufferIdx ≤ 255 ∧ TurnOf s (keysRead tr) (linesPassed tr) s' := by
  unfold keyTurn at h
  rw [transcript_ask] at h
  obtain ⟨status, tr, rfl, h⟩ := h
  by_cases hwait : status = 0
  · rw [if_pos hwait] at h
    rw [transcript_ask] at h
    obtain ⟨⟨status', key⟩, tr, rfl, h⟩ := h
    dsimp only at h
    by_cases hread : status' = 0
    · have hkeys : keysRead (⟨.waitForKey, status⟩ :: ⟨.readKey, status', key⟩ :: tr) =
          key :: keysRead tr := by
        rw [hread]
        rfl
      have hlines : linesPassed (⟨.waitForKey, status⟩ :: ⟨.readKey, status', key⟩ :: tr) =
          linesPassed tr := rfl
      rw [hkeys, hlines]
      rw [if_neg (not_not.mpr hread)] at h
      by_cases henter : key = 13
      · rw [if_pos henter] at h
        obtain ⟨ended, hstore, rfl, hnone, hline⟩ := enter_spec hs h
        rw [hnone, hline, henter]
        exact ⟨_, rfl, Nat.zero_le _, .enter hstore⟩
      · rw [if_neg henter] at h
        rw [transcript_ask] at h
        obtain ⟨answer, tr, rfl, h⟩ := h
        obtain ⟨s', hedit, hs', _⟩ := LineEditor.edit_spec hs key
        rw [hedit] at h
        obtain ⟨rfl, rfl⟩ := h
        exact ⟨s', rfl, hs', .key henter hedit⟩
    · rw [if_pos hread] at h
      obtain ⟨rfl, rfl⟩ := h
      have hkeys : keysRead [⟨.waitForKey, status⟩, ⟨.readKey, status', key⟩] = [] := by
        simpa [keysRead] using hread
      rw [hkeys]
      exact ⟨s, rfl, hs, .idle⟩
  · rw [if_neg hwait] at h
    obtain ⟨rfl, rfl⟩ := h
    exact ⟨s, rfl, hs, .idle⟩

end Turn

/-! ## 5. The run -/

/-- What `Commands::execute` can read of a passed line. -/
def passedText (passed : List Byte × View) : Except Fault (List Byte) := passed.2.text passed.1

namespace TurnOf

variable {s s' : LineEditor} {keys : List (BitVec 16)} {passed : List (List Byte × View)}

/-- A line that a turn passes is in the buffer. -/
theorem inBuffer (h : TurnOf s keys passed s') (hs : s.consoleBufferIdx ≤ 255) :
    ∀ p ∈ passed, InBuffer p := by
  cases h with
  | enter hstore =>
      rw [LineEditor.store_eq hs] at hstore
      cases hstore
      intro p hp
      rw [List.mem_singleton.mp hp]
      exact ⟨Vector.length_toList, rfl, hs, LineEditor.getElem?_set (Nat.lt_succ_of_le hs) _⟩
  | idle | key => exact fun p hp => absurd hp List.not_mem_nil

/-- **A turn is a step of the reference editor**, unless it ignores a backspace. -/
theorem press (h : TurnOf s keys passed s') (hs : s.consoleBufferIdx ≤ 255) {e : Editor}
    (he : e.held = s.held) (hspares : e.SparesFullLine keys) :
    ∃ lines, keys.foldl Editor.press e = ⟨s'.held, e.lines ++ lines⟩ ∧
      passed.map passedText = lines.map .ok := by
  cases h with
  | idle => exact ⟨[], by rw [List.append_nil, ← he]; rfl, rfl⟩
  | enter hstore =>
      have hpress : e.press 13 = ⟨[], e.lines ++ [e.held]⟩ := if_pos rfl
      rw [LineEditor.store_eq hs] at hstore
      cases hstore
      refine ⟨[s.held], ?_, ?_⟩
      · rw [List.foldl_cons, hpress, he]
        rfl
      · rw [List.map_singleton, passedText, LineEditor.text_held hs]
        rfl
  | key hkey hedit =>
      rename_i key
      obtain ⟨s'', hedit', _, hheld⟩ := LineEditor.edit_spec hs key
      rw [hedit] at hedit'
      cases hedit'
      refine ⟨[], ?_, rfl⟩
      have hpress : e.press key = { e with held := Editor.type e.held key } := if_neg hkey
      rw [List.foldl_cons, hpress, hheld, List.append_nil, ← he]
      by_cases hfull : e.held.length < 255
      · rw [if_pos hfull]
        rfl
      · rw [if_neg hfull, Editor.type_full hfull fun hback => hfull (hspares.1 hback)]
        rfl

end TurnOf

theorem keysRead_append (tr tr' : KeyTranscript) :
    keysRead (tr ++ tr') = keysRead tr ++ keysRead tr' := List.filterMap_append

theorem linesPassed_append (tr tr' : KeyTranscript) :
    linesPassed (tr ++ tr') = linesPassed tr ++ linesPassed tr' := List.filterMap_append

theorem Editor.sparesFullLine_append {e : Editor} {keys keys' : List (BitVec 16)} :
    e.SparesFullLine (keys ++ keys') ↔
      e.SparesFullLine keys ∧ (keys.foldl Editor.press e).SparesFullLine keys' := by
  induction keys generalizing e with
  | nil => exact ⟨fun h => ⟨trivial, h⟩, fun h => h.2⟩
  | cons key keys ih =>
      rw [List.cons_append, List.foldl_cons, Editor.SparesFullLine, Editor.SparesFullLine, ih,
        and_assoc]

/-- Where the loop is after some turns: inside the buffer, the lines passed in the buffer, and the
    reference editor's as long as no backspace was ignored. -/
structure RunOf (s : LineEditor) (keys : List (BitVec 16)) (passed : List (List Byte × View))
    (s' : LineEditor) : Prop where
  inside : s'.consoleBufferIdx ≤ 255
  inBuffer : ∀ p ∈ passed, InBuffer p
  press : ∀ e : Editor, e.held = s.held → e.SparesFullLine keys →
    ∃ lines, keys.foldl Editor.press e = ⟨s'.held, e.lines ++ lines⟩ ∧
      passed.map passedText = lines.map .ok

section Runs

variable {s : LineEditor} {tr : KeyTranscript} {r : Except Fault LineEditor}

theorem RunOf.refl (hs : s.consoleBufferIdx ≤ 255) : RunOf s [] [] s where
  inside := hs
  inBuffer p hp := absurd hp List.not_mem_nil
  press e he _ := ⟨[], by rw [List.append_nil, ← he]; rfl, rfl⟩

/-- A turn and a run after it. -/
theorem RunOf.head {s₁ s' : LineEditor} {keys keys' : List (BitVec 16)}
    {passed passed' : List (List Byte × View)} (hs : s.consoleBufferIdx ≤ 255)
    (hturn : TurnOf s keys passed s₁) (hrun : RunOf s₁ keys' passed' s') :
    RunOf s (keys ++ keys') (passed ++ passed') s' where
  inside := hrun.inside
  inBuffer p hp := by
    rcases List.mem_append.mp hp with hp | hp
    · exact hturn.inBuffer hs p hp
    · exact hrun.inBuffer p hp
  press e he hspares := by
    obtain ⟨hfirst, hrest⟩ := Editor.sparesFullLine_append.mp hspares
    obtain ⟨lines, hpress, htext⟩ := hturn.press hs he hfirst
    rw [hpress] at hrest
    obtain ⟨lines', hpress', htext'⟩ := hrun.press _ rfl hrest
    refine ⟨lines ++ lines', ?_, ?_⟩
    · rw [List.foldl_append, hpress, hpress', List.append_assoc]
    · rw [List.map_append, List.map_append, htext, htext']

/-- **Any number of turns.** -/
theorem keyTurns_spec {n : Nat} (hs : s.consoleBufferIdx ≤ 255)
    (h : (keyTurns n s).run.Transcript tr r) :
    ∃ s', r = .ok s' ∧ RunOf s (keysRead tr) (linesPassed tr) s' := by
  induction n generalizing s tr with
  | zero =>
      obtain ⟨rfl, rfl⟩ := h
      exact ⟨s, rfl, .refl hs⟩
  | succ n ih =>
      have hrun : (keyTurns (n + 1) s).run =
          (keyTurn s).run >>= ExceptT.bindCont fun s' => keyTurns n s' := rfl
      rw [hrun] at h
      obtain ⟨tr₁, tr₂, r₁, h₁, h₂, rfl⟩ := Prog.transcript_bind.mp h
      obtain ⟨s₁, rfl, hs₁, hturn⟩ := keyTurn_spec hs h₁
      obtain ⟨s', rfl, hrest⟩ := ih hs₁ h₂
      rw [keysRead_append, linesPassed_append]
      exact ⟨s', rfl, .head hs hturn hrest⟩

end Runs

/-- **The lines passed to `Commands::execute`**: whatever the firmware and the commands answer,
    each is in the buffer with its 0, and they are the reference editor's when no backspace comes
    while 255 characters are held. After any number of turns the index is at most 255. -/
theorem keyLoop_lines {n : Nat} {consoleBuffer : Vector Byte 256} {tr : KeyTranscript}
    {r : Except Fault LineEditor} (h : (keyLoop n consoleBuffer).run.Transcript tr r) :
    (∃ s, r = .ok s ∧ s.consoleBufferIdx ≤ 255) ∧ (∀ p ∈ linesPassed tr, InBuffer p) ∧
      (Editor.SparesFullLine {} (keysRead tr) →
        (linesPassed tr).map passedText =
          ((keysRead tr).foldl Editor.press {}).lines.map .ok) := by
  unfold keyLoop at h
  rw [transcript_print] at h
  obtain ⟨count, tr, rfl, h⟩ := h
  obtain ⟨s, rfl, hinside, hbuffer, hpress⟩ := keyTurns_spec (Nat.zero_le _) h
  refine ⟨⟨s, rfl, hinside⟩, hbuffer, fun hspares => ?_⟩
  obtain ⟨lines, hlines, htext⟩ := hpress {} rfl hspares
  have hkeys : (keysRead tr).foldl Editor.press {} = ⟨s.held, lines⟩ := hlines
  have hsame : linesPassed (⟨.print ">" [], count⟩ :: tr) = linesPassed tr ∧
      keysRead (⟨.print ">" [], count⟩ :: tr) = keysRead tr := ⟨rfl, rfl⟩
  rw [hsame.1, hsame.2, htext, hkeys]

/-- Keys typed one after the other; no event once they are read. -/
def typing : Prog.Device Keyboard (List (BitVec 16)) := fun o keys =>
  match o with
  | .waitForKey => (if keys.isEmpty then 0x8000000000000003 else 0, keys)
  | .readKey => ((if keys.isEmpty then 0x8000000000000006 else 0, keys.headD 0), keys.tail)
  | .outputString _ => ((0 : BitVec 64), keys)
  | .print fmt va => (printCount fmt va, keys)
  | .execute _ _ => (true, keys)

/-- The loop over some typed keys. -/
def typed (keys : List (BitVec 16)) : KeyTranscript :=
  (keyLoop keys.length (.replicate 256 0)).run.trace typing keys

theorem transcript_typed (keys : List (BitVec 16)) :
    (keyLoop keys.length (.replicate 256 0)).run.Transcript (typed keys)
      ((keyLoop keys.length (.replicate 256 0)).run.exec typing keys).1 :=
  Prog.transcript_trace typing _ keys

/-- `hx`, a backspace, `elp`, Enter: the line is `help`. -/
theorem keyLoop_lines_help :
    let keys : List (BitVec 16) := [0x68, 0x78, 0x08, 0x65, 0x6C, 0x70, 13]
    (∃ s, ((keyLoop 7 (.replicate 256 0)).run.exec typing keys).1 = .ok s ∧
      s.consoleBufferIdx ≤ 255) ∧
    (∀ p ∈ linesPassed (typed keys), InBuffer p) ∧
    (linesPassed (typed keys)).map passedText =
      ((keysRead (typed keys)).foldl Editor.press {}).lines.map .ok := by
  intro keys
  have hspares : Editor.SparesFullLine {} (keysRead (typed keys)) :=
    ⟨fun h => absurd h (by decide), fun h => absurd h (by decide), fun _ => by decide,
      fun h => absurd h (by decide), fun h => absurd h (by decide), fun h => absurd h (by decide),
      fun h => absurd h (by decide), trivial⟩
  obtain ⟨hinside, hbuffer, hlines⟩ := keyLoop_lines (transcript_typed keys)
  exact ⟨hinside, hbuffer, hlines hspares⟩

/-- 255 letters, a backspace and Enter. -/
def fullLineKeys : List (BitVec 16) := List.replicate 255 0x61 ++ [0x08, 13]

/-- A text read through a view is as long as the view. -/
theorem length_text {mem line : List Byte} {v : View} (h : v.text mem = .ok line) :
    line.length = v.size := by
  unfold View.text at h
  split at h
  · cases h
    rename_i hsize
    exact hsize.symm
  · cases hchars : v.chars mem with
    | error e =>
        rw [hchars] at h
        cases h
    | ok cs =>
        rw [hchars, Fault.ok_bind] at h
        split at h
        · cases h
          rename_i hsize
          rw [List.length_take, Nat.min_eq_left hsize]
        · cases h

/-- Lines that are read are as long as their views. -/
theorem sizes_of_texts {passed : List (List Byte × View)} {lines : List (List Byte)}
    (h : passed.map passedText = lines.map .ok) :
    passed.map (fun p => p.2.size) = lines.map List.length := by
  induction passed generalizing lines with
  | nil =>
      rw [List.map_eq_nil_iff.mp h.symm]
      rfl
  | cons p passed ih =>
      obtain ⟨line, rest, rfl, hline, hrest⟩ := List.map_eq_cons_iff.mp h.symm
      rw [List.map_cons, List.map_cons, ih hrest.symm, length_text hline.symm]

/-- The reference editor on letters, while the line has room. -/
theorem Editor.foldl_press_letters {n : Nat} {e : Editor} (h : e.held.length + n ≤ 255) :
    (List.replicate n 0x61).foldl Editor.press e =
      ⟨e.held ++ List.replicate n 0x61, e.lines⟩ := by
  induction n generalizing e with
  | zero => rw [List.replicate_zero, List.replicate_zero, List.append_nil]; rfl
  | succ n ih =>
      have htype : Editor.type e.held 0x61 = e.held ++ [0x61] :=
        (if_pos (by decide)).trans (if_pos (by omega))
      have hpress : e.press 0x61 = ⟨e.held ++ [0x61], e.lines⟩ :=
        (if_neg (by decide)).trans (by rw [htype])
      have hroom : (e.held ++ [0x61#8]).length + n ≤ 255 := by
        rw [List.length_append, List.length_singleton]
        omega
      rw [List.replicate_succ, List.foldl_cons, hpress, ih hroom, List.append_assoc]
      rfl

/-- All 255 letters are passed: the backspace came too late. -/
theorem keyLoop_ignores_backspace : ∃ tr r,
    (keyLoop fullLineKeys.length (.replicate 256 0)).run.Transcript tr r ∧
      (linesPassed tr).map passedText ≠
        ((keysRead tr).foldl Editor.press {}).lines.map .ok := by
  have hpassed : (linesPassed (typed fullLineKeys)).map (fun p => p.2.size) = [255] := by
    decide +kernel
  have hkeys : keysRead (typed fullLineKeys) = fullLineKeys := by
    decide +kernel
  have hreference : (fullLineKeys.foldl Editor.press {}).lines.map List.length = [254] := by
    have hlast : ∀ held, ([0x08, 13].foldl Editor.press ⟨held, []⟩).lines = [held.dropLast] :=
      fun _ => rfl
    rw [fullLineKeys, List.foldl_append, Editor.foldl_press_letters (by decide), hlast,
      List.map_singleton, List.length_dropLast, List.length_append, List.length_replicate]
    rfl
  refine ⟨_, _, transcript_typed fullLineKeys, fun h => ?_⟩
  have hsizes := sizes_of_texts h
  rw [hpassed, hkeys, hreference] at hsizes
  exact absurd hsizes (by decide)

end TinyOS64
