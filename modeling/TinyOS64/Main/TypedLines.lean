/-
  File:      TinyOS64/Main/TypedLines.lean
  Subject:   From the keys to the commands: the key loop's buffer as the memory of a line.

  `Commands::execute` reads a line out of the loop's buffer, where characters of earlier lines lie
  behind the 0. No command reads them (`execute_buffer`), so that a run of the key loop executes
  the lines of the reference editor, each as if it stood alone (`typed_executed`).
-/
import TinyOS64.Console.Session
import TinyOS64.Main.KeyLoop

namespace TinyOS64

open Interaction

/-- The memory of a line that more memory follows. -/
def lineBuffer (line beyond : List Byte) : List Byte := line ++ 0#8 :: beyond

/-! ## 1. The readers stop at the 0 -/

section Loops

variable (beyond l : List Byte)

theorem skipSpaces_buffer (size start : Nat) :
    skipSpaces size (l ++ 0#8 :: beyond) start = skipSpaces size (l ++ [0#8]) start := by
  induction l generalizing start with
  | nil => rfl
  | cons c l ih =>
      rw [List.cons_append, List.cons_append, skipSpaces, skipSpaces]
      simp only [ih]

theorem paramEnd_buffer (e : Nat) :
    paramEnd (e + l.length) (l ++ 0#8 :: beyond) e = paramEnd (e + l.length) (l ++ [0#8]) e := by
  induction l generalizing e with
  | nil =>
      rw [List.nil_append, List.nil_append, paramEnd, paramEnd]
      simp
  | cons c l ih =>
      have hlen : e + (c :: l).length = e + 1 + l.length := by
        simp only [List.length_cons]
        omega
      rw [List.cons_append, List.cons_append, paramEnd, paramEnd, hlen]
      simp only [ih]

theorem commandEnd_buffer (size last_idx : Nat) :
    commandEnd size (l ++ 0#8 :: beyond) last_idx = commandEnd size (l ++ [0#8]) last_idx := by
  induction l generalizing last_idx with
  | nil => rfl
  | cons c l ih =>
      rw [List.cons_append, List.cons_append, commandEnd, commandEnd]
      simp only [ih]

theorem valueLoop_buffer {isDigit : Byte → Bool} (h0 : isDigit 0#8 = false)
    (shiftIn : BitVec 64 → Byte → BitVec 64) (n : Nat) (value : BitVec 64) :
    valueLoop isDigit shiftIn n (l ++ 0#8 :: beyond) value =
      valueLoop isDigit shiftIn n (l ++ [0#8]) value := by
  induction l generalizing n value with
  | nil =>
      cases n with
      | zero => rfl
      | succ n =>
          rw [List.nil_append, List.nil_append, valueLoop, valueLoop, h0]
          rfl
  | cons c l ih =>
      cases n with
      | zero => rfl
      | succ n =>
          rw [List.cons_append, List.cons_append, valueLoop, valueLoop]
          simp only [ih]

theorem readString_buffer : readString (l ++ 0#8 :: beyond) = readString (l ++ [0#8]) := by
  induction l with
  | nil => rfl
  | cons c l ih =>
      rw [List.cons_append, List.cons_append, readString, readString]
      simp only [ih]

end Loops

section Readers

variable {line rest : List Byte} {n : Nat} (beyond : List Byte)

theorem chars_buffer (h : rest <:+ line) :
    (View.ofSuffix line rest n).chars (lineBuffer line beyond) = .ok (rest ++ 0#8 :: beyond) := by
  obtain ⟨front, rfl⟩ := h
  have hfront : (front ++ rest).length - rest.length = front.length := by simp
  simp only [View.ofSuffix, View.chars, lineBuffer, hfront, List.append_assoc]
  rw [List.drop_left]

theorem text_buffer (h : rest <:+ line) (hn : n ≤ rest.length) :
    (View.ofSuffix line rest n).text (lineBuffer line beyond) =
      (View.ofSuffix line rest n).text (lineMemory line) := by
  have hle : n ≤ (rest ++ 0#8 :: beyond).length := by
    rw [List.length_append]
    omega
  rw [ofSuffix_text h hn]
  unfold View.text
  rw [chars_buffer beyond h, ofSuffix_size, Fault.ok_bind, if_pos hle,
    List.take_append_of_le_length hn]
  split
  · rename_i h0
    rw [h0, List.take_zero]
  · rfl

theorem cString_buffer (h : rest <:+ line) :
    (View.ofSuffix line rest n).cString (lineBuffer line beyond) =
      (View.ofSuffix line rest n).cString (lineMemory line) := by
  unfold View.cString
  rw [chars_buffer beyond h, ofSuffix_chars h]
  exact readString_buffer beyond rest

theorem findNextParam_buffer (h : rest <:+ line) :
    findNextParam (lineBuffer line beyond) (.tail line rest) =
      findNextParam (lineMemory line) (.tail line rest) := by
  have hskip := skipSpaces_eq rest 0
  rw [Nat.zero_add] at hskip
  unfold findNextParam View.tail
  rw [chars_buffer beyond h, ofSuffix_chars h, ofSuffix_size, Fault.ok_bind, Fault.ok_bind,
    skipSpaces_buffer, hskip, Fault.ok_bind, Fault.ok_bind]
  by_cases hs : OnlySpaces rest
  · rw [if_pos hs]
  · have hlen := length_takeWhile_add isSpace rest
    have hend := paramEnd_buffer beyond (rest.dropWhile isSpace) (rest.takeWhile isSpace).length
    rw [hlen] at hend
    have hdrop : ∀ tail : List Byte, (rest ++ tail).drop (rest.takeWhile isSpace).length =
        rest.dropWhile isSpace ++ tail := fun tail => by
      rw [List.drop_append_of_le_length (by omega), drop_length_takeWhile]
    rw [if_neg hs]
    dsimp only
    rw [Nat.zero_add, hdrop, hdrop, hend]

theorem valueFromStr_buffer (h : rest <:+ line) :
    valueFromStr (lineBuffer line beyond) (View.ofSuffix line rest n) =
      valueFromStr (lineMemory line) (View.ofSuffix line rest n) := by
  unfold valueFromStr
  rw [chars_buffer beyond h, ofSuffix_chars h, Fault.ok_bind, Fault.ok_bind]
  cases rest with
  | nil =>
      -- the view begins at the 0, which is no digit
      have hdec : valueFromDecStr n (0#8 :: beyond) = valueFromDecStr n [0#8] := by
        unfold valueFromDecStr
        rw [← List.nil_append (0#8 :: beyond), ← List.nil_append [0#8],
          valueLoop_buffer beyond [] rfl]
      rw [ofSuffix_size]
      simp only [List.nil_append, hdec]
      rfl
  | cons c rest =>
      have hdec : valueFromDecStr n (c :: (rest ++ 0#8 :: beyond)) =
          valueFromDecStr n (c :: (rest ++ [0#8])) := by
        unfold valueFromDecStr
        rw [← List.cons_append, ← List.cons_append, valueLoop_buffer beyond (c :: rest) rfl]
      have hhex : valueFromHexStr n (rest ++ 0#8 :: beyond) =
          valueFromHexStr n (rest ++ [0#8]) := by
        unfold valueFromHexStr
        rw [valueLoop_buffer beyond rest rfl]
      rw [ofSuffix_size]
      simp only [List.cons_append, hdec, hhex]

end Readers

/-! ## 2. The handlers -/

section Handlers

variable {line rest : List Byte} (beyond : List Byte) {β : Type}

/-- The next parameter of a handler, found or not. -/
theorem next_buffer (h : rest <:+ line) {f f' : ParamResult → ConsoleM β} (hnull : f {} = f' {})
    (hparam : f ⟨.param line rest, .tail line (afterParam rest)⟩ =
      f' ⟨.param line rest, .tail line (afterParam rest)⟩) :
    (liftM (findNextParam (lineBuffer line beyond) (.tail line rest)) >>= f) =
      (liftM (findNextParam (lineMemory line) (.tail line rest)) >>= f') := by
  rw [findNextParam_buffer beyond h, findNextParam_eq h, liftM_ok_bind, liftM_ok_bind, nextResult]
  split
  · exact hnull
  · exact hparam

/-- The value of a parameter that was found. -/
theorem value_buffer (h : rest <:+ line) {f f' : Option (BitVec 64) → ConsoleM β}
    (hf : ∀ value, f value = f' value) :
    (liftM (valueFromStr (lineBuffer line beyond) (.param line rest)) >>= f) =
      (liftM (valueFromStr (lineMemory line) (.param line rest)) >>= f') := by
  rw [View.param, valueFromStr_buffer beyond ((List.dropWhile_suffix _).trans h)]
  exact bind_congr hf

/-- **The last parameter of a handler.** -/
theorem lastValue_buffer (h : rest <:+ line) {f f' : Option (BitVec 64) → ConsoleM β}
    (hf : ∀ value, f value = f' value) :
    (liftM (findNextParam (lineBuffer line beyond) (.tail line rest)) >>= fun r =>
        liftM (valueFromStr (lineBuffer line beyond) r.m_param) >>= f) =
      (liftM (findNextParam (lineMemory line) (.tail line rest)) >>= fun r =>
        liftM (valueFromStr (lineMemory line) r.m_param) >>= f') :=
  next_buffer beyond h (hf none) (value_buffer beyond h hf)

variable (codec : HDACodec)

theorem read_buffer (h : rest <:+ line) :
    cmdReadCodecRegister (lineBuffer line beyond) codec (.tail line rest) =
      cmdReadCodecRegister (lineMemory line) codec (.tail line rest) := by
  have hsuffix := (List.dropWhile_suffix (p := isSpace)).trans h
  unfold cmdReadCodecRegister
  refine next_buffer beyond h rfl ?_
  dsimp only
  rw [View.param, text_buffer beyond hsuffix (firstParam_le rest), cString_buffer beyond hsuffix]

theorem write_buffer (h : rest <:+ line) :
    cmdWriteCodecRegister (lineBuffer line beyond) codec (.tail line rest) =
      cmdWriteCodecRegister (lineMemory line) codec (.tail line rest) := by
  have hsuffix := (List.dropWhile_suffix (p := isSpace)).trans h
  unfold cmdWriteCodecRegister
  refine next_buffer beyond h rfl ?_
  refine lastValue_buffer beyond ((afterParam_suffix rest).trans h) fun value => ?_
  dsimp only
  rw [View.param, text_buffer beyond hsuffix (firstParam_le rest), cString_buffer beyond hsuffix]

theorem unmute_buffer (h : rest <:+ line) :
    cmdUnmute (lineBuffer line beyond) codec (.tail line rest) =
      cmdUnmute (lineMemory line) codec (.tail line rest) := by
  unfold cmdUnmute
  refine next_buffer beyond h rfl (value_buffer beyond h fun widgetID => ?_)
  exact lastValue_buffer beyond ((afterParam_suffix rest).trans h) fun channel => rfl

theorem nodeio_buffer (h : rest <:+ line) :
    cmdNodeIO (lineBuffer line beyond) codec (.tail line rest) =
      cmdNodeIO (lineMemory line) codec (.tail line rest) := by
  have hafter := (afterParam_suffix rest).trans h
  unfold cmdNodeIO
  refine next_buffer beyond h rfl (value_buffer beyond h fun widgetID => ?_)
  refine next_buffer beyond hafter rfl (value_buffer beyond hafter fun verb => ?_)
  exact lastValue_buffer beyond ((afterParam_suffix _).trans hafter) fun payload => rfl

theorem rdmem_buffer (h : rest <:+ line) :
    cmdReadMem (lineBuffer line beyond) codec (.tail line rest) =
      cmdReadMem (lineMemory line) codec (.tail line rest) := by
  unfold cmdReadMem
  refine next_buffer beyond h rfl (value_buffer beyond h fun addr => ?_)
  exact lastValue_buffer beyond ((afterParam_suffix rest).trans h) fun len => rfl

/-- **Each handler does the same.** -/
theorem m_func_buffer (h : rest <:+ line) (polls : Nat) (c : Command) :
    c.m_func polls (lineBuffer line beyond) codec (.tail line rest) =
      c.m_func polls (lineMemory line) codec (.tail line rest) := by
  cases c with
  | read => exact read_buffer beyond codec h
  | write => exact write_buffer beyond codec h
  | unmute => exact unmute_buffer beyond codec h
  | nodeio => exact nodeio_buffer beyond codec h
  | rdmem => exact rdmem_buffer beyond codec h
  | node | getformat | settextmode => exact lastValue_buffer beyond h fun value => rfl
  | refresh | playpos | showvideo | showtext | help => rfl

end Handlers

/-- Nor does it choose another command. -/
theorem invoked_buffer (line beyond : List Byte) :
    invoked (lineBuffer line beyond) ⟨some 0, line.length⟩ =
      invoked (lineMemory line) ⟨some 0, line.length⟩ := by
  have hwhole : (⟨some 0, line.length⟩ : View) = .tail line line := by
    simp [View.tail, View.ofSuffix]
  have hle : (line.takeWhile isAlpha).length ≤ line.length := (List.takeWhile_prefix _).length_le
  have hcommand : getCommand (lineBuffer line beyond) (.tail line line) =
      getCommand (lineMemory line) (.tail line line) := by
    unfold getCommand View.tail
    rw [chars_buffer beyond List.suffix_rfl, ofSuffix_chars List.suffix_rfl, Fault.ok_bind,
      Fault.ok_bind, commandEnd_buffer]
  unfold invoked
  rw [hwhole, hcommand, getCommand_eq, Fault.ok_bind, Fault.ok_bind,
    text_buffer beyond List.suffix_rfl hle]

/-- **What lies behind a line's 0 makes no difference to its command.** -/
theorem execute_buffer (polls : Nat) (codec : HDACodec) (line beyond : List Byte) :
    execute polls (lineBuffer line beyond) codec ⟨some 0, line.length⟩ =
      execute polls (lineMemory line) codec ⟨some 0, line.length⟩ := by
  rw [execute_invoked, execute_invoked, invoked_buffer, invoked_eq, liftM_ok_bind, liftM_ok_bind]
  cases commandOf line with
  | none => rfl
  | some c => exact m_func_buffer beyond codec (List.dropWhile_suffix _) polls c

/-! ## 3. The key loop -/

/-- The lines of the key loop executed as they are passed, out of the buffer. -/
def runPassed (polls : Nat) : List (List Byte × View) → HDACodec → ConsoleM HDACodec
  | [], codec => pure codec
  | (consoleBuffer, line) :: passed, codec => do
    let (_, codec) ← execute polls consoleBuffer codec line
    runPassed polls passed codec

/-- A line in the buffer: the memory is the line, its 0 and what lies behind. -/
theorem InBuffer.memory {passed : List Byte × View} (h : InBuffer passed) {line : List Byte}
    (hline : passedText passed = .ok line) :
    ∃ beyond, passed = (lineBuffer line beyond, ⟨some 0, line.length⟩) ∧ line.length ≤ 255 := by
  obtain ⟨mem, data, size⟩ := passed
  obtain ⟨hlen, hdata, hsize, h0⟩ := h
  dsimp only at hlen hdata hsize h0
  have hread : (⟨data, size⟩ : View).chars mem = .ok mem := by
    rw [hdata]
    rfl
  have htake : line = mem.take size := by
    rw [passedText, View.text, hread, Fault.ok_bind, if_pos (show size ≤ mem.length by omega)]
      at hline
    split at hline
    · rename_i hempty
      rw [show size = 0 from hempty, List.take_zero]
      exact (Except.ok.inj hline).symm
    · exact (Except.ok.inj hline).symm
  have hlength : line.length = size := by
    rw [htake, List.length_take]
    omega
  refine ⟨mem.drop (size + 1), ?_, by omega⟩
  have hget : size < mem.length := by omega
  have hdrop : mem.drop size = 0#8 :: mem.drop (size + 1) := by
    rw [List.getElem?_eq_getElem hget] at h0
    rw [List.drop_eq_getElem_cons hget, Option.some.inj h0]
    rfl
  rw [lineBuffer, htake, ← hdrop, List.take_append_drop, ← htake, hlength, hdata]

/-- The lines passed are executed as the lines that can be read of them. -/
theorem runPassed_eq (polls : Nat) {passed : List (List Byte × View)}
    (hbuffer : ∀ p ∈ passed, InBuffer p) {lines : List (List Byte)}
    (htext : passed.map passedText = lines.map .ok) (codec : HDACodec) :
    runPassed polls passed codec = runLines polls lines codec ∧
      ∀ line ∈ lines, line.length ≤ 255 := by
  induction passed generalizing lines codec with
  | nil =>
      have hnil : lines = [] := by simpa using htext.symm
      rw [hnil]
      exact ⟨rfl, fun line hline => absurd hline List.not_mem_nil⟩
  | cons p passed ih =>
      cases lines with
      | nil => cases htext
      | cons line lines =>
          obtain ⟨hline, htail⟩ := List.cons.inj htext
          obtain ⟨beyond, rfl, hshort⟩ := (hbuffer p List.mem_cons_self).memory hline
          have hrest := ih (fun p hp => hbuffer p (List.mem_cons_of_mem _ hp)) htail
          refine ⟨?_, ?_⟩
          · rw [runPassed, runLines, execute_buffer]
            exact congrArg _ (funext fun r => (hrest r.2).1)
          · intro line' hline'
            rcases List.mem_cons.mp hline' with rfl | hline'
            · exact hshort
            · exact (hrest codec).2 line' hline'

/-- **What is typed is what is executed**: in every run of the key loop in which no backspace comes
    while 255 characters are held, the commands do to the machine what the lines of the reference
    editor do, executed one after the other, and none of these has more than 255 characters. -/
theorem typed_executed {n : Nat} {consoleBuffer : Vector Byte 256} {tr : KeyTranscript}
    {r : Except Fault LineEditor} (h : (keyLoop n consoleBuffer).run.Transcript tr r)
    (hspares : Editor.SparesFullLine {} (keysRead tr)) (polls : Nat) (codec : HDACodec) :
    runPassed polls (linesPassed tr) codec =
        runLines polls ((keysRead tr).foldl Editor.press {}).lines codec ∧
      ∀ line ∈ ((keysRead tr).foldl Editor.press {}).lines, line.length ≤ 255 := by
  unfold keyLoop at h
  rw [transcript_print] at h
  obtain ⟨count, tr, rfl, h⟩ := h
  obtain ⟨s, rfl, _, hbuffer, hpress⟩ := keyTurns_spec (Nat.zero_le _) h
  obtain ⟨lines, hlines, htext⟩ := hpress {} rfl hspares
  have hkeys : (keysRead tr).foldl Editor.press {} = ⟨s.held, lines⟩ := hlines
  have hsame : linesPassed (⟨.print ">" [], count⟩ :: tr) = linesPassed tr ∧
      keysRead (⟨.print ">" [], count⟩ :: tr) = keysRead tr := ⟨rfl, rfl⟩
  rw [hsame.1, hsame.2, hkeys]
  exact runPassed_eq polls hbuffer htext codec

/-- `h`, a backspace, `p`, Enter: the line is `p`, whatever the buffer held. -/
theorem typed_executed_edited :
    runPassed 0 (linesPassed (typed [0x68, 8, 0x70, 13])) ⟨[], 0, 0, 0, 0, 0⟩ =
        runLines 0 ((keysRead (typed [0x68, 8, 0x70, 13])).foldl Editor.press {}).lines
          ⟨[], 0, 0, 0, 0, 0⟩ ∧
      ∀ line ∈ ((keysRead (typed [0x68, 8, 0x70, 13])).foldl Editor.press {}).lines,
        line.length ≤ 255 := by
  have hspares : Editor.SparesFullLine {} (keysRead (typed [0x68, 8, 0x70, 13])) :=
    ⟨fun h => absurd h (by decide), fun _ => by decide, fun h => absurd h (by decide),
      fun h => absurd h (by decide), trivial⟩
  exact typed_executed (transcript_typed [0x68, 8, 0x70, 13]) hspares 0 _

end TinyOS64
