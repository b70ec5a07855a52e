/-
  File:      TinyOS64/Console/Grammar.lean
  Subject:   The grammar of a console line: a command's name, then parameters between spaces.

  * `invoked` -- the row of the table `execute` calls, and what it hands over;
  * `words` -- the maximal runs of characters other than spaces;
  * `nextParams` -- `findNextParam` called again and again on what it leaves, as `cmdTest` does;
  * `command_grammar` -- a line is its first word and the runs after it.
-/
import TinyOS64.Console.Commands

namespace TinyOS64

open Interaction

/-! ## 1. The command -/

theorem mem_g_commands (c : Command) : c ∈ g_commands := by cases c <;> decide

theorem name_injective {c c' : Command} (h : bytes c.name = bytes c'.name) : c = c' := by
  have hall : ∀ c ∈ g_commands, ∀ c' ∈ g_commands, bytes c.name = bytes c'.name → c = c' := by
    decide +kernel
  exact hall c (mem_g_commands c) c' (mem_g_commands c') h

/-- The row of the table a line's first word names. -/
def commandOf (line : List Byte) : Option Command :=
  g_commands.find? fun c => bytes c.name = line.takeWhile isAlpha

theorem commandOf_name {line : List Byte} {c : Command} (h : commandOf line = some c) :
    bytes c.name = line.takeWhile isAlpha := by
  unfold commandOf at h
  have hname := List.find?_some h
  exact of_decide_eq_true hname

theorem commandOf_eq_some {line : List Byte} {c : Command} :
    commandOf line = some c ↔ bytes c.name = line.takeWhile isAlpha := by
  refine ⟨commandOf_name, fun h => ?_⟩
  cases hfind : commandOf line with
  | none => exact absurd (decide_eq_true h) (List.find?_eq_none.mp hfind c (mem_g_commands c))
  | some c' => rw [name_injective ((commandOf_name hfind).trans h.symm)]

/-- **A command line**: a name and a space, and what follows. -/
theorem command_line (c : Command) (rest : List Byte) :
    commandOf (bytes c.name ++ chr ' ' :: rest) = some c ∧
      (bytes c.name ++ chr ' ' :: rest).dropWhile isAlpha = chr ' ' :: rest := by
  have hall : (bytes c.name).all isAlpha = true := by cases c <;> rfl
  have hname : ∀ x ∈ bytes c.name, isAlpha x = true := List.all_eq_true.mp hall
  have hspace : ¬ isAlpha (chr ' ') = true := by decide
  rw [commandOf_eq_some, List.takeWhile_append_of_pos hname, List.dropWhile_append_of_pos hname,
    List.takeWhile_cons_of_neg hspace, List.dropWhile_cons_of_neg hspace, List.append_nil]
  exact ⟨rfl, rfl⟩

/-- What `execute` invokes: a row of the table, on the rest of the line. -/
def invoked (mem : List Byte) (line : View) : Except Fault (Option (Command × View)) := do
  let cmd ← getCommand mem line
  let cmdText ← cmd.text mem
  pure ((g_commands.find? fun c => bytes c.name = cmdText).map fun c =>
    (c, line.sub cmd.size (line.size - cmd.size)))

/-- `execute` does what it invokes, and nothing else. -/
theorem execute_invoked (polls : Nat) (mem : List Byte) (codec : HDACodec) (line : View) :
    execute polls mem codec line = ((liftM (invoked mem line) : ConsoleM _) >>= fun call =>
      match call with
      | some (c, rest) => c.m_func polls mem codec rest
      | none => pure (false, codec)) := by
  unfold execute invoked
  cases getCommand mem line with
  | error e => rfl
  | ok cmd =>
      rw [liftM_ok_bind, Fault.ok_bind]
      cases cmd.text mem with
      | error e => rfl
      | ok cmdText =>
          rw [liftM_ok_bind, Fault.ok_bind]
          cases hfind : g_commands.find? fun c => bytes c.name = cmdText with
          | none => rfl
          | some c => rfl

/-- **The command of a line** is the row its longest alphabetic prefix names, on what follows. -/
theorem invoked_eq (line : List Byte) :
    invoked (lineMemory line) ⟨some 0, line.length⟩ =
      .ok ((commandOf line).map fun c => (c, .tail line (line.dropWhile isAlpha))) := by
  have hwhole : (⟨some 0, line.length⟩ : View) = .tail line line := by
    simp [View.tail, View.ofSuffix]
  have hle : (line.takeWhile isAlpha).length ≤ line.length := (List.takeWhile_prefix _).length_le
  have htext : line.take (line.takeWhile isAlpha).length = line.takeWhile isAlpha :=
    (List.prefix_iff_eq_take.mp (List.takeWhile_prefix _)).symm
  have hsub : (View.tail line line).sub (line.takeWhile isAlpha).length
      ((View.tail line line).size - (line.takeWhile isAlpha).length) =
        .tail line (line.dropWhile isAlpha) := by
    have hlen := length_takeWhile_add isAlpha line
    unfold View.tail
    rw [ofSuffix_sub List.suffix_rfl hle, drop_length_takeWhile, ofSuffix_size]
    congr 1
    omega
  unfold invoked
  rw [hwhole, getCommand_eq, Fault.ok_bind, ofSuffix_text List.suffix_rfl hle, htext,
    Fault.ok_bind, ofSuffix_size, hsub]
  rfl

/-- **execute**: the handler of the first word, on what follows the word. -/
theorem execute_eq (polls : Nat) (codec : HDACodec) (line : List Byte) :
    execute polls (lineMemory line) codec ⟨some 0, line.length⟩ =
      match commandOf line with
      | some c => c.m_func polls (lineMemory line) codec (.tail line (line.dropWhile isAlpha))
      | none => pure (false, codec) := by
  rw [execute_invoked, invoked_eq, liftM_ok_bind]
  cases commandOf line <;> rfl

/-! ## 2. The parameters -/

/-- The maximal runs of characters other than spaces. -/
def words (text : List Byte) : List (List Byte) := (text.splitOnP isSpace).filter (· ≠ [])

theorem words_space {c : Byte} (hc : isSpace c = true) (text : List Byte) :
    words (c :: text) = words text := by
  have h : (c :: text).splitOnP isSpace = [] :: text.splitOnP isSpace :=
    List.splitOnP_append_cons_of_forall_mem (List.forall_mem_nil _) c hc text
  rw [words, h]
  rfl

theorem words_dropWhile (text : List Byte) : words (text.dropWhile isSpace) = words text := by
  induction text with
  | nil => rfl
  | cons c text ih =>
      by_cases hc : isSpace c = true
      · rw [List.dropWhile_cons_of_pos hc, ih, words_space hc]
      · rw [List.dropWhile_cons_of_neg hc]

/-- Where `dropWhile` stops, the predicate fails. -/
theorem head_of_dropWhile {α : Type} {p : α → Bool} {l cs : List α} {c : α}
    (h : l.dropWhile p = c :: cs) : p c = false := by
  have hne : l.dropWhile p ≠ [] := by rw [h]; exact List.cons_ne_nil c cs
  have hhead := List.head_dropWhile_not p hne
  simpa only [h, List.head_cons] using hhead

/-- Without a first run there is none. -/
theorem words_nil {rest : List Byte} (h : firstParam rest = []) : words rest = [] := by
  rw [← words_dropWhile]
  cases hd : rest.dropWhile isSpace with
  | nil => rfl
  | cons c cs =>
      have hc : isSpace c = false := head_of_dropWhile hd
      rw [firstParam, hd, List.takeWhile_cons_of_pos (by simpa using hc)] at h
      cases h

/-- **The first run, and the runs behind it.** -/
theorem words_eq {rest : List Byte} (h : firstParam rest ≠ []) :
    words rest = firstParam rest :: words (afterParam rest) := by
  have hsplit : rest.dropWhile isSpace = firstParam rest ++ afterParam rest :=
    List.takeWhile_append_dropWhile.symm
  have hall : ∀ c ∈ firstParam rest, isSpace c = false := fun c hc => by
    simpa using List.mem_takeWhile_imp hc
  have hkeep : ∀ more : List (List Byte), (firstParam rest :: more).filter (· ≠ []) =
      firstParam rest :: more.filter (· ≠ []) := fun more =>
    List.filter_cons_of_pos (decide_eq_true h)
  rw [← words_dropWhile rest, hsplit]
  cases ha : afterParam rest with
  | nil =>
      rw [List.append_nil, words, List.splitOnP_eq_singleton hall, hkeep]
      rfl
  | cons c cs =>
      have hc : isSpace c = true := by simpa using head_of_dropWhile ha
      rw [words, List.splitOnP_append_cons_of_forall_mem hall c hc, hkeep,
        words_space hc]
      rfl

/-- `findNextParam` on `params` and on what it leaves, until a parameter is empty; `calls` bounds
    the calls. -/
def nextParams (mem : List Byte) : Nat → View → Except Fault (List View)
  | 0, _ => .error .unfinished
  | calls + 1, params => do
    let r ← findNextParam mem params
    if r.m_param.size = 0 then pure []
    else do
      let rest ← nextParams mem calls r.m_remainder
      pure (r.m_param :: rest)

section Params

variable {line rest : List Byte}

theorem afterParam_length (h : firstParam rest ≠ []) :
    (afterParam rest).length < rest.length := by
  have hskip := length_takeWhile_add isSpace rest
  have hparam := length_takeWhile_add (!isSpace ·) (rest.dropWhile isSpace)
  have hpos : 0 < (firstParam rest).length := List.length_pos_of_ne_nil h
  unfold firstParam afterParam at *
  omega

theorem firstParam_onlySpaces (h : OnlySpaces rest) : firstParam rest = [] := by
  have hnil : rest.dropWhile isSpace = [] := List.dropWhile_eq_nil_iff.mpr h.2
  rw [firstParam, hnil]
  rfl

/-- The last call: there is no parameter any more. -/
theorem nextParams_last (h : rest <:+ line) (hnone : firstParam rest = []) (calls : Nat) :
    nextParams (lineMemory line) (calls + 1) (.tail line rest) = .ok [] := by
  rw [nextParams]
  by_cases hs : OnlySpaces rest
  · rw [findNextParam_spaces h hs]
    rfl
  · rw [findNextParam_param h hs, Fault.ok_bind]
    have hsize : (View.param line rest).size = 0 := by
      rw [View.param, ofSuffix_size, hnone]
      rfl
    exact if_pos hsize

/-- One call more: the first run, and the calls on what is left. -/
theorem nextParams_more (h : rest <:+ line) (hsome : firstParam rest ≠ []) (calls : Nat) :
    nextParams (lineMemory line) (calls + 1) (.tail line rest) =
      (nextParams (lineMemory line) calls (.tail line (afterParam rest))).map
        (View.param line rest :: ·) := by
  have hs : ¬ OnlySpaces rest := fun hs => hsome (firstParam_onlySpaces hs)
  have hsize : ¬ (View.param line rest).size = 0 := by
    rw [View.param, ofSuffix_size]
    exact fun hlen => hsome (List.length_eq_zero_iff.mp hlen)
  rw [nextParams, findNextParam_param h hs, Fault.ok_bind]
  dsimp only
  rw [if_neg hsize]
  cases nextParams (lineMemory line) calls (.tail line (afterParam rest)) <;> rfl

/-- **The parameters of the rest of a line are its runs**, found with one call for each and one
    for the end. -/
theorem nextParams_words (n : Nat) (rest : List Byte) (hlen : rest.length < n)
    (h : rest <:+ line) : ∃ params : List View,
      params.map (View.text (lineMemory line)) = (words rest).map .ok ∧
      ∀ calls, nextParams (lineMemory line) calls (.tail line rest) =
        if (words rest).length < calls then .ok params else .error .unfinished := by
  induction n generalizing rest with
  | zero => exact absurd hlen (Nat.not_lt_zero _)
  | succ n ih =>
      by_cases hp : firstParam rest = []
      · rw [words_nil hp]
        refine ⟨[], rfl, fun calls => ?_⟩
        cases calls with
        | zero => rfl
        | succ calls =>
            rw [nextParams_last h hp]
            exact (if_pos (Nat.succ_pos calls)).symm
      · have hshort := afterParam_length hp
        obtain ⟨params, htext, hcalls⟩ :=
          ih (afterParam rest) (by omega) ((afterParam_suffix rest).trans h)
        rw [words_eq hp]
        refine ⟨View.param line rest :: params, ?_, fun calls => ?_⟩
        · rw [List.map_cons, List.map_cons, param_text h, htext]
        · cases calls with
          | zero => rfl
          | succ calls =>
              rw [nextParams_more h hp, hcalls, List.length_cons]
              simp only [Nat.succ_lt_succ_iff]
              split <;> rfl

/-- What `findNextParam` returns on the rest of a line. -/
def nextResult (line rest : List Byte) : ParamResult :=
  if OnlySpaces rest then {} else ⟨.param line rest, .tail line (afterParam rest)⟩

theorem findNextParam_eq (h : rest <:+ line) :
    findNextParam (lineMemory line) (.tail line rest) = .ok (nextResult line rest) := by
  unfold nextResult
  split
  · rename_i hs
    exact findNextParam_spaces h hs
  · rename_i hs
    exact findNextParam_param h hs

/-- What `cmdTest` prints for a parameter. -/
def printWord (word : List Byte) : ConsoleM Unit := do
  Console.print "'" []
  word.forM fun c => Console.print "%c" [.u32 (c.signExtend 32)]
  Console.print "' " []

/-- **The loop of cmdTest** prints the runs one after the other, and counts them. -/
theorem testParams_eq (turns : Nat) (rest : List Byte) (h : rest <:+ line)
    (hturns : (words rest).length < turns) (paramcount : Nat) :
    testParams (lineMemory line) turns (nextResult line rest) paramcount =
      ((words rest).forM printWord >>= fun _ => pure (paramcount + (words rest).length)) := by
  induction turns generalizing rest paramcount with
  | zero => exact absurd hturns (Nat.not_lt_zero _)
  | succ turns ih =>
      rw [testParams]
      by_cases hp : firstParam rest = []
      · have hsize : ¬ (nextResult line rest).m_param.size > 0 := by
          unfold nextResult
          split
          · exact Nat.lt_irrefl 0
          · rw [View.param, ofSuffix_size, hp]
            exact Nat.lt_irrefl 0
        rw [if_neg hsize, words_nil hp]
        rfl
      · have hs : ¬ OnlySpaces rest := fun hs => hp (firstParam_onlySpaces hs)
        have hsize : (nextResult line rest).m_param.size > 0 := by
          rw [nextResult, if_neg hs, View.param, ofSuffix_size]
          exact List.length_pos_of_ne_nil hp
        have hafter := (afterParam_suffix rest).trans h
        rw [words_eq hp, List.length_cons] at hturns
        have hrest := ih (afterParam rest) hafter (by omega) (paramcount + 1)
        have hcons : (firstParam rest :: words (afterParam rest)).forM printWord =
            (printWord (firstParam rest) >>= fun _ => (words (afterParam rest)).forM printWord) :=
          rfl
        rw [if_pos hsize, nextResult, if_neg hs, words_eq hp, hcons]
        dsimp only
        rw [param_text h, findNextParam_eq hafter]
        simp only [liftM_ok_bind, hrest, printWord, bind_assoc, List.length_cons]
        rw [Nat.add_right_comm, Nat.add_assoc]

/-- **cmdTest** prints each run of the rest of the line once, in order, and their number. -/
theorem cmdTest_eq (turns : Nat) (rest : List Byte) (codec : HDACodec) (h : rest <:+ line)
    (hturns : (words rest).length < turns) :
    cmdTest turns (lineMemory line) codec (.tail line rest) = (do
      Console.print "TEST! " []
      (words rest).forM printWord
      Console.print "\n\r  param count = %d\n\r" [.u64 (BitVec.ofNat 64 (words rest).length)]
      pure (true, codec)) := by
  unfold cmdTest
  rw [findNextParam_eq h]
  simp only [liftM_ok_bind, testParams_eq turns rest h hturns, bind_assoc, pure_bind, Nat.zero_add]

end Params

/-- **The grammar of a line**: `execute` invokes exactly the row that the longest alphabetic
    prefix names, on the rest of the line, and without such a row returns false and asks nothing;
    and the parameters of any rest of the line are its runs without spaces. -/
theorem command_grammar (polls : Nat) (codec : HDACodec) (line : List Byte) :
    (∀ c rest, invoked (lineMemory line) ⟨some 0, line.length⟩ = .ok (some (c, rest)) ↔
      bytes c.name = line.takeWhile isAlpha ∧ rest = .tail line (line.dropWhile isAlpha)) ∧
    (∀ c : Command, bytes c.name = line.takeWhile isAlpha →
      execute polls (lineMemory line) codec ⟨some 0, line.length⟩ =
        c.m_func polls (lineMemory line) codec (.tail line (line.dropWhile isAlpha))) ∧
    ((∀ c : Command, bytes c.name ≠ line.takeWhile isAlpha) →
      execute polls (lineMemory line) codec ⟨some 0, line.length⟩ = pure (false, codec)) ∧
    ∀ rest, rest <:+ line → ∃ params : List View,
      params.map (View.text (lineMemory line)) = (words rest).map .ok ∧
      ∀ calls, nextParams (lineMemory line) calls (.tail line rest) =
        if (words rest).length < calls then .ok params else .error .unfinished := by
  refine ⟨fun c rest => ?_, fun c hc => ?_, fun hnone => ?_, fun rest h => ?_⟩
  · rw [invoked_eq, ← commandOf_eq_some]
    cases commandOf line with
    | none => simp
    | some c' => simp [eq_comm]
  · rw [execute_eq, commandOf_eq_some.mpr hc]
  · rw [execute_eq]
    cases hc : commandOf line with
    | none => rfl
    | some c => exact absurd (commandOf_name hc) (hnone c)
  · exact nextParams_words (rest.length + 1) rest (Nat.lt_succ_self _) h

end TinyOS64
