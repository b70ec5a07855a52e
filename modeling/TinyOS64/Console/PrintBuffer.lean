/-
  File:      TinyOS64/Console/PrintBuffer.lean
  Subject:   Which console lines make print store behind its buffer.

  The replies of `read` and `write` show the line from the register's name on, and a line can have
  255 characters; the buffer of `print` has 256 elements for name, value and terminator together.
  Every other print of a command fits, whatever the machine answers. `prints_fit_iff` puts this
  beside what keeps a line defined at all.
-/
import TinyOS64.Console.RegisterName
import TinyOS64.Console.SessionSafety

namespace TinyOS64

open Interaction

/-- The question is no print that stores behind the buffer. -/
def KeepsBuffer : ConsoleOp → Prop
  | .register (.print fmt va) => ∀ cell, PrintStaysInside cell (bytes fmt ++ [0#8]) va
  | _ => True

/-- The value `write` reads from the rest of a line: that of the second parameter. -/
def secondValue (mem : List Byte) (params : View) : Except Fault (Option (BitVec 64)) := do
  let regname ← findNextParam mem params
  let regvalue ← findNextParam mem regname.m_remainder
  valueFromStr mem regvalue.m_param

/-- **The line's reply is too long**: from the register's name to the end of the line there are
    more characters than the buffer has beside the rest of the reply, and there is a reply. -/
def LongReply (line : List Byte) : Prop :=
  let rest := line.dropWhile isAlpha
  (commandOf line = some .read ∧ 242 ≤ (shownName rest).length) ∨
    (commandOf line = some .write ∧ 241 ≤ (shownName rest).length ∧
      ∃ v, secondValue (lineMemory line) (.tail line rest) = .ok (some v))

/-- Such a line is long. -/
theorem LongReply.length {line : List Byte} (h : LongReply line) : 241 ≤ line.length := by
  have hname : (shownName (line.dropWhile isAlpha)).length ≤ line.length :=
    ((List.takeWhile_sublist _).trans ((List.dropWhile_sublist _).trans
      (List.dropWhile_sublist _))).length_le
  rcases h with h | h
  · exact (Nat.le_succ _).trans (h.2.trans hname)
  · exact h.2.1.trans hname

/-! ## 1. The replies -/

/-- A shown name holds no 0. -/
theorem cString_shownName (rest : List Byte) : cString (shownName rest) = shownName rest := by
  rw [cString, shownName, List.takeWhile_takeWhile]
  simp only [and_self, Bool.decide_eq_true]

/-- Ordinary characters match whatever follows them. -/
theorem matches_text {text : List Byte} (h0 : 0#8 ∉ text) (h : chr '%' ∉ text)
    (fmt : List Byte) (va : List Arg) : Matches (text ++ fmt) va ↔ Matches fmt va := by
  induction text with
  | nil => exact Iff.rfl
  | cons c text ih =>
      rw [List.mem_cons, not_or] at h0 h
      rw [List.cons_append, matches_plain (Ne.symm h0.1) (Ne.symm h.1), ih h0.2 h.2]

section Reply

variable (reply : Reply) (s : List Byte) (v : BitVec 64)

theorem reply_matches : Matches (bytes reply.format ++ [0#8]) [.str s, .u64 v] := by
  have hmark : 0#8 ∉ bytes reply.mark ∧ chr '%' ∉ bytes reply.mark := by
    cases reply <;> decide
  have hline : 0#8 ∉ bytes "\n\r" ∧ chr '%' ∉ bytes "\n\r" := by decide
  rw [format_parts, List.append_nil, List.cons_append, List.cons_append, List.append_assoc,
    matches_percent, matches_text hmark.1 hmark.2, List.cons_append, List.cons_append,
    matches_percent, matches_text hline.1 hline.2]
  exact ⟨rfl, rfl, matches_zero⟩

/-- The text is the name, and the mark, eight digits and a new line behind it. -/
theorem reply_length : (reference (bytes reply.format ++ [0#8]) [.str s, .u64 v]).length =
    (cString s).length + (reply.mark.length + 10) := by
  have htext : reference (bytes reply.format ++ [0#8]) [.str s, .u64 v] =
      reference (bytes reply.format) [.str s, .u64 v] :=
    render_terminated charCode [] (reply_matches reply s v)
  rw [htext, ← render_length widen, render_reply, replyText_length]

/-- **A reply fits exactly when the name leaves it room.** -/
theorem reply_keepsBuffer_iff : KeepsBuffer (.register (.print reply.format [.str s, .u64 v])) ↔
    (cString s).length + (reply.mark.length + 10) < 256 := by
  have hm := reply_matches reply s v
  have hlength := reply_length reply s v
  refine ⟨fun h => ?_, fun h cell => ?_⟩
  · by_contra hlong
    refine not_staysInside hm ?_ (h fun _ => 0)
    rw [hlength]
    exact Nat.le_of_not_lt hlong
  · obtain ⟨buffer, hp, ht, h0⟩ := print_eq cell hm
    rw [hlength] at hp ht h0
    refine ⟨buffer, _, hp, fun i hi => ?_, ?_, h0⟩
    · have := (ht i).mp hi
      show i < 256
      omega
    · show min 511 _ < 256
      omega

end Reply

/-! ## 2. The lines -/

section Line

variable {codec : HDACodec} {line rest : List Byte}

/-- A print that fits keeps to the buffer. -/
theorem PrintFits.keepsBuffer {o : ConsoleOp} (h : PrintFits o) : KeepsBuffer o := by
  cases o with
  | register o =>
      cases o with
      | print fmt va => exact h.staysInside
      | _ => exact h.elim
  | _ => exact h.elim

/-- What a command may print fits, but for a reply that is too long. -/
theorem may_keepsBuffer {c : Command} {o : ConsoleOp} (ho : May codec rest c o)
    (hread : c = .read → (shownName rest).length < 242)
    (hwrite : c = .write → (shownName rest).length < 241) : KeepsBuffer o := by
  cases ho with
  | shows h => exact h.keepsBuffer
  | readReply =>
      have hmark : Reply.read.mark.length = 4 := by decide
      have hshort := hread rfl
      refine (reply_keepsBuffer_iff .read _ _).mpr ?_
      rw [cString_shownName, hmark]
      omega
  | writeReply =>
      have hmark : Reply.write.mark.length = 5 := by decide
      have hshort := hwrite rfl
      refine (reply_keepsBuffer_iff .write _ _).mpr ?_
      rw [cString_shownName, hmark]
      omega
  | readRegister h | writeRegister h =>
      rename_i o
      cases o with
      | print => exact h.elim
      | _ => trivial
  | _ => trivial

/-- Characters to show are characters other than spaces. -/
theorem not_onlySpaces_of_shown (h : shownName rest ≠ []) : ¬ OnlySpaces rest := by
  intro hs
  have hnil : rest.dropWhile isSpace = [] := List.dropWhile_eq_nil_iff.mpr hs.2
  exact h (by rw [shownName, hnil]; rfl)

/-- `read` replies, whatever the register reads as. -/
theorem read_keepsBuffer (h : rest <:+ line) (hlong : 242 ≤ (shownName rest).length) :
    ¬ Confined KeepsBuffer (cmdReadCodecRegister (lineMemory line) codec (.tail line rest)) := by
  have hs : ¬ OnlySpaces rest :=
    not_onlySpaces_of_shown (List.ne_nil_of_length_pos (by omega))
  intro hconfined
  unfold cmdReadCodecRegister at hconfined
  rw [findNextParam_param h hs, liftM_ok_bind] at hconfined
  dsimp only at hconfined
  rw [param_text h, liftM_ok_bind] at hconfined
  have hasked := hconfined.asked Console.silent
  rw [asked_register, param_cString h, liftM_ok_bind] at hasked
  have hreply := hasked _ (List.mem_append_right _ List.mem_cons_self)
  have hroom := (reply_keepsBuffer_iff .read _ _).mp hreply
  have hname : cString ((rest.dropWhile isSpace).takeWhile (· ≠ 0#8)) = shownName rest :=
    cString_shownName rest
  have hmark : Reply.read.mark.length = 4 := by decide
  rw [hname, hmark] at hroom
  omega

/-- What `write` does once it has its two parameters. -/
theorem write_eq (h : rest <:+ line) (hs : ¬ OnlySpaces rest) :
    cmdWriteCodecRegister (lineMemory line) codec (.tail line rest) =
      ((liftM (secondValue (lineMemory line) (.tail line rest)) : ConsoleM _) >>= fun value =>
        (value.elim
          (do
            Console.print "Invalid value\n\r" []
            pure (false, codec))
          fun v => do
            Console.print "%s <= $%x\n\r" [.str (shownName rest), .u64 v]
            let written ← writeReg (firstParam rest) v
            pure (written, codec) : ConsoleM (Bool × HDACodec))) := by
  have hafter := (afterParam_suffix rest).trans h
  unfold cmdWriteCodecRegister secondValue
  rw [findNextParam_param h hs, liftM_ok_bind, Fault.ok_bind]
  dsimp only
  rw [findNextParam_eq hafter, liftM_ok_bind, Fault.ok_bind]
  cases valueFromStr (lineMemory line) (nextResult line (afterParam rest)).m_param with
  | error e => rfl
  | ok value =>
      cases value with
      | none => rfl
      | some v =>
          rw [liftM_ok_bind, liftM_ok_bind]
          dsimp only [Option.elim_some]
          rw [param_cString h, liftM_ok_bind, param_text h, shownName]
          rfl

/-- `write` replies to a value only. -/
theorem write_keepsBuffer_iff (h : rest <:+ line) :
    Confined KeepsBuffer (cmdWriteCodecRegister (lineMemory line) codec (.tail line rest)) ↔
      ¬ (241 ≤ (shownName rest).length ∧
        ∃ v, secondValue (lineMemory line) (.tail line rest) = .ok (some v)) := by
  by_cases hshort : (shownName rest).length < 241
  · refine iff_of_true ?_ fun hlong => absurd hlong.1 (Nat.not_le.mpr hshort)
    exact (write_confined codec h).mono fun o ho =>
      may_keepsBuffer ho (fun hc => by cases hc) fun _ => hshort
  have hlong : 241 ≤ (shownName rest).length := Nat.le_of_not_lt hshort
  have hs : ¬ OnlySpaces rest := not_onlySpaces_of_shown (List.ne_nil_of_length_pos (by omega))
  rw [write_eq h hs]
  cases hvalue : secondValue (lineMemory line) (.tail line rest) with
  | error e => exact iff_of_true trivial fun hlong => by cases hlong.2.choose_spec
  | ok value =>
      rw [liftM_ok_bind]
      cases value with
      | none =>
          refine iff_of_true ?_ fun hlong => by cases hlong.2.choose_spec
          have hinvalid : (Console.print "Invalid value\n\r" []).AsksOnly PrintFits :=
            print_shows [] (fits (by simp)) rfl
          exact confined_after (hinvalid.mono fun _ => PrintFits.keepsBuffer) fun _ =>
            confined_pure _
      | some v =>
          refine iff_of_false (fun hconfined => ?_) (not_not.mpr ⟨hlong, v, rfl⟩)
          have hreply := hconfined.asked Console.silent _ List.mem_cons_self
          have hroom := (reply_keepsBuffer_iff .write _ _).mp hreply
          have hmark : Reply.write.mark.length = 5 := by decide
          rw [cString_shownName, hmark] at hroom
          omega

/-- Every other line keeps to the buffer. -/
theorem execute_keepsBuffer (polls : Nat) (h : ¬ LongReply line) :
    Confined KeepsBuffer (execute polls (lineMemory line) codec ⟨some 0, line.length⟩) := by
  have hsuffix : line.dropWhile isAlpha <:+ line := List.dropWhile_suffix _
  rw [execute_eq]
  cases hc : commandOf line with
  | none => trivial
  | some c =>
      by_cases hwrite : c = .write
      · subst hwrite
        exact (write_keepsBuffer_iff hsuffix).mpr fun hlong => h (.inr ⟨hc, hlong⟩)
      · refine (m_func_confined codec hsuffix polls c).mono fun o ho =>
          may_keepsBuffer ho (fun hread => ?_) fun hc' => absurd hc' hwrite
        subst hread
        exact Nat.lt_of_not_le fun hlong => h (.inl ⟨hc, hlong⟩)

end Line

/-- A command's prints fit, but for those of `read` and `write` on a line that is too long to be
    shown; and for those lines they do not. -/
theorem execute_keepsBuffer_iff (polls : Nat) (codec : HDACodec) (line : List Byte) :
    Confined KeepsBuffer (execute polls (lineMemory line) codec ⟨some 0, line.length⟩) ↔
      ¬ LongReply line := by
  have hsuffix : line.dropWhile isAlpha <:+ line := List.dropWhile_suffix _
  refine ⟨fun hconfined hlong => ?_, execute_keepsBuffer polls⟩
  rcases hlong with ⟨hc, hlong⟩ | ⟨hc, hlong⟩
  · rw [execute_eq, hc] at hconfined
    exact read_keepsBuffer hsuffix hlong hconfined
  · rw [execute_eq, hc] at hconfined
    exact (write_keepsBuffer_iff hsuffix).mp hconfined hlong

/-- **Which lines stay defined and inside the buffer of `print`**: whatever the machine answers, the
    command reads, indexes and prints within bounds and none of its prints stores behind the buffer,
    exactly when the line misses no parameter, leads to nothing off the table and is not too long to
    be shown. -/
theorem prints_fit_iff (polls : Nat) (codec : HDACodec) {line : List Byte}
    (hlen : line.length < 2 ^ 32) :
    Spares Fault.Undefined (execute polls (lineMemory line) codec ⟨some 0, line.length⟩) ∧
        Confined KeepsBuffer (execute polls (lineMemory line) codec ⟨some 0, line.length⟩) ↔
      ¬ LineUndefined codec.m_widgets line ∧ ¬ LongReply line := by
  have hdefined := @execute_defined_iff polls codec line hlen
  have hfits := execute_keepsBuffer_iff polls codec line
  exact and_congr hdefined hfits

/-- A name one character too long. -/
theorem prints_fit_iff_long :
    let line := bytes "read " ++ List.replicate 242 (chr 'a')
    let codec : HDACodec := ⟨[], 0, 0, 0, 0, 0⟩
    Spares Fault.Undefined (execute 0 (lineMemory line) codec ⟨some 0, line.length⟩) ∧
        Confined KeepsBuffer (execute 0 (lineMemory line) codec ⟨some 0, line.length⟩) ↔
      ¬ LineUndefined codec.m_widgets line ∧ ¬ LongReply line := by
  intro line codec
  exact prints_fit_iff 0 codec (by decide +kernel)

end TinyOS64
