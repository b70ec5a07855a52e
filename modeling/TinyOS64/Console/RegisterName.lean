/-
  File:      TinyOS64/Console/RegisterName.lean
  Subject:   The register name in the replies of read and write (commands.cpp).

  The handlers print the name with `%s` from where its view begins. The view ends with the name,
  the string ends with the line: `read` shows the name alone exactly when the line ends with it,
  `write` never (`registerName_shown_iff`).
-/
import TinyOS64.Console.RegisterCommands
import TinyOS64.Print.Rendering

namespace TinyOS64

open Interaction

/-! ## 1. The replies -/

/-- The two commands that reply with a register's name. -/
inductive Reply where
  | read | write
  deriving DecidableEq, Repr

namespace Reply

def command : Reply → Command
  | read => .read
  | write => .write

/-- The format string of the reply. -/
def format : Reply → String
  | read => "%s = $%x\n\r"
  | write => "%s <= $%x\n\r"

/-- What stands between the name and the digits. -/
def mark : Reply → String
  | read => " = $"
  | write => " <= $"

end Reply

/-- A reply that shows this name: the name, the mark, eight hexadecimal digits, a new line. -/
def replyText (reply : Reply) (name : List Byte) (v : Nat) : List WChar :=
  name.map widen ++ ((bytes reply.mark).map widen ++ (fixedHex 8 v ++ (bytes "\n\r").map widen))

/-- **What the replies owe**: whatever the registers answer, each of them shows the name and
    nothing else before its mark. -/
def ShowsName (reply : Reply) (name : List Byte) (R : ∀ o : ConsoleOp, o.Ans)
    (p : ConsoleM (Bool × HDACodec)) : Prop :=
  ∀ va, .register (.print reply.format va) ∈ p.run.asked R →
    ∃ v, render widen (bytes reply.format) va = replyText reply name v

/-! ## 2. The text of a reply -/

theorem widen_injective : Function.Injective widen := fun c c' h => by
  have hback := congrArg (BitVec.setWidth 8) h
  have hsame : ∀ c : Byte, (widen c).setWidth 8 = c := by decide +kernel
  simpa only [hsame] using hback

/-- The format string of a reply: a name, the mark, a number, a new line. -/
theorem format_parts (reply : Reply) : bytes reply.format =
    chr '%' :: chr 's' :: (bytes reply.mark ++ chr '%' :: chr 'x' :: (bytes "\n\r" ++ [])) := by
  cases reply <;> decide +kernel

theorem render_reply (reply : Reply) (s : List Byte) (v : BitVec 64) :
    render widen (bytes reply.format) [.str s, .u64 v] =
      replyText reply (cString s) (v.setWidth 32).toNat := by
  have hmark : 0#8 ∉ bytes reply.mark ∧ chr '%' ∉ bytes reply.mark := by
    cases reply <;> decide
  have hline : 0#8 ∉ bytes "\n\r" ∧ chr '%' ∉ bytes "\n\r" := by decide
  have hname : renderDirective widen (chr 's') [.str s, .u64 v] =
      ((cString s).map widen, [.u64 v]) := rfl
  have hnumber : renderDirective widen (chr 'x') [.u64 v] =
      (fixedHex 8 (v.setWidth 32).toNat, []) := rfl
  rw [format_parts, render_percent, hname, render_literal hmark.1 hmark.2, render_percent, hnumber,
    render_literal hline.1 hline.2, replyText]
  rw [render, List.append_nil]

theorem replyText_length (reply : Reply) (name : List Byte) (v : Nat) :
    (replyText reply name v).length = name.length + (reply.mark.length + 10) := by
  have hmark : (bytes reply.mark).length = reply.mark.length := by cases reply <;> decide
  simp only [replyText, List.length_append, List.length_map, hmark]
  rfl

/-- A reply shows one name. -/
theorem replyText_name {reply : Reply} {name name' : List Byte} {v v' : Nat}
    (h : replyText reply name v = replyText reply name' v') : name = name' := by
  have hlength := congrArg List.length h
  rw [replyText_length, replyText_length] at hlength
  have hnames := List.append_inj_left h (by simp only [List.length_map]; omega)
  exact List.map_injective_iff.mpr widen_injective hnames

/-- Read to a 0, the rest of a line is its first parameter exactly when the parameter ends the
    line and holds no 0 itself. -/
theorem cString_param_iff (rest : List Byte) :
    cString ((rest.dropWhile isSpace).takeWhile (· ≠ 0#8)) = firstParam rest ↔
      0#8 ∉ firstParam rest ∧ afterParam rest = [] := by
  have hsplit : rest.dropWhile isSpace = firstParam rest ++ afterParam rest :=
    List.takeWhile_append_dropWhile.symm
  have hnonzero : ∀ text : List Byte, 0#8 ∉ text → ∀ c ∈ text, decide (c ≠ 0#8) = true :=
    fun text h c hc => decide_eq_true fun e => h (e ▸ hc)
  rw [cString, List.takeWhile_takeWhile, hsplit]
  simp only [and_self, Bool.decide_eq_true]
  constructor
  · intro h
    have h0 : 0#8 ∉ firstParam rest := by
      intro hmem
      rw [← h] at hmem
      exact absurd (List.mem_takeWhile_imp hmem) (by decide)
    refine ⟨h0, ?_⟩
    rw [List.takeWhile_append_of_pos (hnonzero _ h0), List.append_right_eq_self] at h
    cases ha : afterParam rest with
    | nil => rfl
    | cons c cs =>
        have hc : isSpace c = true := by simpa using head_of_dropWhile ha
        rw [ha, isSpace_iff.mp hc, List.takeWhile_cons_of_pos (by decide)] at h
        cases h
  · intro h
    rw [h.2, List.append_nil, List.takeWhile_eq_self_iff]
    exact hnonzero _ h.1

/-! ## 3. The handlers -/

section Handlers

variable {line rest name : List Byte} {more : List (List Byte)}

/-- The question is not this reply. -/
def NoReply (reply : Reply) (o : MmioOp) : Prop := ∀ va, o ≠ .print reply.format va

theorem noReply_print {reply : Reply} {fmt : String} (h : reply.format ≠ fmt) (va : List Arg) :
    NoReply reply (.print fmt va) := fun _ e => h (MmioOp.print.inj e).1.symm

/-- A register read by name prints no reply of the handlers. -/
theorem readReg_noReply (reply : Reply) (regname : List Byte) :
    (readReg regname).AsksOnly (NoReply reply) := by
  have herror : NoReply reply (.print "ERROR: readReg cannot find register\n\r" []) :=
    noReply_print (by cases reply <;> decide) []
  unfold readReg
  dsimp only
  split
  · split
    · exact Prog.asksOnly_once fun _ => nofun
    · exact Prog.asksOnly_once fun _ => nofun
    · exact Prog.asksOnly_once fun _ => nofun
    · exact Prog.asksOnly_once herror
  · exact Prog.asksOnly_once herror

/-- Nor does one written by name. -/
theorem writeReg_noReply (reply : Reply) (regname : List Byte) (v : BitVec 64) :
    (writeReg regname v).AsksOnly (NoReply reply) := by
  have herror : NoReply reply (.print "ERROR: writeReg cannot find register\n\r" []) :=
    noReply_print (by cases reply <;> decide) []
  unfold writeReg
  dsimp only
  split
  · split
    · exact Prog.asksOnly_once fun _ => nofun
    · exact Prog.asksOnly_once fun _ => nofun
    · exact Prog.asksOnly_once fun _ => nofun
    · exact Prog.asksOnly_once herror
  · exact Prog.asksOnly_once herror

/-- The reply is none of a register program's questions. -/
theorem reply_not_asked {α : Type} {p : Prog Mmio α} {reply : Reply}
    (hp : p.AsksOnly (NoReply reply)) (R : ∀ o : ConsoleOp, o.Ans) (va : List Arg) :
    ConsoleOp.register (.print reply.format va) ∉ (liftM p : Prog Console α).asked R := by
  have honly : (liftM p : Prog Console α).AsksOnly fun o : ConsoleOp =>
      o ≠ .register (.print reply.format va) := by
    refine hp.lower fun o ho => ?_
    exact Prog.asksOnly_once fun e => ho va (ConsoleOp.register.inj e)
  exact fun h => honly.asked R _ h rfl

/-- The questions of a register program come before those of the rest. -/
theorem asked_register {α β : Type} (R : ∀ o : ConsoleOp, o.Ans) (p : Prog Mmio α)
    (f : α → ConsoleM β) : ((liftM p : ConsoleM α) >>= f).run.asked R =
      (liftM p : Prog Console α).asked R ++ (f ((liftM p : Prog Console α).answer R)).run.asked R := by
  have hrun : ((liftM p : ConsoleM α) >>= f).run =
      (liftM p : Prog Console α) >>= fun a => (f a).run := run_liftM_bind (liftM p) f
  rw [hrun, Prog.asked_bind]

/-- The one reply of a handler shows the name exactly when its string is the name. -/
theorem showsName_iff {reply : Reply} {R : ∀ o : ConsoleOp, o.Ans}
    {p : ConsoleM (Bool × HDACodec)} {s : List Byte} {v : BitVec 64}
    (h : ∀ va, ConsoleOp.register (.print reply.format va) ∈ p.run.asked R ↔
      va = [.str s, .u64 v]) : ShowsName reply name R p ↔ cString s = name := by
  refine ⟨fun hshows => ?_, fun hs va hva => ?_⟩
  · obtain ⟨v', htext⟩ := hshows _ ((h _).mpr rfl)
    rw [render_reply] at htext
    exact replyText_name htext
  · rw [(h va).mp hva, render_reply, hs]
    exact ⟨_, rfl⟩

variable (h : rest <:+ line) (codec : HDACodec) (R : ∀ o : ConsoleOp, o.Ans)

include h

/-- **`read NAME ..`** shows the line from NAME on. -/
theorem read_showsName (hwords : words rest = name :: more) :
    ShowsName .read name R (cmdReadCodecRegister (lineMemory line) codec (.tail line rest)) ↔
      0#8 ∉ firstParam rest ∧ afterParam rest = [] := by
  obtain ⟨hname, _, hs⟩ := words_cons hwords
  rw [← cString_param_iff, ← hname]
  refine showsName_iff (v := ((liftM (readReg (firstParam rest)) : Prog Console _).answer R))
    fun va => ?_
  have hread := reply_not_asked (readReg_noReply .read (firstParam rest)) R va
  unfold cmdReadCodecRegister
  rw [findNextParam_param h hs, liftM_ok_bind]
  dsimp only
  rw [param_text h, liftM_ok_bind, asked_register, param_cString h, liftM_ok_bind,
    List.mem_append, or_iff_right hread]
  refine List.mem_singleton.trans ⟨fun e => ?_, fun e => by rw [e]; rfl⟩
  exact (MmioOp.print.inj (ConsoleOp.register.inj e)).2

/-- `write NAME VALUE ..` replies with the name exactly to a VALUE it takes for a number. -/
theorem write_asks {value : List Byte} (hwords : words rest = name :: value :: more)
    (hlen : line.length < 2 ^ 32) (va : List Arg) :
    ConsoleOp.register (.print Reply.write.format va) ∈
        (cmdWriteCodecRegister (lineMemory line) codec (.tail line rest)).run.asked R ↔
      ∃ v, takenFor value = some v ∧
        va = [.str ((rest.dropWhile isSpace).takeWhile (· ≠ 0#8)), .u64 (BitVec.ofNat 64 v)] := by
  rw [cmdWriteCodecRegister_words h hwords hlen]
  cases takenFor value with
  | none =>
      refine ⟨fun hmem => ?_, fun ⟨v, hv, _⟩ => by cases hv⟩
      have hinvalid := MmioOp.print.inj (ConsoleOp.register.inj (List.mem_singleton.mp hmem))
      exact absurd hinvalid.1 (by decide)
  | some v =>
      have hwrite := reply_not_asked (writeReg_noReply .write name (BitVec.ofNat 64 v)) R va
      rw [Option.elim_some, run_liftM_bind, Prog.asked_bind, asked_register]
      refine ⟨fun hmem => ?_, fun ⟨v', hv, hva⟩ => ?_⟩
      · rcases List.mem_append.mp hmem with hmem | hmem
        · have hreply := MmioOp.print.inj (ConsoleOp.register.inj (List.mem_singleton.mp hmem))
          exact ⟨v, rfl, hreply.2⟩
        · rcases List.mem_append.mp hmem with hmem | hmem
          · exact absurd hmem hwrite
          · exact absurd hmem List.not_mem_nil
      · rw [hva, ← Option.some.inj hv]
        exact List.mem_append_left _ (List.mem_singleton.mpr rfl)

/-- **`write NAME VALUE ..`** shows NAME alone only if it shows nothing. -/
theorem write_showsName {value : List Byte} (hwords : words rest = name :: value :: more)
    (hlen : line.length < 2 ^ 32) :
    ShowsName .write name R (cmdWriteCodecRegister (lineMemory line) codec (.tail line rest)) ↔
      takenFor value = none := by
  have hasks := write_asks h codec R hwords hlen
  obtain ⟨hname, hwords, _⟩ := words_cons hwords
  cases hv : takenFor value with
  | none =>
      refine ⟨fun _ => rfl, fun _ va hva => ?_⟩
      obtain ⟨v, hv', _⟩ := (hasks va).mp hva
      rw [hv] at hv'
      cases hv'
  | some v =>
      refine ⟨fun hshows => ?_, fun hnone => by cases hnone⟩
      have hone := fun va => (hasks va).trans
        ⟨fun ⟨v', hv', hva⟩ => Option.some.inj (hv.symm.trans hv') ▸ hva, fun hva => ⟨v, hv, hva⟩⟩
      have hcString := (showsName_iff hone).mp hshows
      rw [← hname, cString_param_iff] at hcString
      rw [hcString.2] at hwords
      cases hwords

end Handlers

/-- The name's reply can show the name alone: `read` at the end of the line, with a name that holds
    no 0; `write` only when VALUE is no number to it, so that it replies without the name. -/
def NameAlone : Reply → List Byte → List (List Byte) → Prop
  | .read, rest, _ => 0#8 ∉ firstParam rest ∧ afterParam rest = []
  | .write, _, more => ∀ value ∈ more.head?, takenFor value = none

section Line

variable (polls : Nat) (codec : HDACodec) (R : ∀ o : ConsoleOp, o.Ans) {reply : Reply}
  {line name : List Byte} {more : List (List Byte)} (hcmd : commandOf line = some reply.command)
  (hwords : words (line.dropWhile isAlpha) = name :: more) (hvalue : reply = .write → more ≠ [])
  (hlen : line.length < 2 ^ 32)

include hcmd hwords hvalue hlen

/-- **The register name in a reply is the parameter, and nothing else of the line, exactly when**
    nothing follows it: for every line that is `read` and a name or `write`, a name and a value,
    whatever the registers answer. -/
theorem registerName_shown_iff :
    ShowsName reply name R (execute polls (lineMemory line) codec ⟨some 0, line.length⟩) ↔
      NameAlone reply (line.dropWhile isAlpha) more := by
  have hsuffix : line.dropWhile isAlpha <:+ line := List.dropWhile_suffix _
  rw [execute_eq, hcmd]
  cases reply with
  | read => exact read_showsName hsuffix codec R hwords
  | write =>
      cases more with
      | nil => exact absurd rfl (hvalue rfl)
      | cons value ignored =>
          refine (write_showsName hsuffix codec R hwords hlen).trans ?_
          exact ⟨fun h v hv => Option.some.inj hv ▸ h, fun h => h value rfl⟩

end Line

theorem registerName_shown_iff_gctl : ShowsName .read (bytes "gctl") Console.silent
      (execute 0 (lineMemory (bytes "read gctl")) ⟨[], 0, 0, 0, 0, 0⟩ ⟨some 0, 9⟩) ↔
    NameAlone .read ((bytes "read gctl").dropWhile isAlpha) [] := by
  have hwords : words ((bytes "read gctl").dropWhile isAlpha) = [bytes "gctl"] := by
    decide +kernel
  exact registerName_shown_iff 0 _ _ (by decide +kernel) hwords (fun h => by cases h) (by decide)

/-- `write gctl 1` replies `gctl 1 <= $00000001`. -/
theorem registerName_shows_line : ¬ ShowsName .write (bytes "gctl") Console.silent
    (execute 0 (lineMemory (bytes "write gctl 1")) ⟨[], 0, 0, 0, 0, 0⟩
      ⟨some 0, (bytes "write gctl 1").length⟩) := by
  have hcmd : commandOf (bytes "write gctl 1") = some .write := by decide +kernel
  have hwords : words ((bytes "write gctl 1").dropWhile isAlpha) = [bytes "gctl", bytes "1"] := by
    decide +kernel
  rw [execute_eq, hcmd]
  intro h
  have hnone := (write_showsName (List.dropWhile_suffix _) _ _ hwords (by decide)).mp h
  exact absurd hnone (by decide)

end TinyOS64
