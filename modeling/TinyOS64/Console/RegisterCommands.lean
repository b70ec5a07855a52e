/-
  File:      TinyOS64/Console/RegisterCommands.lean
  Subject:   The console's write and playpos on a plain register window (commands.cpp).

  `write` stores whatever number it reads, cut to the register, and reports success
  (`write_exact_iff`).
-/
import TinyOS64.Console.Grammar
import TinyOS64.Console.Numerals

namespace TinyOS64

open Interaction ByteMemory

/-! ## 1. The plain console -/

/-- **The console of a codec with a plain window**; nothing else answers. -/
def plainConsole : Prog.Device Console PlainState := fun o s =>
  match o with
  | .register o => plainWindow o s
  | .verb word => (Console.silent (.verb word), s)
  | .load32 address => (Console.silent (.load32 address), s)
  | .setMode modeNumber => (Console.silent (.setMode modeNumber), s)
  | .queryMode modeNumber => (Console.silent (.queryMode modeNumber), s)
  | .locateGraphics => (Console.silent .locateGraphics, s)
  | .queryGraphics modeNumber => (Console.silent (.queryGraphics modeNumber), s)

section Exec

variable {α β : Type} (s : PlainState)

/-- The driver's register programs run on it as on the window. -/
theorem exec_register (p : Prog Mmio α) (f : α → ConsoleM β) :
    ((liftM p : ConsoleM α) >>= f).run.exec plainConsole s =
      (f (p.exec plainWindow s).1).run.exec plainConsole (p.exec plainWindow s).2 := by
  have hlower : (liftM p : Prog Console α).exec plainConsole s = p.exec plainWindow s :=
    Prog.exec_lower (fun _ _ => rfl) p s
  have hrun : ((liftM p : ConsoleM α) >>= f).run =
      (liftM p : Prog Console α) >>= fun a => (f a).run := run_liftM_bind (liftM p) f
  rw [hrun, Prog.exec_bind, hlower]

theorem exec_consolePrint (fmt : String) (va : List Arg) (f : Unit → ConsoleM β) :
    ((liftM (Console.print fmt va) : ConsoleM Unit) >>= f).run.exec plainConsole s =
      (f ()).run.exec plainConsole s := rfl

end Exec

/-! ## 2. write -/

/-- The first word of the rest of a line, and the words behind it. -/
theorem words_cons {rest w : List Byte} {ws : List (List Byte)} (h : words rest = w :: ws) :
    firstParam rest = w ∧ words (afterParam rest) = ws ∧ ¬ OnlySpaces rest := by
  have hne : firstParam rest ≠ [] := by
    intro hnil
    rw [words_nil hnil] at h
    cases h
  rw [words_eq hne] at h
  obtain ⟨hw, hws⟩ := List.cons.inj h
  exact ⟨hw, hws, fun hs => hne (firstParam_onlySpaces hs)⟩

/-- The bytes of a register after `write` has stored the number it read. -/
def PlainState.stored (s : PlainState) (r : RegDef) (v : Nat) : PlainState :=
  { s with window := poke s.window r.offset r.width v }

section Write

variable {line rest value : List Byte} {more : List (List Byte)} {r : RegDef}

/-- A value of a line as `write` reads it. -/
theorem valueFromStr_word (h : rest <:+ line) (hword : firstParam rest = value)
    (hlen : line.length < 2 ^ 32) : valueFromStr (lineMemory line) (.param line rest) =
      .ok ((takenFor value).map (BitVec.ofNat 64)) := by
  have hshort : (firstParam rest).length < 2 ^ 32 := by
    have h₁ := firstParam_le rest
    have h₂ := ((List.dropWhile_suffix (p := isSpace)).trans h).length_le
    omega
  unfold View.param
  rw [valueFromStr_eq ((List.dropWhile_suffix _).trans h) (firstParam_le _) hshort,
    firstParam_eq_take, hword]

/-- `write` on the words NAME VALUE: the refusal, or the reply and the store. -/
theorem cmdWriteCodecRegister_words {name : List Byte} (h : rest <:+ line)
    (hwords : words rest = name :: value :: more) (hlen : line.length < 2 ^ 32)
    (codec : HDACodec) :
    cmdWriteCodecRegister (lineMemory line) codec (.tail line rest) =
      ((takenFor value).elim
        (do
          Console.print "Invalid value\n\r" []
          pure (false, codec))
        fun v => do
          Console.print "%s <= $%x\n\r"
            [.str ((rest.dropWhile isSpace).takeWhile (· ≠ 0#8)), .u64 (BitVec.ofNat 64 v)]
          let written ← writeReg name (BitVec.ofNat 64 v)
          pure (written, codec) : ConsoleM (Bool × HDACodec)) := by
  obtain ⟨hname, hwords, hs⟩ := words_cons hwords
  obtain ⟨hvalue, _, hs'⟩ := words_cons hwords
  have hafter := (afterParam_suffix rest).trans h
  unfold cmdWriteCodecRegister
  rw [findNextParam_param h hs, liftM_ok_bind]
  dsimp only
  rw [findNextParam_param hafter hs', liftM_ok_bind]
  dsimp only
  rw [valueFromStr_word hafter hvalue hlen, liftM_ok_bind]
  cases takenFor value with
  | none => rfl
  | some v =>
      dsimp only [Option.map_some, Option.elim_some]
      rw [param_cString h, liftM_ok_bind, param_text h, liftM_ok_bind, hname]

/-- **What `write NAME VALUE` does**: the number it takes VALUE for is stored, cut to 64 bits and
    then to the register, and the command succeeds; without a number it fails. -/
theorem exec_write (hr : r ∈ regs) (h : rest <:+ line)
    (hwords : words rest = bytes r.name :: value :: more) (hlen : line.length < 2 ^ 32)
    (codec : HDACodec) (s : PlainState) :
    (cmdWriteCodecRegister (lineMemory line) codec (.tail line rest)).run.exec plainConsole s =
      match takenFor value with
      | some v => (.ok (true, codec), s.stored r (BitVec.ofNat 64 v).toNat)
      | none => (.ok (false, codec), s) := by
  rw [cmdWriteCodecRegister_words h hwords hlen]
  cases takenFor value with
  | none => rfl
  | some v =>
      rw [Option.elim_some, exec_consolePrint, exec_register, exec_writeReg (getReg_name hr)]
      rfl

/-- **What `write NAME VALUE` owes**: after a success the register reads as the number VALUE
    denotes; a VALUE that is no number, or one that does not fit the register, is refused and the
    window stays as it is. -/
structure WriteExact (r : RegDef) (value : List Byte) (p : ConsoleM (Bool × HDACodec))
    (s : PlainState) : Prop where
  written : ∀ codec, (p.run.exec plainConsole s).1 = .ok (true, codec) →
    ∃ v, numeral value = some v ∧
      ((readReg (bytes r.name)).exec plainWindow (p.run.exec plainConsole s).2).1.toNat = v
  refused : (∀ v, numeral value = some v → 256 ^ r.width ≤ v) →
    (∃ codec, (p.run.exec plainConsole s).1 = .ok (false, codec)) ∧
      (p.run.exec plainConsole s).2.window = s.window

/-- A register reads as the number stored, cut to its width. -/
theorem readReg_stored (hr : r ∈ regs) (s : PlainState) (v : Nat) :
    ((readReg (bytes r.name)).exec plainWindow
      (s.stored r (BitVec.ofNat 64 v).toNat)).1.toNat = v % 256 ^ r.width := by
  have hdvd : 256 ^ r.width ∣ 2 ^ 64 := by
    rcases regs_width r hr with hw | hw | hw <;> rw [hw] <;> decide
  have hlt : v % 256 ^ r.width < 2 ^ 64 :=
    Nat.lt_of_lt_of_le (Nat.mod_lt _ (by positivity)) (Nat.le_of_dvd (by decide) hdvd)
  rw [exec_readReg (getReg_name hr), PlainState.stored, peek_poke_same, BitVec.toNat_ofNat,
    BitVec.toNat_ofNat, Nat.mod_mod_of_dvd _ hdvd, Nat.mod_eq_of_lt hlt]

section Line

variable (polls : Nat) (codec : HDACodec) (s : PlainState) (hr : r ∈ regs)
  (hcmd : commandOf line = some .write)
  (hwords : words (line.dropWhile isAlpha) = bytes r.name :: value :: more)
  (hlen : line.length < 2 ^ 32)

include hr hcmd hwords hlen

/-- The whole line, from its first character on. -/
theorem exec_writeLine :
    (execute polls (lineMemory line) codec ⟨some 0, line.length⟩).run.exec plainConsole s =
      match takenFor value with
      | some v => (.ok (true, codec), s.stored r (BitVec.ofNat 64 v).toNat)
      | none => (.ok (false, codec), s) := by
  rw [execute_eq, hcmd]
  exact exec_write hr (List.dropWhile_suffix _) hwords hlen codec s

/-- What is taken for a number is stored, so it must not be one to be refused. -/
theorem write_fits
    (h : WriteExact r value (execute polls (lineMemory line) codec ⟨some 0, line.length⟩) s) :
    value ≠ [chr '$'] ∧ ∀ v, numeral value = some v → v < 256 ^ r.width := by
  have hexec := exec_writeLine polls codec s hr hcmd hwords hlen
  have hnot : ∀ v, takenFor value = some v →
      ¬ ∀ v, numeral value = some v → 256 ^ r.width ≤ v := by
    intro v hv hbad
    obtain ⟨⟨_, hfalse⟩, _⟩ := h.refused hbad
    rw [hexec, hv] at hfalse
    cases hfalse
  refine ⟨fun hdollar => ?_, fun v hv => ?_⟩
  · subst hdollar
    exact hnot 0 rfl fun v hv => by cases hv
  · by_contra hge
    have htaken : takenFor value = some v := by
      rw [takenFor, if_neg (fun hdollar => by rw [hdollar] at hv; cases hv), hv]
    refine hnot v htaken fun v' hv' => ?_
    rw [hv, Option.some.injEq] at hv'
    omega

/-- **`write` is exact exactly for values other than the bare `$` that, as numbers, fit the
    register**: on every line that is `write`, a register's name and the value. -/
theorem write_exact_iff :
    WriteExact r value (execute polls (lineMemory line) codec ⟨some 0, line.length⟩) s ↔
      value ≠ [chr '$'] ∧ ∀ v, numeral value = some v → v < 256 ^ r.width := by
  refine ⟨write_fits polls codec s hr hcmd hwords hlen, fun h => ?_⟩
  obtain ⟨hdollar, hfits⟩ := h
  have hexec := exec_writeLine polls codec s hr hcmd hwords hlen
  have htaken : takenFor value = numeral value := if_neg hdollar
  rw [htaken] at hexec
  cases hv : numeral value with
  | none =>
      rw [hv] at hexec
      refine ⟨fun codec' htrue => ?_, fun _ => ⟨⟨codec, by rw [hexec]⟩, by rw [hexec]⟩⟩
      rw [hexec] at htrue
      cases htrue
  | some v =>
      rw [hv] at hexec
      refine ⟨fun codec' _ => ⟨v, hv, ?_⟩, fun hbad => ?_⟩
      · rw [hexec]
        dsimp only
        rw [readReg_stored hr, Nat.mod_eq_of_lt (hfits v hv)]
      · have hlt := hfits v hv
        have hge := hbad v hv
        omega

end Line

theorem write_exact_iff_ics : WriteExact ⟨0x68, 2, "ics"⟩ (bytes "9")
    (execute 0 (lineMemory (bytes "write ics 9")) ⟨[], 0, 0, 0, 0, 0⟩ ⟨some 0, 11⟩)
    ⟨fun _ => 0, fun _ => 0⟩ := by
  have hwords : words ((bytes "write ics 9").dropWhile isAlpha) = [bytes "ics", bytes "9"] := by
    decide +kernel
  have hnumeral : numeral (bytes "9") = some 9 := by decide
  refine (write_exact_iff 0 _ _ (by decide) (by decide +kernel) hwords (by decide)).mpr
    ⟨by decide, fun v hv => ?_⟩
  rw [hnumeral, Option.some.injEq] at hv
  subst hv
  decide

/-- `write vmin 256` stores 0 and succeeds. -/
theorem write_cuts : ¬ WriteExact ⟨0x02, 1, "vmin"⟩ (bytes "256")
    (execute 0 (lineMemory (bytes "write vmin 256")) ⟨[], 0, 0, 0, 0, 0⟩ ⟨some 0, 14⟩)
    ⟨fun _ => 0, fun _ => 0⟩ := by
  have hwords : words ((bytes "write vmin 256").dropWhile isAlpha) =
      [bytes "vmin", bytes "256"] := by decide +kernel
  intro h
  have hfits := (write_fits 0 _ _ (by decide) (by decide +kernel) hwords (by decide) h).2
  exact absurd (hfits 256 (by decide)) (by decide)

end Write

end TinyOS64
