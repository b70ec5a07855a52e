/-
  File:      TinyOS64/Console/NodeCommands.lean
  Subject:   The words nodeio and unmute send for the numbers of a line (commands.cpp).

  Both handlers read their numbers with `valueFromStr` and hand them to `sendVerb` unchecked:
  `nodeio` all three of them, `unmute` its node.
-/
import TinyOS64.Console.Grammar
import TinyOS64.Console.Numerals
import TinyOS64.Hda.Words

namespace TinyOS64

open Interaction WordFields

/-! ## 1. Lines of numerals -/

/-- A numeral of a console line, with the number it denotes. The console keeps 255 characters of
    a line. -/
structure Numeral where
  text : List Byte
  value : Nat
  denotes : numeral text = some value
  short : text.length < 2 ^ 32

theorem digitsOf_chars {b : Nat} {text : List Byte} {ds : List Nat}
    (h : digitsOf b text = some ds) : ∀ c ∈ text, isSpace c = false := by
  have all : ∀ c : Byte, (digitOf c).isSome → isSpace c = false := by decide +kernel
  induction text generalizing ds with
  | nil => exact fun c hc => absurd hc List.not_mem_nil
  | cons c cs ih =>
      rw [digitsOf_cons] at h
      obtain ⟨d, hd, h⟩ := Option.bind_eq_some_iff.mp h
      obtain ⟨ds', hds, _⟩ := Option.map_eq_some_iff.mp h
      intro c' hc'
      rcases List.mem_cons.mp hc' with rfl | hc'
      · refine all c' ?_
        obtain ⟨hdigit, _⟩ := Option.filter_eq_some_iff.mp hd
        exact Option.isSome_iff_exists.mpr ⟨d, hdigit⟩
      · exact ih hds c' hc'

theorem denotes_chars {b : Nat} {text : List Byte} {n : Nat} (h : denotes b text = some n) :
    ∀ c ∈ text, isSpace c = false := by
  unfold denotes at h
  split at h
  · cases h
  · obtain ⟨ds, hds, _⟩ := Option.map_eq_some_iff.mp h
    exact digitsOf_chars hds

/-- A numeral has no spaces. -/
theorem numeral_chars {text : List Byte} {n : Nat} (h : numeral text = some n) :
    ∀ c ∈ text, isSpace c = false := by
  cases text with
  | nil => cases h
  | cons c cs =>
      rw [numeral] at h
      split at h
      · rename_i hc
        intro c' hc'
        rcases List.mem_cons.mp hc' with rfl | hc'
        · rw [hc]
          decide
        · exact denotes_chars h c' hc'
      · exact denotes_chars h

namespace Numeral

variable (N : Numeral)

theorem text_ne_nil : N.text ≠ [] := by
  intro h
  have hden := N.denotes
  rw [h] at hden
  cases hden

/-- What follows a numeral of a line: nothing, or a space. -/
def Before (more : List Byte) : Prop := ∀ c ∈ more.head?, isSpace c = true

theorem before_nil : Before [] := fun c hc => by cases hc

theorem before_space (cs : List Byte) : Before (chr ' ' :: cs) := by
  intro c hc
  cases hc
  decide

variable {more : List Byte}

/-- **Behind a space a numeral is the first parameter.** -/
theorem firstParam_eq (hmore : Before more) :
    firstParam (chr ' ' :: (N.text ++ more)) = N.text ∧
      afterParam (chr ' ' :: (N.text ++ more)) = more := by
  have hchars := numeral_chars N.denotes
  have hskip : (chr ' ' :: (N.text ++ more)).dropWhile isSpace = N.text ++ more := by
    rw [List.dropWhile_cons_of_pos (by decide)]
    cases ht : N.text with
    | nil => exact absurd ht N.text_ne_nil
    | cons c cs =>
        have hc : isSpace c = false := hchars c (by rw [ht]; exact List.mem_cons_self)
        rw [List.cons_append, List.dropWhile_cons_of_neg (by rw [hc]; exact Bool.false_ne_true)]
  have hall : ∀ c ∈ N.text, (!isSpace c) = true := fun c hc => by rw [hchars c hc]; rfl
  unfold firstParam afterParam
  rw [hskip, List.takeWhile_append_of_pos hall, List.dropWhile_append_of_pos hall]
  cases more with
  | nil => exact ⟨List.append_nil _, rfl⟩
  | cons c cs =>
      have hc : (!isSpace c) = false := by rw [hmore c rfl]; rfl
      rw [List.takeWhile_cons_of_neg (by rw [hc]; exact Bool.false_ne_true),
        List.dropWhile_cons_of_neg (by rw [hc]; exact Bool.false_ne_true), List.append_nil]
      exact ⟨rfl, rfl⟩

/-- **A numeral read**: it is found, its value is its number modulo 2^64, and what follows it is
    left. -/
theorem read {line : List Byte} (h : chr ' ' :: (N.text ++ more) <:+ line)
    (hmore : Before more) :
    ∃ param, findNextParam (lineMemory line) (.tail line (chr ' ' :: (N.text ++ more))) =
        .ok ⟨param, .tail line more⟩ ∧
      valueFromStr (lineMemory line) param = .ok (some (BitVec.ofNat 64 N.value)) := by
  obtain ⟨hfirst, hafter⟩ := N.firstParam_eq hmore
  have hs : ¬ OnlySpaces (chr ' ' :: (N.text ++ more)) := by
    intro hs
    cases ht : N.text with
    | nil => exact N.text_ne_nil ht
    | cons c cs =>
        have hc : c ∈ N.text := by rw [ht]; exact List.mem_cons_self
        have hspace := hs.2 c (List.mem_cons_of_mem _ (List.mem_append_left _ hc))
        exact absurd (numeral_chars N.denotes c hc) (by rw [hspace]; exact Bool.noConfusion)
  refine ⟨_, by rw [findNextParam_param h hs, hafter], ?_⟩
  have hne : N.text ≠ [chr '$'] := by
    intro ht
    have hden := N.denotes
    rw [ht] at hden
    cases hden
  have hlen : (firstParam (chr ' ' :: (N.text ++ more))).length < 2 ^ 32 := by
    rw [hfirst]
    exact N.short
  unfold View.param
  rw [valueFromStr_eq ((List.dropWhile_suffix _).trans h) (firstParam_le _) hlen,
    firstParam_eq_take, hfirst, takenFor, if_neg hne, N.denotes]
  rfl

end Numeral

/-! ## 2. What a handler sends -/

/-- The words written to ICW in a run. -/
def wordsSent (tr : List (Σ o : ConsoleOp, o.Ans)) : List (BitVec 32) :=
  tr.filterMap fun e =>
    match e.1 with
    | .verb word => some word
    | _ => none

/-- Whatever the environment answers, the handler sends these words and returns this. -/
def Sends {α : Type} (p : ConsoleM α) (words : List (BitVec 32)) (a : α) : Prop :=
  ∀ tr r, p.run.Transcript tr r → wordsSent tr = words ∧ r = .ok a

/-- Every handler has a run. -/
theorem exists_transcript {α : Type} (p : ConsoleM α) : ∃ tr r, p.run.Transcript tr r := by
  have hrun : p.run.Outcome (fun _ _ => True) (p.run.answer Console.silent) :=
    Prog.outcome_of_answer (fun _ => trivial) p.run
  obtain ⟨tr, htr, _⟩ := Prog.outcome_iff_transcript.mp hrun
  exact ⟨tr, _, htr⟩

/-- The line `nodeio N V P`. -/
def nodeioLine (N V P : Numeral) : List Byte :=
  bytes "nodeio " ++ (N.text ++ chr ' ' :: (V.text ++ chr ' ' :: (P.text ++ [])))

/-- The line `unmute N C`. -/
def unmuteLine (N C : Numeral) : List Byte :=
  bytes "unmute " ++ (N.text ++ chr ' ' :: (C.text ++ []))

theorem nodeioLine_command (N V P : Numeral) : commandOf (nodeioLine N V P) = some .nodeio ∧
    (nodeioLine N V P).dropWhile isAlpha =
      chr ' ' :: (N.text ++ chr ' ' :: (V.text ++ chr ' ' :: (P.text ++ []))) :=
  command_line .nodeio _

theorem unmuteLine_command (N C : Numeral) : commandOf (unmuteLine N C) = some .unmute ∧
    (unmuteLine N C).dropWhile isAlpha = chr ' ' :: (N.text ++ chr ' ' :: (C.text ++ [])) :=
  command_line .unmute _

section Sends

variable (polls : Nat) (codec : HDACodec)

/-- The low 32 bits of a number read modulo 2^64. -/
theorem setWidth_ofNat (n : Nat) : (BitVec.ofNat 64 n).setWidth 32 = BitVec.ofNat 32 n :=
  BitVec.eq_of_toNat_eq (by simp)

/-- **nodeio sends one word**, put together from the low 32 bits of its three numbers, and
    returns true. -/
theorem nodeio_sends (N V P : Numeral) :
    Sends (execute polls (lineMemory (nodeioLine N V P)) codec
      ⟨some 0, (nodeioLine N V P).length⟩)
      [verbWord 0 (BitVec.ofNat 32 N.value) (BitVec.ofNat 32 V.value) (BitVec.ofNat 32 P.value)]
      (true, codec) := by
  obtain ⟨hcmd, hrest⟩ := nodeioLine_command N V P
  have h₁ : chr ' ' :: (N.text ++ chr ' ' :: (V.text ++ chr ' ' :: (P.text ++ []))) <:+
      nodeioLine N V P := ⟨bytes "nodeio", rfl⟩
  have h₂ : chr ' ' :: (V.text ++ chr ' ' :: (P.text ++ [])) <:+ nodeioLine N V P :=
    ((List.suffix_append _ _).trans (List.suffix_cons _ _)).trans h₁
  have h₃ : chr ' ' :: (P.text ++ []) <:+ nodeioLine N V P :=
    ((List.suffix_append _ _).trans (List.suffix_cons _ _)).trans h₂
  obtain ⟨_, hnext₁, hvalue₁⟩ := N.read h₁ (Numeral.before_space _)
  obtain ⟨_, hnext₂, hvalue₂⟩ := V.read h₂ (Numeral.before_space _)
  obtain ⟨_, hnext₃, hvalue₃⟩ := P.read h₃ Numeral.before_nil
  rw [execute_eq, hcmd, hrest]
  intro tr r htr
  change ( cmdNodeIO (lineMemory (nodeioLine N V P)) codec _).run.Transcript tr r at htr
  unfold cmdNodeIO at htr
  rw [hnext₁, liftM_ok_bind] at htr
  dsimp only at htr
  rw [hvalue₁, liftM_ok_bind, hnext₂, liftM_ok_bind] at htr
  dsimp only at htr
  rw [hvalue₂, liftM_ok_bind, hnext₃, liftM_ok_bind] at htr
  dsimp only at htr
  rw [hvalue₃, liftM_ok_bind] at htr
  simp only [Option.getD_some, setWidth_ofNat] at htr
  obtain ⟨_, _, rfl, htr⟩ := htr
  obtain ⟨result, _, rfl, htr⟩ := htr
  cases result with
  | none =>
      obtain ⟨_, _, rfl, rfl, rfl⟩ := htr
      exact ⟨rfl, rfl⟩
  | some result =>
      obtain ⟨_, _, rfl, rfl, rfl⟩ := htr
      exact ⟨rfl, rfl⟩

/-- **unmute sends two words**: both with the low 32 bits of its node, the first with the low four
    bits of its channel, and returns true. -/
theorem unmute_sends (N C : Numeral) {w : Widget}
    (hw : widgetAt codec (BitVec.ofNat 64 N.value) = .ok w) :
    Sends (execute polls (lineMemory (unmuteLine N C)) codec ⟨some 0, (unmuteLine N C).length⟩)
      [verbWord 0 (BitVec.ofNat 32 N.value) 0x0300
        (0x7000 ||| (((BitVec.ofNat 64 C.value &&& 0xF) <<< 8).setWidth 32) ||| gainSetting w),
       verbWord 0 (BitVec.ofNat 32 N.value) 0x0300 (0xB000 ||| gainSetting w)] (true, codec) := by
  obtain ⟨hcmd, hrest⟩ := unmuteLine_command N C
  have h₁ : chr ' ' :: (N.text ++ chr ' ' :: (C.text ++ [])) <:+ unmuteLine N C :=
    ⟨bytes "unmute", rfl⟩
  have h₂ : chr ' ' :: (C.text ++ []) <:+ unmuteLine N C :=
    ((List.suffix_append _ _).trans (List.suffix_cons _ _)).trans h₁
  obtain ⟨_, hnext₁, hvalue₁⟩ := N.read h₁ (Numeral.before_space _)
  obtain ⟨_, hnext₂, hvalue₂⟩ := C.read h₂ Numeral.before_nil
  rw [execute_eq, hcmd, hrest]
  intro tr r htr
  change (cmdUnmute (lineMemory (unmuteLine N C)) codec _).run.Transcript tr r at htr
  unfold cmdUnmute at htr
  rw [hnext₁, liftM_ok_bind] at htr
  dsimp only at htr
  rw [hvalue₁, liftM_ok_bind, hnext₂, liftM_ok_bind] at htr
  dsimp only at htr
  rw [hvalue₂, liftM_ok_bind] at htr
  simp only [Option.getD_some] at htr
  rw [hw, liftM_ok_bind] at htr
  simp only [setWidth_ofNat] at htr
  obtain ⟨_, _, rfl, htr⟩ := htr
  obtain ⟨_, _, rfl, htr⟩ := htr
  obtain ⟨_, _, rfl, rfl, rfl⟩ := htr
  exact ⟨rfl, rfl⟩

end Sends

/-! ## 3. nodeio -/

/-- The three numbers fit the fields of a verb word, and verb and payload do not overlap. -/
def FieldsFit (N V P : Nat) : Prop :=
  N < 256 ∧ V < 4096 ∧ P < 2 ^ 16 ∧ P &&& (V * 256) = 0

instance (N V P : Nat) : Decidable (FieldsFit N V P) :=
  inferInstanceAs (Decidable (_ ∧ _ ∧ _ ∧ _))

/-- **What `nodeio N V P` owes**: numbers that fit come out in their fields, and for others the
    command fails and nothing is sent. -/
def NodeIOExact (N V P : Nat) (p : ConsoleM (Bool × HDACodec)) : Prop :=
  ∀ tr r, p.run.Transcript tr r →
    if FieldsFit N V P then
      ∃ word, wordsSent tr = [word] ∧ word.toNat / 2 ^ 28 = 0 ∧
        word.toNat / 2 ^ 20 % 2 ^ 8 = N ∧ word.toNat % 2 ^ 20 = V * 256 + P
    else wordsSent tr = [] ∧ ∃ codec, r = .ok (false, codec)

/-- Numbers that fit are decoded from their word. -/
theorem FieldsFit.decodes {N V P : Nat} (h : FieldsFit N V P) :
    Decodes (verbWord 0 (BitVec.ofNat 32 N) (BitVec.ofNat 32 V) (BitVec.ofNat 32 P))
      (BitVec.ofNat 32 N) (BitVec.ofNat 32 V) (BitVec.ofNat 32 P) := by
  obtain ⟨hN, hV, hP, hapart⟩ := h
  have hnode : (BitVec.ofNat 32 N).toNat = N := toNat_ofNat_of_lt (by omega)
  have hverb : (BitVec.ofNat 32 V).toNat = V := toNat_ofNat_of_lt (by omega)
  have hpayload : (BitVec.ofNat 32 P).toNat = P := toNat_ofNat_of_lt (by omega)
  have hshift : (BitVec.ofNat 32 V <<< 8).toNat = V * 256 := by
    rw [toNat_shiftLeft_of_lt (by omega), hverb]
    rfl
  refine verbWord_decodes (by omega) (by omega) (by omega) (BitVec.eq_of_toNat_eq ?_)
  rw [BitVec.toNat_and, hshift, hpayload, Nat.and_comm, hapart]
  rfl

section NodeIO

variable (polls : Nat) (codec : HDACodec) (N V P : Numeral)

/-- Numbers that do not fit are sent all the same. -/
theorem nodeio_inexact (h : ¬ FieldsFit N.value V.value P.value) :
    ¬ NodeIOExact N.value V.value P.value (execute polls (lineMemory (nodeioLine N V P)) codec
      ⟨some 0, (nodeioLine N V P).length⟩) := by
  intro hexact
  obtain ⟨tr, r, htr⟩ := exists_transcript (execute polls (lineMemory (nodeioLine N V P)) codec
    ⟨some 0, (nodeioLine N V P).length⟩)
  have hnone := hexact tr r htr
  rw [if_neg h, (nodeio_sends polls codec N V P tr r htr).1] at hnone
  exact List.cons_ne_nil _ _ hnone.1

/-- **nodeio sends what it was told exactly when its numbers fit**: for all numerals, and whatever
    the environment answers. -/
theorem nodeio_exact_iff :
    NodeIOExact N.value V.value P.value (execute polls (lineMemory (nodeioLine N V P)) codec
      ⟨some 0, (nodeioLine N V P).length⟩) ↔ FieldsFit N.value V.value P.value := by
  refine ⟨fun h => ?_, fun hfit tr r htr => ?_⟩
  · by_contra hfit
    exact nodeio_inexact polls codec N V P hfit h
  · obtain ⟨hN, hV, hP, _⟩ := id hfit
    have hdec := hfit.decodes
    rw [if_pos hfit]
    refine ⟨_, (nodeio_sends polls codec N V P tr r htr).1, hdec.codecField, ?_, ?_⟩
    · rw [hdec.nodeField, toNat_ofNat_of_lt (by omega)]
    · rw [hdec.verbField, toNat_ofNat_of_lt (by omega), toNat_ofNat_of_lt (by omega)]
      rfl

end NodeIO

/-- `nodeio 256 $f00 0` is a verb for node 0 of codec 1. -/
theorem nodeio_other_codec : ¬ NodeIOExact 256 0xF00 0
    (execute 0 (lineMemory (bytes "nodeio 256 $f00 0")) ⟨[], 0x1000, 0x2000, 0x12000, 0x80, 0x100⟩
      ⟨some 0, (bytes "nodeio 256 $f00 0").length⟩) :=
  nodeio_inexact 0 _ ⟨bytes "256", 256, by decide, by decide⟩
    ⟨bytes "$f00", 0xF00, by decide, by decide⟩ ⟨bytes "0", 0, by decide, by decide⟩ (by decide)

end TinyOS64
