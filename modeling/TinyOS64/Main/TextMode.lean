/-
  File:      TinyOS64/Main/TextMode.lean
  Subject:   setHighResolutionTextMode (main.cpp): the search for the text mode with most rows.

  The loop asks mode after mode and ends at the first number that cannot be queried. It keeps the
  first of the modes with most rows among those before that number; the firmware's best mode it
  finds exactly when no mode behind the number has more rows (`textMode_best_iff`).
-/
import TinyOS64.Lib.Interaction
import TinyOS64.Print.Format
import Mathlib.Algebra.Ring.Nat
import Mathlib.Data.List.MinMax

namespace TinyOS64

open Interaction

/-! ## 1. The program -/

/-- The questions to the text console's protocol, and `print`. -/
inductive TextOp where
  | queryMode (modeNumber : BitVec 64)
  | setMode (modeNumber : BitVec 64)
  | clearScreen
  | enableCursor (visible : BitVec 8)
  | print (fmt : String) (va : List Arg)

/-- Their answers: a status, for `queryMode` with columns and rows. -/
@[reducible] def TextOp.Ans : TextOp → Type
  | queryMode _ => BitVec 64 × BitVec 64 × BitVec 64
  | setMode _ | clearScreen | enableCursor _ => BitVec 64
  | print .. => Nat

/-- The signature of programs on the text console. -/
@[reducible] def TextOutput : Sig := ⟨TextOp, TextOp.Ans⟩

def TextOutput.ask (o : TextOp) : Prog TextOutput o.Ans := .ask (S := TextOutput) o .ret

/-- The locals `bestMode`, `bestRows` and `bestCols`. -/
structure BestMode where
  bestMode : BitVec 64 := 0
  bestRows : BitVec 64 := 0
  bestCols : BitVec 64 := 0

/-- The body of the loop. -/
def BestMode.consider (best : BestMode) (mode cols rows : BitVec 64) : BestMode :=
  if best.bestRows < rows then ⟨mode, rows, cols⟩ else best

/-- The query and the loop from `mode` on; none when `polls` queries were not enough. -/
def searchTextModes : Nat → BitVec 64 → BestMode → Prog TextOutput (Option BestMode)
  | 0, _, _ => pure none
  | polls + 1, mode, best => do
    let (status, cols, rows) ← TextOutput.ask (.queryMode mode)
    if status = 0 then searchTextModes polls (mode + 1) (best.consider mode cols rows)
    else pure (some best)

/-- What follows the loop. -/
def useTextMode (best : BestMode) : Prog TextOutput Unit := do
  let _ ← TextOutput.ask (.setMode best.bestMode)
  let _ ← TextOutput.ask .clearScreen
  let _ ← TextOutput.ask (.enableCursor 1)
  let _ ← TextOutput.ask (.print "Console: %d x %d\n\r" [.u64 best.bestCols, .u64 best.bestRows])

/-- `setHighResolutionTextMode`. -/
def setHighResolutionTextMode (polls : Nat) : Prog TextOutput (Option Unit) := do
  match ← searchTextModes polls 0 {} with
  | none => pure none
  | some best =>
    useTextMode best
    pure (some ())

/-! ## 2. The firmware's table -/

/-- The text modes of a firmware: columns and rows of the numbers it supports, all below
    `maxMode`. -/
structure TextModes where
  maxMode : BitVec 64
  query : BitVec 64 → Option (BitVec 64 × BitVec 64)
  bounded : ∀ mode, (query mode).isSome → mode < maxMode

namespace TextModes

variable (t : TextModes)

/-- `queryMode` succeeds on the supported numbers and on no other. -/
structure Answers (R : ∀ o : TextOp, o.Ans) : Prop where
  supported : ∀ mode cols rows, t.query mode = some (cols, rows) →
    R (.queryMode mode) = (0, cols, rows)
  unsupported : ∀ mode, t.query mode = none → (R (.queryMode mode)).1 ≠ 0

/-- The rows of a mode, 0 for a number that is not supported. -/
def rows (k : Nat) : Nat := ((t.query (BitVec.ofNat 64 k)).map fun size => size.2.toNat).getD 0

/-- The number is supported, no supported one has more rows, and none with as many comes first. -/
def Best (mode : BitVec 64) : Prop :=
  (t.query mode).isSome ∧ ∀ other, (t.query other).isSome →
    t.rows other.toNat ≤ t.rows mode.toNat ∧
      (t.rows other.toNat = t.rows mode.toNat → mode ≤ other)

/-- Every number up to this one is supported. -/
def Reached (mode : BitVec 64) : Prop := ∀ before, before ≤ mode → (t.query before).isSome

end TextModes

/-- The modes set in a run. -/
def modesSet (ops : List TextOp) : List (BitVec 64) :=
  ops.filterMap fun o =>
    match o with
    | .setMode mode => some mode
    | _ => none

/-- **What the search owes**: it sets one mode, the best one of the table. -/
def SetsBest (t : TextModes) (ops : List TextOp) : Prop :=
  ∃ mode, modesSet ops = [mode] ∧ t.Best mode

/-! ## 3. The loop -/

/-- The first of the largest values of an initial segment. -/
theorem argmax_range_iff (f : Nat → Nat) {n m : Nat} : (List.range n).argmax f = some m ↔
    m < n ∧ (∀ k < n, f k ≤ f m) ∧ ∀ k < n, f m ≤ f k → m ≤ k := by
  have hidx : ∀ k, k < n → (List.range n).idxOf k = k := fun k hk => by
    have h := List.nodup_range.idxOf_getElem k (by rw [List.length_range]; exact hk)
    rwa [List.getElem_range] at h
  rw [List.argmax_eq_some_iff]
  simp only [List.mem_range]
  refine ⟨fun ⟨hm, hmax, hfirst⟩ => ⟨hm, hmax, fun k hk hle => ?_⟩,
    fun ⟨hm, hmax, hfirst⟩ => ⟨hm, hmax, fun k hk hle => ?_⟩⟩
  · have h := hfirst k hk hle
    rwa [hidx m hm, hidx k hk] at h
  · rw [hidx m hm, hidx k hk]
    exact hfirst k hk hle

/-- The loop's locals after the modes below `n`: the first one with most rows. -/
structure Considered (t : TextModes) (n : Nat) (best : BestMode) : Prop where
  mode : (List.range n).argmax t.rows = some best.bestMode.toNat
  rows : best.bestRows.toNat = t.rows best.bestMode.toNat

section Loop

variable {t : TextModes} {best : BestMode} {n : Nat}

/-- **One turn of the loop.** -/
theorem Considered.consider (h : Considered t n best) {cols rows : BitVec 64} (hn : n < 2 ^ 64)
    (hquery : t.query (BitVec.ofNat 64 n) = some (cols, rows)) :
    Considered t (n + 1) (best.consider (BitVec.ofNat 64 n) cols rows) := by
  have hrows : t.rows n = rows.toNat := by rw [TextModes.rows, hquery]; rfl
  have hnat : (BitVec.ofNat 64 n).toNat = n := by rw [BitVec.toNat_ofNat, Nat.mod_eq_of_lt hn]
  have hargmax : (List.range (n + 1)).argmax t.rows =
      if t.rows best.bestMode.toNat < t.rows n then some n else some best.bestMode.toNat := by
    rw [List.range_succ, List.argmax_concat, h.mode]
  have hless : best.bestRows < rows ↔ t.rows best.bestMode.toNat < t.rows n := by
    rw [BitVec.lt_def, h.rows, hrows]
  unfold BestMode.consider
  split
  · rename_i hmore
    refine ⟨?_, by dsimp only; rw [hnat, hrows]⟩
    dsimp only
    rw [hargmax, if_pos (hless.mp hmore), hnat]
  · rename_i hless'
    exact ⟨by rw [hargmax, if_neg fun hmore => hless' (hless.mpr hmore)], h.rows⟩

/-- The first turn starts from the initial values of the locals. -/
theorem considered_first {cols rows : BitVec 64} (hquery : t.query 0 = some (cols, rows)) :
    Considered t 1 (BestMode.consider {} 0 cols rows) := by
  have hrows : t.rows 0 = rows.toNat := by
    rw [TextModes.rows]
    exact congrArg (fun q => (q.map fun size => size.2.toNat).getD 0) hquery
  unfold BestMode.consider
  split
  · exact ⟨rfl, hrows.symm⟩
  · rename_i hnone
    have hzero : rows.toNat = 0 := Nat.eq_zero_of_not_pos hnone
    exact ⟨rfl, (hrows.trans hzero).symm⟩

/-- Where the loop is when it asks for mode `n`: every number before was supported. -/
structure Searching (t : TextModes) (n : Nat) (best : BestMode) : Prop where
  locals : (n = 0 ∧ best = {}) ∨ Considered t n best
  before : ∀ k < n, (t.query (BitVec.ofNat 64 k)).isSome

/-- Only numbers below `maxMode` are passed. -/
theorem Searching.le (h : Searching t n best) : n ≤ t.maxMode.toNat := by
  by_contra hgt
  have hsome := h.before t.maxMode.toNat (by omega)
  rw [BitVec.ofNat_toNat, BitVec.setWidth_eq] at hsome
  exact absurd (t.bounded _ hsome) (BitVec.lt_irrefl _)

/-- A supported number is considered, and the loop goes on to the next. -/
theorem Searching.next (h : Searching t n best) {cols rows : BitVec 64}
    (hquery : t.query (BitVec.ofNat 64 n) = some (cols, rows)) :
    Searching t (n + 1) (best.consider (BitVec.ofNat 64 n) cols rows) := by
  have hle := h.le
  have hmax := t.maxMode.isLt
  refine ⟨.inr ?_, fun k hk => ?_⟩
  · rcases h.locals with ⟨rfl, rfl⟩ | hconsidered
    · exact considered_first hquery
    · exact hconsidered.consider (by omega) hquery
  · rcases Nat.lt_or_eq_of_le (Nat.le_of_lt_succ hk) with hk | rfl
    · exact h.before k hk
    · rw [hquery]
      rfl

/-- **The loop ends at the first unsupported number**, within `maxMode + 1` queries. -/
theorem searchTextModes_ends {R : ∀ o : TextOp, o.Ans} (ht : t.Answers R) {polls : Nat}
    (h : Searching t n best) (hpolls : t.maxMode.toNat < n + polls) :
    ∃ m best', (searchTextModes polls (BitVec.ofNat 64 n) best).answer R = some best' ∧
      Searching t m best' ∧ t.query (BitVec.ofNat 64 m) = none := by
  induction polls generalizing n best with
  | zero => exact absurd h.le (by omega)
  | succ polls ih =>
      rw [searchTextModes, Prog.answer_bind]
      cases hquery : t.query (BitVec.ofNat 64 n) with
      | none =>
          refine ⟨n, best, ?_, h, hquery⟩
          exact congrArg (Prog.answer (S := TextOutput) R) (if_neg (ht.unsupported _ hquery))
      | some size =>
          obtain ⟨cols, rows⟩ := size
          have hasked : (TextOutput.ask (.queryMode (BitVec.ofNat 64 n))).answer R =
              (0, cols, rows) := ht.supported _ _ _ hquery
          have hnext : BitVec.ofNat 64 n + 1 = BitVec.ofNat 64 (n + 1) :=
            (BitVec.ofNat_add n 1).symm
          rw [hasked]
          dsimp only
          rw [if_pos rfl, hnext]
          exact ih (h.next hquery) (by omega)

end Loop

/-! ## 4. The mode that is set -/

/-- The loop only queries. -/
theorem searchTextModes_asks (polls : Nat) (mode : BitVec 64) (best : BestMode) :
    (searchTextModes polls mode best).AsksOnly fun o => ∃ mode, o = TextOp.queryMode mode := by
  induction polls generalizing mode best with
  | zero => trivial
  | succ polls ih =>
      refine Prog.avoids_bind (Prog.asksOnly_once ⟨mode, rfl⟩) fun answer => ?_
      dsimp only
      split
      · exact ih _ _
      · trivial

theorem modesSet_append (ops ops' : List TextOp) :
    modesSet (ops ++ ops') = modesSet ops ++ modesSet ops' := List.filterMap_append

/-- **The whole function** sets the mode the loop ends with. -/
theorem modesSet_run {R : ∀ o : TextOp, o.Ans} {polls : Nat} {best : BestMode}
    (h : (searchTextModes polls 0 {}).answer R = some best) :
    (setHighResolutionTextMode polls).answer R = some () ∧
      modesSet ((setHighResolutionTextMode polls).asked R) = [best.bestMode] := by
  have hqueries : modesSet ((searchTextModes polls 0 {}).asked R) = [] := by
    refine List.filterMap_eq_nil_iff.mpr fun o ho => ?_
    obtain ⟨mode, rfl⟩ := (searchTextModes_asks polls 0 {}).asked R o ho
    rfl
  rw [setHighResolutionTextMode, Prog.answer_bind, Prog.asked_bind, modesSet_append, hqueries, h]
  exact ⟨rfl, rfl⟩

/-- Every mode behind the first unsupported number has at most as many rows as one before it. -/
def NoBetterBehind (t : TextModes) : Prop :=
  ∀ mode, (t.query mode).isSome → ¬ t.Reached mode →
    ∃ other, t.Reached other ∧ t.rows mode.toNat ≤ t.rows other.toNat

section Best

variable {t : TextModes}

/-- A number below another is reached when all numbers below that one are supported. -/
theorem reached_of_before {m : Nat} (h : ∀ k < m, (t.query (BitVec.ofNat 64 k)).isSome)
    {mode : BitVec 64} (hmode : mode.toNat < m) : t.Reached mode := by
  intro before hle
  have hbefore := h before.toNat (Nat.lt_of_le_of_lt hle hmode)
  rwa [BitVec.ofNat_toNat, BitVec.setWidth_eq] at hbefore

/-- **The mode the loop ends with is the best one exactly when** mode 0 is supported and no mode
    behind the first unsupported number is better. -/
theorem best_iff {m : Nat} {best : BestMode} (h : Searching t m best)
    (hend : t.query (BitVec.ofNat 64 m) = none) :
    t.Best best.bestMode ↔ (t.query 0).isSome ∧ NoBetterBehind t := by
  have hle := h.le
  have hmax := t.maxMode.isLt
  have hstop : ∀ {mode : BitVec 64}, t.Reached mode → mode.toNat < m := by
    intro mode hreached
    by_contra hge
    have hsome := hreached (BitVec.ofNat 64 m) (by
      rw [BitVec.le_def, BitVec.toNat_ofNat, Nat.mod_eq_of_lt (by omega)]
      omega)
    rw [hend] at hsome
    cases hsome
  rcases h.locals with ⟨rfl, rfl⟩ | hconsidered
  · -- mode 0 is not supported, and mode 0 is set
    have hnone : t.query 0 = none := hend
    refine ⟨fun hbest => ?_, fun hcond => ?_⟩
    · have hsome := hbest.1
      rw [show t.query (BestMode.bestMode {}) = none from hnone] at hsome
      cases hsome
    · rw [hnone] at hcond
      cases hcond.1
  · obtain ⟨hlt, hmost, hfirst⟩ := (argmax_range_iff t.rows).mp hconsidered.mode
    have hreached := reached_of_before h.before hlt
    have hzero : (t.query 0).isSome := hreached 0 (BitVec.le_def.mpr (Nat.zero_le _))
    refine ⟨fun hbest => ⟨hzero, fun mode hmode _ => ?_⟩, fun hcond => ?_⟩
    · exact ⟨best.bestMode, hreached, (hbest.2 mode hmode).1⟩
    · refine ⟨hreached _ (BitVec.le_refl _), fun other hother => ?_⟩
      by_cases hr : t.Reached other
      · exact ⟨hmost _ (hstop hr), fun heq => hfirst _ (hstop hr) heq.ge⟩
      · obtain ⟨mode, hmode, hrows⟩ := hcond.2 other hother hr
        have hbehind : m ≤ other.toNat := by
          by_contra hlt'
          exact hr (reached_of_before h.before (by omega))
        exact ⟨hrows.trans (hmost _ (hstop hmode)), fun _ =>
          Nat.le_of_lt (Nat.lt_of_lt_of_le hlt hbehind)⟩

end Best

/-! ## 5. Tables given as lists -/

/-- Modes numbered from 0, none where the number is not supported. -/
def TextModes.ofList (sizes : List (Option (BitVec 64 × BitVec 64)))
    (h : sizes.length < 2 ^ 64) : TextModes where
  maxMode := BitVec.ofNat 64 sizes.length
  query mode := (sizes[mode.toNat]?).join
  bounded mode hmode := by
    rw [BitVec.lt_def, BitVec.toNat_ofNat, Nat.mod_eq_of_lt h]
    by_contra hge
    rw [List.getElem?_eq_none (by omega)] at hmode
    cases hmode

/-- A firmware with this table; EFI_UNSUPPORTED for the other numbers. -/
def TextModes.firmware (t : TextModes) : (o : TextOp) → o.Ans
  | .queryMode mode =>
    match t.query mode with
    | some (cols, rows) => (0, cols, rows)
    | none => (0x8000000000000003, 0, 0)
  | .setMode _ | .clearScreen | .enableCursor _ => (0 : BitVec 64)
  | .print fmt va => printCount fmt va

theorem TextModes.firmware_answers (t : TextModes) : t.Answers t.firmware where
  supported mode cols rows h := by
    rw [TextModes.firmware, h]
  unsupported mode h := by
    rw [TextModes.firmware, h]
    exact show (0x8000000000000003 : BitVec 64) ≠ 0 by decide

/-- **The best text mode is set exactly when** mode 0 is supported and every mode behind the first
    unsupported number has at most as many rows as one before it; the search always ends, within
    `maxMode + 1` queries. For every table and whatever else the firmware answers. -/
theorem textMode_best_iff (t : TextModes) {R : ∀ o : TextOp, o.Ans} (ht : t.Answers R)
    {polls : Nat} (hpolls : t.maxMode.toNat < polls) :
    (setHighResolutionTextMode polls).answer R = some () ∧
      (SetsBest t ((setHighResolutionTextMode polls).asked R) ↔
        (t.query 0).isSome ∧ NoBetterBehind t) := by
  have hstart : Searching t 0 {} := ⟨.inl ⟨rfl, rfl⟩, fun k hk => absurd hk (Nat.not_lt_zero k)⟩
  have henough : t.maxMode.toNat < 0 + polls := by omega
  obtain ⟨m, best, hsearch, hm, hend⟩ := searchTextModes_ends ht hstart henough
  obtain ⟨hanswer, hset⟩ := modesSet_run hsearch
  refine ⟨hanswer, ?_⟩
  rw [← best_iff hm hend, SetsBest, hset]
  constructor
  · rintro ⟨mode, hmode, hbest⟩
    rwa [(List.singleton_inj.mp hmode)]
  · exact fun hbest => ⟨_, rfl, hbest⟩

/-- A table without gaps: 80x25, 80x50 and 100x31. -/
def threeModes : TextModes := .ofList [some (80, 25), some (80, 50), some (100, 31)] (by decide)

theorem textMode_best_iff_three :
    (setHighResolutionTextMode 4).answer threeModes.firmware = some () ∧
      (SetsBest threeModes ((setHighResolutionTextMode 4).asked threeModes.firmware) ↔
        (threeModes.query 0).isSome ∧ NoBetterBehind threeModes) :=
  textMode_best_iff threeModes threeModes.firmware_answers (by decide)

/-- Mode 1 is not supported, mode 2 has more rows than mode 0. -/
def gapModes : TextModes := .ofList [some (80, 25), none, some (100, 31)] (by decide)

/-- Behind the gap the better mode is not found: 80x25 is set instead of 100x31. -/
theorem textMode_stops_at_gap :
    ¬ SetsBest gapModes ((setHighResolutionTextMode 4).asked gapModes.firmware) := by
  have hset : modesSet ((setHighResolutionTextMode 4).asked gapModes.firmware) = [0] := by decide
  intro h
  obtain ⟨mode, hmode, hbest⟩ := h
  rw [hset, List.singleton_inj] at hmode
  rw [← hmode] at hbest
  exact absurd (hbest.2 2 (by decide)).1 (by decide)

end TinyOS64
