/-
  File:      TinyOS64/Console/ReadMemory.lean
  Subject:   The console's rdmem: the words it shows and the addresses at the heads of its rows.

  Address and length are 64-bit numbers, the number of words and the offset in bytes 32-bit ones,
  and the head of a row goes through `%x`, which takes the low half of its argument. The dump is
  exact exactly when the length is below 2^32 and every row starts below 2^32
  (`rdmem_exact_iff`).
-/
import TinyOS64.Console.ReadBack
import TinyOS64.Console.RegisterCommands
import TinyOS64.Print.Rendering

namespace TinyOS64

open Interaction ByteMemory

/-! ## 1. What a dump shows -/

/-- The console over a memory; nothing else answers. -/
def memoryConsole (m : Memory) : (o : ConsoleOp) → o.Ans
  | .load32 address => BitVec.ofNat 32 (peek m address.toNat 4)
  | o => Console.silent o

/-- The texts a run prints, one for each `print`. -/
def printedTexts (ops : List ConsoleOp) : List (List WChar) :=
  (printedLines ops).map fun line => render widen (bytes line.1) line.2

/-- The parts of a dump. -/
inductive DumpItem where
  | head (address : Nat)
  | word (value : Nat)
  | newline

/-- The text shows a number behind a `$`, and then the characters `more`. -/
def ShowsNumber (n : Nat) (more : List Byte) (text : List WChar) : Prop :=
  ∃ label, numeral label = some n ∧ text = (label ++ more).map charCode

/-- The text shows this part of a dump. -/
def DumpItem.Shows : DumpItem → List WChar → Prop
  | head address, text => ShowsNumber address (bytes " : ") text
  | word value, text => ShowsNumber value (bytes "  ") text
  | newline, text => text = (bytes "\n\r").map charCode

/-- The parts that belong to word `i` of a dump from address `a`. -/
def wordItems (m : Memory) (a i : Nat) : List DumpItem :=
  (if i % 4 = 0 then [.head (a + 4 * i)] else []) ++ .word (peek m (a + 4 * i) 4) ::
    (if (i + 1) % 4 = 0 then [.newline] else [])

/-- A dump of `n` words from address `a`: four in a row, the row's full address at its head. -/
def dumpItems (m : Memory) (a n : Nat) : List DumpItem :=
  (List.range n).flatMap (wordItems m a) ++ [.newline]

/-- **What `rdmem` owes**: it prints a dump of `n` words from address `a`, and nothing else. -/
def DumpsWords (m : Memory) (a n : Nat) (p : ConsoleM (Bool × HDACodec)) : Prop :=
  List.Forall₂ DumpItem.Shows (dumpItems m a n) (printedTexts (p.run.asked (memoryConsole m)))

/-! ## 2. What the handler prints -/

theorem printedTexts_append (ops ops' : List ConsoleOp) :
    printedTexts (ops ++ ops') = printedTexts ops ++ printedTexts ops' := by
  rw [printedTexts, printedLines, List.filterMap_append, List.map_append]
  rfl

theorem printedTexts_flatMap (f : Nat → List ConsoleOp) (l : List Nat) :
    printedTexts (l.flatMap f) = l.flatMap fun i => printedTexts (f i) := by
  induction l with
  | nil => rfl
  | cons i l ih => rw [List.flatMap_cons, List.flatMap_cons, printedTexts_append, ih]

/-- A number in eight hexadecimal digits behind a `$`. -/
def hexLabel (n : Nat) : List Byte := chr '$' :: narrow (fixedHex 8 n)

/-- The texts of word `i` from a 64-bit address. -/
def wordTexts (m : Memory) (address : BitVec 64) (i : Nat) : List (List WChar) :=
  (if i % 4 = 0 then
    [(hexLabel ((address + (BitVec.ofNat 32 i * 4).setWidth 64).setWidth 32).toNat ++
      bytes " : ").map charCode] else []) ++
  ((hexLabel (BitVec.ofNat 32
      (peek m (address + BitVec.ofNat 64 (4 * i)).toNat 4)).toNat ++ bytes "  ").map charCode) ::
    (if (i + 1) % 4 = 0 then [(bytes "\n\r").map charCode] else [])

/-- The characters of hexadecimal digits are ASCII. -/
theorem narrow_fixedHex (w n : Nat) : (narrow (fixedHex w n)).map charCode = fixedHex w n := by
  have all : ∀ d < 16, charCode ((hexDigit d).setWidth 8) = hexDigit d := by decide
  rw [narrow, fixedHex, List.map_map, List.map_map]
  exact List.map_congr_left fun i _ => all _ (Nat.mod_lt _ (by decide))

theorem hexLabel_text (n : Nat) (more : List Byte) : (hexLabel n ++ more).map charCode =
    wchr '$' :: (fixedHex 8 n ++ more.map charCode) := by
  rw [hexLabel, List.cons_append, List.map_cons, List.map_append, narrow_fixedHex]
  rfl

/-- A `$%x` and a plain text, of one argument. -/
theorem render_hexLabel {fmt : List Byte} {more : List Byte} {arg : Arg} {v : BitVec 32}
    (hfmt : fmt = chr '$' :: chr '%' :: chr 'x' :: more) (h0 : 0#8 ∉ more) (hp : chr '%' ∉ more)
    (hascii : more.map widen = more.map charCode) (hv : vaArg32 [arg] = some (v, [])) :
    render widen fmt [arg] = (hexLabel v.toNat ++ more).map charCode := by
  have hx : renderDirective widen (chr 'x') [arg] =
      (vaArg32 [arg]).elim ([], [arg]) fun p => (fixedHex 8 p.1.toNat, p.2) := by
    have hX : chr 'x' ≠ chr 'X' := by decide
    cases h : vaArg32 [arg] <;> simp [renderDirective, h, hX]
  rw [hv, Option.elim_some] at hx
  have hmore := @render_literal widen _ h0 hp [] []
  rw [List.append_nil, show render widen [] [] = [] from rfl, List.append_nil, hascii] at hmore
  rw [hfmt, render_plain (by decide) (by decide), render_percent, hx, hmore, hexLabel_text]
  rfl

theorem render_head (v : BitVec 64) : render widen (bytes "$%x : ") [.u64 v] =
    (hexLabel (v.setWidth 32).toNat ++ bytes " : ").map charCode :=
  render_hexLabel (by decide +kernel) (by decide) (by decide) (by decide) rfl

theorem render_word (v : BitVec 32) : render widen (bytes "$%x  ") [.u32 v] =
    (hexLabel v.toNat ++ bytes "  ").map charCode :=
  render_hexLabel (by decide +kernel) (by decide) (by decide) (by decide) rfl

theorem render_newline : render widen (bytes "\n\r") [] = (bytes "\n\r").map charCode := by
  decide

/-- What a turn of the loop prints. -/
theorem showWord_lines (m : Memory) (address : BitVec 64) (i : Nat) :
    printedLines ((showWord address i).asked (memoryConsole m)) =
      (if i % 4 = 0 then
        [("$%x : ", [.u64 (address + (BitVec.ofNat 32 i * 4).setWidth 64)])] else []) ++
      ("$%x  ", [.u32 (BitVec.ofNat 32
        (peek m (address + BitVec.ofNat 64 (4 * i)).toNat 4))]) ::
      (if (i + 1) % 4 = 0 then [("\n\r", [])] else []) := by
  unfold showWord
  split <;> split <;> rfl

/-- **One turn of the loop.** -/
theorem showWord_texts (m : Memory) (address : BitVec 64) (i : Nat) :
    printedTexts ((showWord address i).asked (memoryConsole m)) = wordTexts m address i := by
  rw [printedTexts, showWord_lines, wordTexts, ← render_head, ← render_word, ← render_newline,
    List.map_append, List.map_cons, apply_ite (List.map _), apply_ite (List.map _)]
  rfl

/-- **The loop.** -/
theorem showWords_texts (m : Memory) (address : BitVec 64) (words : BitVec 32) :
    printedTexts ((showWords address words).asked (memoryConsole m)) =
      (List.range words.toNat).flatMap (wordTexts m address) := by
  rw [showWords, Prog.asked_forM, printedTexts_flatMap]
  exact congrArg (List.flatMap · _) (funext fun i => showWord_texts m address i)

/-- The number of words the rest of a line asks for: 1 without a length. -/
def AsksFor (more : List (List Byte)) (n : Nat) : Prop :=
  (more = [] ∧ n = 1) ∨ ∃ length ignored, more = length :: ignored ∧ numeral length = some n

section Handler

variable {line rest : List Byte}

/-- A numeral is taken for its number. -/
theorem takenFor_numeral {text : List Byte} {n : Nat} (h : numeral text = some n) :
    takenFor text = some n := by
  have hne : text ≠ [chr '$'] := fun ht => by rw [ht] at h; cases h
  rw [takenFor, if_neg hne, h]

/-- The length the handler reads, cut to 32 bits. -/
theorem lengthParam_value (h : rest <:+ line) {n : Nat} (hn : AsksFor (words rest) n)
    (hlen : line.length < 2 ^ 32) :
    ∃ len, valueFromStr (lineMemory line) (nextResult line rest).m_param = .ok len ∧
      (len.getD 1).setWidth 32 = BitVec.ofNat 32 n := by
  rcases hn with ⟨hnone, rfl⟩ | ⟨length, ignored, hsome, hnum⟩
  · have hfirst : firstParam rest = [] := by
      by_contra hne
      rw [words_eq hne] at hnone
      cases hnone
    have hsize : (nextResult line rest).m_param.size = 0 := by
      unfold nextResult
      split
      · rfl
      · rw [View.param, ofSuffix_size, hfirst]
        rfl
    exact ⟨none, if_pos hsize, rfl⟩
  · obtain ⟨hword, _, hs⟩ := words_cons hsome
    refine ⟨some (BitVec.ofNat 64 n), ?_, BitVec.eq_of_toNat_eq (by simp)⟩
    rw [nextResult, if_neg hs]
    have hvalue := valueFromStr_word h hword hlen
    rw [takenFor_numeral hnum] at hvalue
    exact hvalue

variable {address : List Byte} {more : List (List Byte)} {a n : Nat}

/-- **The whole handler** on a line with an address and maybe a length. -/
theorem cmdReadMem_texts (h : rest <:+ line) (hwords : words rest = address :: more)
    (ha : numeral address = some a) (hn : AsksFor more n) (hlen : line.length < 2 ^ 32)
    (codec : HDACodec) (m : Memory) :
    printedTexts ((cmdReadMem (lineMemory line) codec (.tail line rest)).run.asked
        (memoryConsole m)) =
      (List.range (n % 2 ^ 32)).flatMap (wordTexts m (BitVec.ofNat 64 a)) ++
        [(bytes "\n\r").map charCode] := by
  obtain ⟨hword, hrest, hs⟩ := words_cons hwords
  have hafter := (afterParam_suffix rest).trans h
  have haddr := valueFromStr_word h hword hlen
  rw [takenFor_numeral ha] at haddr
  rw [← hrest] at hn
  obtain ⟨len, hvalue, hcut⟩ := lengthParam_value hafter hn hlen
  have htexts := showWords_texts m (BitVec.ofNat 64 a) (BitVec.ofNat 32 n)
  rw [BitVec.toNat_ofNat] at htexts
  unfold cmdReadMem
  rw [findNextParam_param h hs, liftM_ok_bind]
  dsimp only
  rw [haddr, liftM_ok_bind, findNextParam_eq hafter, liftM_ok_bind, hvalue, liftM_ok_bind]
  dsimp only [Option.map_some]
  rw [hcut, run_liftM_bind, Prog.asked_bind, printedTexts_append, htexts]
  rfl

end Handler

/-! ## 3. When the dump is exact -/

section Related

variable {α β γ : Type} {R : β → γ → Prop}

/-- Related lists in two parts, cut at the same place. -/
theorem forall₂_append_iff {l l' : List β} {k k' : List γ} (hlen : l.length = k.length) :
    List.Forall₂ R (l ++ l') (k ++ k') ↔ List.Forall₂ R l k ∧ List.Forall₂ R l' k' := by
  refine ⟨fun h => ⟨?_, ?_⟩, fun h => List.rel_append h.1 h.2⟩
  · have htake := List.forall₂_take_append _ _ _ h
    rwa [← hlen, List.take_left] at htake
  · have hdrop := List.forall₂_drop_append _ _ _ h
    rwa [← hlen, List.drop_left] at hdrop

/-- Two lists made of as long parts are related part by part. -/
theorem forall₂_flatMap_iff {f : α → List β} {g : α → List γ}
    (hlen : ∀ i, (f i).length = (g i).length) (l : List α) :
    List.Forall₂ R (l.flatMap f) (l.flatMap g) ↔ ∀ i ∈ l, List.Forall₂ R (f i) (g i) := by
  induction l with
  | nil => simp
  | cons i l ih =>
      rw [List.flatMap_cons, List.flatMap_cons, forall₂_append_iff (hlen i), ih,
        List.forall_mem_cons]

/-- More parts, a longer list. -/
theorem length_flatMap_injective {f : Nat → List β} (hf : ∀ i, f i ≠ []) :
    Function.Injective fun n => ((List.range n).flatMap f).length := by
  refine StrictMono.injective (strictMono_nat_of_lt_succ fun n => ?_)
  have hpos := List.length_pos_of_ne_nil (hf n)
  simp only [List.range_succ, List.flatMap_append, List.length_append, List.flatMap_singleton]
  omega

end Related

/-- A text that shows a number shows that number only. -/
theorem showsNumber_hexLabel (n a : Nat) (more : List Byte) :
    ShowsNumber a more ((hexLabel n ++ more).map charCode) ↔ n % 2 ^ 32 = a := by
  have hlabel : numeral (hexLabel n) = some (n % 2 ^ 32) := numeral_fixedHex (by decide) n
  have hinj : Function.Injective charCode := fun c c' h => by
    have hback := congrArg (BitVec.setWidth 8) h
    simpa [charCode] using hback
  refine ⟨fun h => ?_, fun h => ⟨hexLabel n, h ▸ hlabel, rfl⟩⟩
  obtain ⟨label, hnum, htext⟩ := h
  have hsame : hexLabel n = label :=
    List.append_cancel_right (List.map_injective_iff.mpr hinj htext)
  rw [← hsame, hlabel, Option.some_inj] at hnum
  exact hnum

theorem wordItems_length (m : Memory) (a i : Nat) (address : BitVec 64) :
    (wordItems m a i).length = (wordTexts m address i).length := by
  unfold wordItems wordTexts
  split <;> split <;> rfl

/-- The head of a row is the low half of its address. -/
theorem head_toNat (a i : Nat) :
    ((BitVec.ofNat 64 a + (BitVec.ofNat 32 i * 4).setWidth 64).setWidth 32).toNat =
      (a + 4 * i) % 2 ^ 32 := by
  have hfour : (4 : BitVec 32).toNat = 4 := rfl
  rw [BitVec.toNat_setWidth, BitVec.toNat_add, BitVec.toNat_setWidth, BitVec.toNat_mul,
    BitVec.toNat_ofNat, BitVec.toNat_ofNat, hfour]
  omega

/-- **A row's head shows its address exactly when the address fits 32 bits.** -/
theorem head_shown_iff (a i : Nat) :
    DumpItem.Shows (.head (a + 4 * i)) ((hexLabel ((BitVec.ofNat 64 a +
      (BitVec.ofNat 32 i * 4).setWidth 64).setWidth 32).toNat ++ bytes " : ").map charCode) ↔
      a + 4 * i < 2 ^ 32 := by
  have hshows := showsNumber_hexLabel ((a + 4 * i) % 2 ^ 32) (a + 4 * i) (bytes " : ")
  rw [head_toNat]
  refine hshows.trans ?_
  omega

/-- **One word is shown as it should be** when the head of its row fits 32 bits. -/
theorem wordItems_shown {m : Memory} {a i : Nat} (hrow : a + 4 * (4 * (i / 4)) < 2 ^ 32) :
    List.Forall₂ DumpItem.Shows (wordItems m a i) (wordTexts m (BitVec.ofNat 64 a) i) := by
  have hword : (BitVec.ofNat 64 a + BitVec.ofNat 64 (4 * i)).toNat = a + 4 * i := by
    rw [BitVec.toNat_add, BitVec.toNat_ofNat, BitVec.toNat_ofNat]
    omega
  have hpeek : peek m (a + 4 * i) 4 < 2 ^ 32 := peek_lt m (a + 4 * i) 4
  unfold wordItems wordTexts
  refine List.rel_append ?_ (.cons ?_ ?_)
  · split
    · rename_i hhead
      have hstart : 4 * (i / 4) = i := by omega
      rw [hstart] at hrow
      exact .cons ((head_shown_iff a i).mpr hrow) .nil
    · exact .nil
  · refine (showsNumber_hexLabel _ _ _).mpr ?_
    rw [hword, BitVec.toNat_ofNat, Nat.mod_mod, Nat.mod_eq_of_lt hpeek]
  · split
    · exact .cons rfl .nil
    · exact .nil

/-- At the head of a row nothing else will do. -/
theorem wordItems_head {m : Memory} {a i : Nat} (hhead : i % 4 = 0)
    (h : List.Forall₂ DumpItem.Shows (wordItems m a i) (wordTexts m (BitVec.ofNat 64 a) i)) :
    a + 4 * i < 2 ^ 32 := by
  unfold wordItems wordTexts at h
  rw [if_pos hhead, if_pos hhead] at h
  cases h with
  | cons hshown _ => exact (head_shown_iff a i).mp hshown

section Exact

variable (polls : Nat) (codec : HDACodec) (m : Memory) {line address : List Byte}
  {more : List (List Byte)} {a n : Nat} (hcmd : commandOf line = some .rdmem)
  (hwords : words (line.dropWhile isAlpha) = address :: more) (ha : numeral address = some a)
  (hn : AsksFor more n) (hlen : line.length < 2 ^ 32)

include hcmd hwords ha hn hlen

/-- The whole line, from its first character on. -/
theorem dumpsWords_line :
    DumpsWords m a n (execute polls (lineMemory line) codec ⟨some 0, line.length⟩) ↔
      List.Forall₂ DumpItem.Shows ((List.range n).flatMap (wordItems m a) ++ [.newline])
        ((List.range (n % 2 ^ 32)).flatMap (wordTexts m (BitVec.ofNat 64 a)) ++
          [(bytes "\n\r").map charCode]) := by
  have htexts := cmdReadMem_texts (List.dropWhile_suffix _) hwords ha hn hlen codec m
  unfold DumpsWords dumpItems
  rw [execute_eq, hcmd]
  dsimp only [Command.m_func]
  rw [htexts]

/-- A dump that is exact has as many words as it was asked for, and every head fits 32 bits. -/
theorem rdmem_fits
    (h : DumpsWords m a n (execute polls (lineMemory line) codec ⟨some 0, line.length⟩)) :
    n < 2 ^ 32 ∧ (n = 0 ∨ a + 16 * ((n - 1) / 4) < 2 ^ 32) := by
  have hparts := fun i => wordItems_length m a i (BitVec.ofNat 64 a)
  have h := (dumpsWords_line polls codec m hcmd hwords ha hn hlen).mp h
  have hcount : ((List.range n).flatMap (wordItems m a)).length =
      ((List.range (n % 2 ^ 32)).flatMap (wordItems m a)).length := by
    have hall := h.length_eq
    simp only [List.length_append, List.length_flatMap, hparts] at hall ⊢
    exact Nat.add_right_cancel hall
  have hne : ∀ i, wordItems m a i ≠ [] := fun i => by
    unfold wordItems
    exact List.append_ne_nil_of_right_ne_nil _ (List.cons_ne_nil _ _)
  have hmod : n = n % 2 ^ 32 := length_flatMap_injective hne hcount
  refine ⟨by omega, ?_⟩
  rw [← hmod, forall₂_append_iff (by simp only [List.length_flatMap, hparts]),
    forall₂_flatMap_iff hparts] at h
  rcases Nat.eq_zero_or_pos n with hzero | hpos
  · exact .inl hzero
  · have hlast : 4 * ((n - 1) / 4) ∈ List.range n := List.mem_range.mpr (by omega)
    have hrow := wordItems_head (by omega) (h.1 _ hlast)
    exact .inr (by omega)

/-- **`rdmem` is exact exactly for lengths below 2^32 whose last row starts below 2^32**: for every
    memory and every line with an address and maybe a length. -/
theorem rdmem_exact_iff :
    DumpsWords m a n (execute polls (lineMemory line) codec ⟨some 0, line.length⟩) ↔
      n < 2 ^ 32 ∧ (n = 0 ∨ a + 16 * ((n - 1) / 4) < 2 ^ 32) := by
  refine ⟨rdmem_fits polls codec m hcmd hwords ha hn hlen, fun h => ?_⟩
  obtain ⟨hlt, hrows⟩ := h
  have hparts := fun i => wordItems_length m a i (BitVec.ofNat 64 a)
  rw [dumpsWords_line polls codec m hcmd hwords ha hn hlen, Nat.mod_eq_of_lt hlt]
  refine List.rel_append ((forall₂_flatMap_iff hparts _).mpr fun i hi => wordItems_shown ?_)
    (.cons rfl .nil)
  have hi := List.mem_range.mp hi
  omega

end Exact

theorem rdmem_exact_iff_five : DumpsWords (fun _ => 0xA5) 4096 5
      (execute 0 (lineMemory (bytes "rdmem $1000 5")) ⟨[], 0, 0, 0, 0, 0⟩ ⟨some 0, 13⟩) ↔
    5 < 2 ^ 32 ∧ (5 = 0 ∨ 4096 + 16 * ((5 - 1) / 4) < 2 ^ 32) := by
  have hwords : words ((bytes "rdmem $1000 5").dropWhile isAlpha) = [bytes "$1000", bytes "5"] := by
    decide +kernel
  exact rdmem_exact_iff 0 _ _ (by decide +kernel) hwords (by decide)
    (.inr ⟨bytes "5", [], rfl, by decide⟩) (by decide)

/-- `rdmem $100000000` shows the row's address as `$00000000`. -/
theorem rdmem_cuts_head : ¬ DumpsWords (fun _ => 0) (2 ^ 32) 1
    (execute 0 (lineMemory (bytes "rdmem $100000000")) ⟨[], 0, 0, 0, 0, 0⟩ ⟨some 0, 16⟩) := by
  have hwords : words ((bytes "rdmem $100000000").dropWhile isAlpha) = [bytes "$100000000"] := by
    decide +kernel
  intro h
  have hfits := (rdmem_fits 0 _ _ (by decide +kernel) hwords (by decide) (.inl ⟨rfl, rfl⟩)
    (by decide) h).2
  exact absurd hfits (by decide)

end TinyOS64
