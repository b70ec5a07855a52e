/-
  File:      TinyOS64/Print/Snprintf.lean
  Subject:   `snprintf` and `print` as wholes.

  * `snprintf_reference` -- `snprintf` truncates the reference rendering to its capacity;
  * `print_inside_iff` -- `print` stays inside its buffer exactly for texts of at most 255 code
    units: the size it passes is that of the buffer in bytes, twice the number of elements.
-/
import TinyOS64.Print.Rendering

namespace TinyOS64

/-! ## 1. `snprintf` -/

/-- **`snprintf` truncates the reference rendering.** For every capacity of at least one, every
    ASCII format string and matching arguments, whatever lies behind the terminator. -/
theorem snprintf_reference (cell : Nat → WChar) (n : BitVec 64) (fmt beyond : List Byte)
    (va : List Arg) (hn : 1 ≤ n.toNat) (hf : ∀ c ∈ fmt, c.toNat < 128)
    (hm : Matches (fmt ++ [0#8]) va) (ha : AsciiArgs fmt va) :
    ∃ s', snprintf (.fresh cell) n (fmt ++ 0#8 :: beyond) va =
        some (s', min (n.toNat - 1) (reference fmt va).length) ∧
      (∀ (i : Nat) (hi : i < min (n.toNat - 1) (reference fmt va).length),
        s'.cell i = (reference fmt va)[i]) ∧
      s'.cell (min (n.toNat - 1) (reference fmt va).length) = 0 ∧
      ∀ i ∈ s'.touched, i < n.toNat := by
  have hm' : Matches (fmt ++ 0#8 :: beyond) va := by
    have h := matches_beyond beyond hm
    rwa [List.append_assoc] at h
  have hsub : (n - 1).toNat = n.toNat - 1 := BitVec.toNat_sub_of_le hn
  have h := snprintf_eq (.fresh cell) n hm'
  rw [render_terminated widen beyond hm, render_widen hf ha, hsub] at h
  refine ⟨_, h, fun i hi => ?_, ?_, fun i hi => ?_⟩
  · exact stored_text (by rw [hsub]; exact hi)
  · rw [← hsub]
    exact stored_terminator
  · rcases mem_touched_stored.mp hi with h0 | hle
    · exact absurd h0 List.not_mem_nil
    · omega

theorem snprintf_reference_cut :
    ∃ s', snprintf (.fresh fun _ => 7) 4#64 (bytes "%d%c" ++ 0#8 :: []) [.u32 (-12), .u32 0x21] =
        some (s', min ((4#64).toNat - 1)
          (reference (bytes "%d%c") [.u32 (-12), .u32 0x21]).length) ∧
      (∀ (i : Nat) (hi : i < min ((4#64).toNat - 1)
          (reference (bytes "%d%c") [.u32 (-12), .u32 0x21]).length),
        s'.cell i = (reference (bytes "%d%c") [.u32 (-12), .u32 0x21])[i]) ∧
      s'.cell (min ((4#64).toNat - 1)
        (reference (bytes "%d%c") [.u32 (-12), .u32 0x21]).length) = 0 ∧
      ∀ i ∈ s'.touched, i < (4#64).toNat :=
  snprintf_reference (fun _ => 7) 4#64 (bytes "%d%c") [] [.u32 (-12), .u32 0x21] (by decide)
    (by decide +kernel) (by decide +kernel)
    (by simp [AsciiArgs, DirectiveAscii, bytes, chr, renderDirective, vaArg32])

/-! ## 2. `print` -/

/-- What `print` owes its buffer of 256 elements: no store outside, a text of at most 255 code
    units, and the terminator behind it inside. -/
def PrintStaysInside (cell : Nat → WChar) (fmt : List Byte) (va : List Arg) : Prop :=
  ∃ buffer count, print cell fmt va = some (buffer, count) ∧
    (∀ i ∈ buffer.touched, i < printBufferLen) ∧ count < printBufferLen ∧ buffer.cell count = 0

theorem print_maxIdx : (BitVec.ofNat 64 (printBufferLen * sizeofWChar) - 1).toNat = 511 := by
  simp [printBufferLen, sizeofWChar]

/-- The highest index `print` stores to is the length of the text, or 511. -/
theorem print_eq (cell : Nat → WChar) {fmt : List Byte} {va : List Arg} (h : Matches fmt va) :
    ∃ buffer, print cell fmt va = some (buffer, min 511 (reference fmt va).length) ∧
      (∀ i, i ∈ buffer.touched ↔ i ≤ min 511 (reference fmt va).length) ∧
      buffer.cell (min 511 (reference fmt va).length) = 0 := by
  rw [print, snprintf_eq _ _ h, ← render_length widen, ← print_maxIdx]
  refine ⟨_, rfl, fun i => ?_, stored_terminator⟩
  rw [mem_touched_stored]
  exact ⟨fun hi => hi.resolve_left List.not_mem_nil, Or.inr⟩

/-- **`print` stays inside its buffer exactly when the text has at most 255 code units.** -/
theorem print_inside_iff (cell : Nat → WChar) (fmt : List Byte) (va : List Arg)
    (h : Matches fmt va) :
    PrintStaysInside cell fmt va ↔ (reference fmt va).length ≤ 255 := by
  obtain ⟨buffer, hp, ht, h0⟩ := print_eq cell h
  refine ⟨fun h => ?_, fun hlen => ?_⟩
  · rcases h with ⟨b, count, hb, _, hcount, _⟩
    rw [hp] at hb
    cases hb
    have : min 511 (reference fmt va).length < 256 := hcount
    omega
  · refine ⟨buffer, _, hp, fun i hi => ?_, ?_, h0⟩
    · have := (ht i).mp hi
      show i < 256
      omega
    · show min 511 (reference fmt va).length < 256
      omega

theorem print_inside_iff_console :
    PrintStaysInside (fun _ => 0) (bytes "Console: %d x %d" ++ [0#8]) [.u32 80, .u32 25] ↔
      (reference (bytes "Console: %d x %d" ++ [0#8]) [.u32 80, .u32 25]).length ≤ 255 :=
  print_inside_iff _ _ _ (by decide +kernel)

/-- A string of 256 characters is stored up to index 255 and its terminator behind the array. -/
theorem print_overruns :
    ¬ PrintStaysInside (fun _ => 0) (bytes "%s" ++ [0#8])
      [.str (List.replicate 256 (chr 'a'))] := by
  have hm : Matches (bytes "%s" ++ [0#8]) [.str (List.replicate 256 (chr 'a'))] := by
    decide +kernel
  have hlen : (reference (bytes "%s" ++ [0#8]) [.str (List.replicate 256 (chr 'a'))]).length =
      256 := by decide +kernel
  obtain ⟨buffer, hp, ht, _⟩ := print_eq (fun _ => 0) hm
  intro h
  rcases h with ⟨b, count, hb, hin, _⟩
  rw [hp] at hb
  cases hb
  exact absurd (hin 256 ((ht 256).mpr (by rw [hlen]; decide))) (by decide)

end TinyOS64
