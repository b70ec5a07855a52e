/-
  File:      TinyOS64/Console/StoredText.lean
  Subject:   Keys stored as chars and printed again: %c, %s and literal format text.

  The key loop stores a code unit as the `char` of its low byte; each of the three ways through
  `format` widens that `char` with its sign. A text comes out as it was typed exactly when it is
  ASCII (`keepsUnits_iff`), whichever way is taken (`shows_chars_iff`, `shows_string_iff`,
  `shows_literal_iff`).
-/
import TinyOS64.Console.ReadBack
import TinyOS64.Print.Rendering

namespace TinyOS64

/-! ## 1. Three ways to print -/

/-- A `char` passed where an `int` is read: it is promoted with its sign. -/
def charArg (c : Byte) : Arg := .u32 (c.signExtend 32)

/-- `format` puts these code units and no others, into every sink with room for them and whatever
    lies behind the format string. -/
def Shows (fmt : List Byte) (va : List Arg) (units : List WChar) : Prop :=
  ∀ (output : PutLimitedString) (beyond : List Byte),
    output.m_idx + units.length ≤ output.m_maxIdx →
      ∃ output', format output (fmt ++ 0#8 :: beyond) va = some output' ∧
        written output output' = units

/-- As many `%c`. -/
def charFormat (text : List Byte) : List Byte := text.flatMap fun _ => bytes "%c"

/-- **What printing owes a stored text**: the stored characters show the units they were stored
    for, character by character, as a string, and as a format string without `%`. -/
structure KeepsUnits (units : List WChar) : Prop where
  chars : Shows (charFormat (narrow units)) ((narrow units).map charArg) units
  string : Shows (bytes "%s") [.str (narrow units)] units
  literal : wchr '%' ∉ units → Shows (narrow units) [] units

/-! ## 2. What the formatter makes of it -/

/-- A format string shows the units exactly when they are its rendering. -/
theorem shows_iff {fmt : List Byte} {va : List Arg} {units : List WChar}
    (hm : Matches (fmt ++ [0#8]) va)
    (hlen : (render widen fmt va).length = units.length) :
    Shows fmt va units ↔ render widen fmt va = units := by
  have hformat : ∀ (output : PutLimitedString) (beyond : List Byte),
      format output (fmt ++ 0#8 :: beyond) va =
        some (output.putAll (render widen fmt va)) := by
    intro output beyond
    have hmatches := matches_beyond beyond hm
    rw [List.append_assoc, List.singleton_append] at hmatches
    rw [format_eq output hmatches, render_terminated widen beyond hm]
  constructor
  · intro h
    -- a sink with just enough room
    have hroom : (0 : Nat) + units.length ≤ units.length := by omega
    obtain ⟨output', hput, hwritten⟩ := h ⟨.fresh fun _ => 0, 0, units.length⟩ [] hroom
    rw [hformat] at hput
    cases hput
    rwa [written_putAll _ (by rw [hlen]; exact hroom)] at hwritten
  · intro h output beyond hroom
    refine ⟨_, hformat output beyond, ?_⟩
    rw [written_putAll output (by rw [hlen]; exact hroom), h]

/-- `va_arg(va, int)` narrowed to a `char` is the `char` that was promoted. -/
theorem setWidth_promoted : ∀ c : Byte, (c.signExtend 32).setWidth 8 = c := by
  decide +kernel

theorem renderDirective_c (unit : Byte → WChar) (c : Byte) (va : List Arg) :
    renderDirective unit (chr 'c') (charArg c :: va) = ([unit c], va) := by
  have hc : renderDirective unit (chr 'c') (charArg c :: va) =
      ([unit ((c.signExtend 32).setWidth 8)], va) := rfl
  rw [hc, setWidth_promoted]

theorem charFormat_cons (c : Byte) (text : List Byte) :
    charFormat (c :: text) = chr '%' :: chr 'c' :: charFormat text := rfl

theorem matches_chars (text : List Byte) :
    Matches (charFormat text ++ [0#8]) (text.map charArg) := by
  induction text with
  | nil => exact matches_zero
  | cons c text ih =>
      rw [charFormat_cons, List.cons_append, List.cons_append, matches_percent, List.map_cons,
        renderDirective_c]
      exact ⟨rfl, ih⟩

theorem render_chars (unit : Byte → WChar) (text : List Byte) :
    render unit (charFormat text) (text.map charArg) = text.map unit := by
  induction text with
  | nil => rfl
  | cons c text ih =>
      rw [charFormat_cons, render_percent, List.map_cons, List.map_cons, renderDirective_c, ih]
      rfl

theorem matches_literal {text : List Byte} (h0 : 0#8 ∉ text) (h : chr '%' ∉ text) :
    Matches (text ++ [0#8]) [] := by
  induction text with
  | nil => exact matches_zero
  | cons c text ih =>
      rw [List.mem_cons, not_or] at h0 h
      rw [List.cons_append, matches_plain (Ne.symm h0.1) (Ne.symm h.1)]
      exact ih h0.2 h.2

/-! ## 3. What comes out -/

/-- A code unit the key loop stores. -/
def Storable (u : WChar) : Prop := 32 ≤ u.toNat ∧ u.toNat < 256

/-- A `char` is widened to its own code exactly when its top bit is clear. -/
theorem toNat_widen : ∀ c : Byte,
    (widen c).toNat = if c.toNat < 128 then c.toNat else c.toNat + 0xFF00 := by
  decide +kernel

/-- **A stored unit comes out as itself exactly when it is ASCII.** -/
theorem widen_stored_iff {u : WChar} (h : Storable u) :
    widen (u.setWidth 8) = u ↔ u.toNat < 128 := by
  have hbyte : (u.setWidth 8).toNat = u.toNat := by
    rw [BitVec.toNat_setWidth, Nat.mod_eq_of_lt h.2]
  rw [← BitVec.toNat_inj, toNat_widen, hbyte]
  split <;> omega

section Text

variable {units : List WChar}

/-- What each of the three ways shows of a stored text. -/
theorem shown_iff (h : ∀ u ∈ units, Storable u) :
    (narrow units).map widen = units ↔ ∀ u ∈ units, u.toNat < 128 := by
  rw [narrow, List.map_map]
  constructor
  · intro hsame u hu
    refine (widen_stored_iff (h u hu)).mp ?_
    exact List.map_eq_map_iff.mp (hsame.trans (List.map_id' units).symm) u hu
  · intro hascii
    refine (List.map_congr_left fun u hu => ?_).trans (List.map_id' units)
    exact (widen_stored_iff (h u hu)).mpr (hascii u hu)

/-- No stored character ends a string. -/
theorem zero_notMem_narrow (h : ∀ u ∈ units, Storable u) : 0#8 ∉ narrow units := by
  intro hmem
  obtain ⟨u, hu, hzero⟩ := List.mem_map.mp hmem
  have hnat := congrArg BitVec.toNat hzero
  rw [BitVec.toNat_setWidth, Nat.mod_eq_of_lt (h u hu).2] at hnat
  have hlow := (h u hu).1
  rw [hnat] at hlow
  exact absurd hlow (by decide)

theorem percent_notMem_narrow (h : ∀ u ∈ units, Storable u) (hp : wchr '%' ∉ units) :
    chr '%' ∉ narrow units := by
  intro hmem
  obtain ⟨u, hu, hpercent⟩ := List.mem_map.mp hmem
  have hnat := congrArg BitVec.toNat hpercent
  rw [BitVec.toNat_setWidth, Nat.mod_eq_of_lt (h u hu).2] at hnat
  have hsame : u = wchr '%' := BitVec.eq_of_toNat_eq hnat
  exact hp (hsame ▸ hu)

/-- **Through `%c`.** -/
theorem shows_chars_iff (h : ∀ u ∈ units, Storable u) :
    Shows (charFormat (narrow units)) ((narrow units).map charArg) units ↔
      ∀ u ∈ units, u.toNat < 128 := by
  have hrender := render_chars widen (narrow units)
  rw [shows_iff (matches_chars _) (by rw [hrender, narrow, List.length_map, List.length_map]),
    hrender, shown_iff h]

/-- **Through `%s`.** -/
theorem shows_string_iff (h : ∀ u ∈ units, Storable u) :
    Shows (bytes "%s") [.str (narrow units)] units ↔ ∀ u ∈ units, u.toNat < 128 := by
  have hwhole : cString (narrow units) = narrow units := by
    refine List.takeWhile_eq_self_iff.mpr fun c hc => decide_eq_true ?_
    exact fun hzero => zero_notMem_narrow h (hzero ▸ hc)
  have hrender : render widen (bytes "%s") [.str (narrow units)] = (narrow units).map widen := by
    have hs : render widen (bytes "%s") [.str (narrow units)] =
        (cString (narrow units)).map widen ++ [] := rfl
    rw [hs, List.append_nil, hwhole]
  have hmatches : Matches (bytes "%s" ++ [0#8]) [.str (narrow units)] := ⟨rfl, matches_zero⟩
  rw [shows_iff hmatches (by rw [hrender, narrow, List.length_map, List.length_map]),
    hrender, shown_iff h]

/-- **As the format string itself**, without a `%`. -/
theorem shows_literal_iff (h : ∀ u ∈ units, Storable u) (hp : wchr '%' ∉ units) :
    Shows (narrow units) [] units ↔ ∀ u ∈ units, u.toNat < 128 := by
  have h0 := zero_notMem_narrow h
  have hp' := percent_notMem_narrow h hp
  have hrender : render widen (narrow units) [] = (narrow units).map widen := by
    have hlit := @render_literal widen _ h0 hp' [] []
    rwa [List.append_nil, show render widen [] [] = [] from rfl, List.append_nil] at hlit
  rw [shows_iff (matches_literal h0 hp')
    (by rw [hrender, narrow, List.length_map, List.length_map]), hrender, shown_iff h]

end Text

/-- **A stored text is printed as it was typed exactly when it is ASCII**: from 128 on each of the
    three ways widens the sign of the `char`. -/
theorem keepsUnits_iff {units : List WChar} (h : ∀ u ∈ units, Storable u) :
    KeepsUnits units ↔ ∀ u ∈ units, u.toNat < 128 :=
  ⟨fun hkeeps => (shows_chars_iff h).mp hkeeps.chars, fun hascii =>
    { chars := (shows_chars_iff h).mpr hascii
      string := (shows_string_iff h).mpr hascii
      literal := fun hp => (shows_literal_iff h hp).mpr hascii }⟩

theorem keepsUnits_iff_hi :
    KeepsUnits [wchr 'H', wchr 'i'] ↔ ∀ u ∈ [wchr 'H', wchr 'i'], u.toNat < 128 := by
  refine keepsUnits_iff fun u hu => ?_
  rcases List.mem_pair.mp hu with rfl | rfl
  · exact ⟨by decide, by decide⟩
  · exact ⟨by decide, by decide⟩

/-- An e with an acute accent comes out as U+FFE9. -/
theorem keepsUnits_corrupts : ¬ KeepsUnits [0xE9] := by
  have hstorable : ∀ u ∈ [(0xE9 : WChar)], Storable u := by
    intro u hu
    rw [List.mem_singleton.mp hu]
    exact ⟨by decide, by decide⟩
  intro hkeeps
  have hascii := (shows_string_iff hstorable).mp hkeeps.string 0xE9 List.mem_cons_self
  exact absurd hascii (by decide)

end TinyOS64
