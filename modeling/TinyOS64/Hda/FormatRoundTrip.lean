/-
  File:      TinyOS64/Hda/FormatRoundTrip.lean
  Subject:   Whether StreamFormat::set and the three getters agree.

  The value is five fields side by side (`packed`), and each getter takes its own field out again
  (`packed_rate` .. `packed_channels`). What is left are the two tables: they agree on every sample
  rate but 22050, and `set` lets through a rate, and stores the channels of a depth, that it does
  not know (`set_roundTrips_iff`).
-/
import TinyOS64.Hda.StreamFormat
import TinyOS64.Lib.WordFields

namespace TinyOS64

open WordFields

/-! ## 1. Enumerators and their values -/

@[simp] theorem SampleRate.ofValue_value (r : SampleRate) : ofValue r.value = some r := by
  cases r <;> rfl

@[simp] theorem BitDepth.ofValue_value (b : BitDepth) : ofValue b.value = some b := by
  cases b <;> rfl

theorem SampleRate.value_inj {r r' : SampleRate} (h : r.value = r'.value) : r = r' := by
  have e : ofValue r.value = ofValue r'.value := congrArg ofValue h
  simpa using e

/-- A value is one of the enumerators'. -/
def IsSampleRate (sr : BitVec 32) : Prop := ∃ r : SampleRate, r.value = sr

def IsBitDepth (bits : BitVec 32) : Prop := ∃ b : BitDepth, b.value = bits

theorem BitDepth.ofValue_eq_none {bits : BitVec 32} (h : ¬ IsBitDepth bits) :
    ofValue bits = none := by
  refine List.find?_eq_none.mpr fun b _ e => h ⟨b, ?_⟩
  exact of_decide_eq_true e

namespace StreamFormat

/-! ## 2. The fields of the value -/

/-- The value `set` puts together. -/
def packed (channels bits baseRate multiplier divisor : BitVec 32) : BitVec 32 :=
  channels ||| (bits <<< 4) ||| (baseRate <<< 14) ||| (multiplier <<< 11) ||| (divisor <<< 8)

section Fields

variable {c d b m v : BitVec 32} (hc : c.toNat < 16) (hd : d.toNat < 8) (hb : b.toNat < 2)
  (hm : m.toNat < 8) (hv : v.toNat < 8)

include hc hd hb hm hv

theorem packed_toNat : (packed c d b m v).toNat =
    b.toNat * 2 ^ 14 + (m.toNat * 2 ^ 11 + (v.toNat * 2 ^ 8 + (d.toNat * 2 ^ 4 + c.toNat))) := by
  have e : packed c d b m v =
      (b <<< 14) ||| ((m <<< 11) ||| ((v <<< 8) ||| ((d <<< 4) ||| c))) := by
    rw [packed, BitVec.or_comm c, BitVec.or_comm (_ ||| c) (b <<< 14), BitVec.or_assoc (b <<< 14),
      BitVec.or_assoc (b <<< 14), BitVec.or_comm (_ ||| c) (m <<< 11), BitVec.or_assoc (m <<< 11),
      BitVec.or_comm (_ ||| c) (v <<< 8)]
  -- from the innermost field out: each lies above what is ORed below it
  have h₁ := toNat_field_above d (k := 4) (y := c) rfl (by omega) (by omega)
  have h₂ := toNat_field_above v (k := 8) h₁ (by omega) (by omega)
  have h₃ := toNat_field_above m (k := 11) h₂ (by omega) (by omega)
  rw [e, toNat_field_above b h₃ (by omega) (by omega)]

theorem packed_baseRate : (packed c d b m v >>> 14) &&& 0x1 = b := by
  refine field_eq 14 (j := 1) rfl ?_
  rw [packed_toNat hc hd hb hm hv]
  omega

theorem packed_multiplier : (packed c d b m v >>> 11) &&& 0x7 = m := by
  refine field_eq 11 (j := 3) rfl ?_
  rw [packed_toNat hc hd hb hm hv]
  omega

theorem packed_divisor : (packed c d b m v >>> 8) &&& 0x7 = v := by
  refine field_eq 8 (j := 3) rfl ?_
  rw [packed_toNat hc hd hb hm hv]
  omega

theorem packed_bits : (packed c d b m v >>> 4) &&& 0x7 = d := by
  refine field_eq 4 (j := 3) rfl ?_
  rw [packed_toNat hc hd hb hm hv]
  omega

theorem packed_channels : packed c d b m v &&& 0xF = c := by
  have h : (packed c d b m v).toNat = _ := packed_toNat hc hd hb hm hv
  refine BitVec.eq_of_toNat_eq ?_
  rw [toNat_and_low _ (j := 4) rfl, h]
  omega

end Fields

/-! ## 3. The tables -/

/-- What `getSampleRate` makes of the three rate fields. -/
def rateOf (baseRate multiplier divisor : BitVec 32) : SampleRate :=
  let rate : BitVec 32 := if baseRate = 0 then 48000 else 44100
  sampleRateOf (rate * (multiplier + 1) / (divisor + 1)).toNat

/-- What `getBitDepth` makes of its field. -/
def depthOf (bits : BitVec 32) : BitDepth :=
  match bits.toNat with
  | 0 => .B8
  | 1 => .B16
  | 2 => .B20
  | 3 => .B24
  | 4 => .B32
  | _ => .Invalid

/-- **The rate tables agree on every rate but 22050**, which reads as invalid. -/
theorem rateOf_rateFields (r : SampleRate) (hr : r ≠ .Invalid) :
    (let (b, m, v) := rateFields (some r); rateOf b m v) =
      if r = .R22050 then .Invalid else r := by
  cases r with
  | Invalid => contradiction
  | R22050 | R16000 | R32000 | R44100 | R48000 | R96000 | R192000 => decide

theorem rateFields_lt (r : Option SampleRate) :
    (rateFields r).1.toNat < 2 ∧ (rateFields r).2.1.toNat < 8 ∧ (rateFields r).2.2.toNat < 8 := by
  cases r with
  | none => decide
  | some r => cases r <;> decide

/-- The code of a depth: its place behind `Invalid`. -/
def depthCode (b : BitDepth) : BitVec 32 := b.value - 1

theorem setBits_some (m_value : BitVec 32) {b : BitDepth} (hb : b ≠ .Invalid) :
    setBits m_value (some b) = some (m_value ||| (depthCode b <<< 4)) := by
  cases b with
  | Invalid => contradiction
  | B8 => exact congrArg some (BitVec.or_zero).symm
  | B16 | B20 | B24 | B32 => rfl

/-- **The depth tables agree.** -/
theorem depthOf_depthCode (b : BitDepth) (hb : b ≠ .Invalid) :
    depthOf (depthCode b) = b ∧ (depthCode b).toNat < 8 := by
  cases b with
  | Invalid => contradiction
  | B8 | B16 | B20 | B24 | B32 => decide

/-! ## 4. set, then the getters -/

/-- The guards of `set`. -/
def Refuses (sr bits channels : BitVec 32) : Prop :=
  sr = SampleRate.Invalid.value ∨ bits = BitDepth.Invalid.value ∨ channels > 16 ∨ channels = 0

theorem set_refused (f : StreamFormat) {sr bits channels : BitVec 32}
    (h : Refuses sr bits channels) : f.set sr bits channels = (false, f) := by
  unfold set
  rcases h with h | h | h | h
  · rw [if_pos h]
  · simp only [if_pos h, ite_self]
  · simp only [if_pos h, ite_self]
  · simp only [if_pos h, ite_self]

variable {f : StreamFormat} {sr bits channels : BitVec 32}

theorem set_guarded (h : ¬ Refuses sr bits channels) : f.set sr bits channels =
    match setBits (channels - 1) (BitDepth.ofValue bits) with
    | none => (false, ⟨channels - 1⟩)
    | some m_value =>
      let (baseRate, multiplier, divisor) := rateFields (SampleRate.ofValue sr)
      (true, ⟨m_value ||| (baseRate <<< 14) ||| (multiplier <<< 11) ||| (divisor <<< 8)⟩) := by
  unfold Refuses at h
  simp only [not_or] at h
  obtain ⟨hsr, hbits, hmax, hzero⟩ := h
  rw [set, if_neg hsr, if_neg hbits, if_neg hmax]
  exact if_neg hzero

/-- A depth outside the enumerators: refused, with the channels already stored. -/
theorem set_unknownDepth (h : ¬ Refuses sr bits channels) (hb : ¬ IsBitDepth bits) :
    f.set sr bits channels = (false, ⟨channels - 1⟩) := by
  rw [set_guarded h, BitDepth.ofValue_eq_none hb]
  rfl

/-- A known depth: accepted, whatever the rate. -/
theorem set_knownDepth {b : BitDepth} (h : ¬ Refuses sr b.value channels) :
    f.set sr b.value channels =
      let (baseRate, multiplier, divisor) := rateFields (SampleRate.ofValue sr)
      (true, ⟨packed (channels - 1) (depthCode b) baseRate multiplier divisor⟩) := by
  have hb : b ≠ .Invalid := fun e => h (.inr (.inl (e ▸ rfl)))
  rw [set_guarded h, BitDepth.ofValue_value, setBits_some _ hb]
  rfl

/-- **What the getters read of an accepted format.** -/
theorem set_reads {b : BitDepth} (h : ¬ Refuses sr b.value channels) :
    (f.set sr b.value channels).2.getSampleRate =
        (let (b, m, v) := rateFields (SampleRate.ofValue sr); rateOf b m v) ∧
      (f.set sr b.value channels).2.getBitDepth = b ∧
      (f.set sr b.value channels).2.getChannels = channels := by
  have hb : b ≠ .Invalid := fun e => h (.inr (.inl (e ▸ rfl)))
  have hch : ¬ channels > 16 ∧ channels ≠ 0 :=
    ⟨fun e => h (.inr (.inr (.inl e))), fun e => h (.inr (.inr (.inr e)))⟩
  have hc : (channels - 1).toNat < 16 := by bv_omega
  obtain ⟨hdepth, hd⟩ := depthOf_depthCode b hb
  obtain ⟨hr₁, hr₂, hr₃⟩ := rateFields_lt (SampleRate.ofValue sr)
  rw [set_knownDepth h]
  refine ⟨?_, ?_, ?_⟩
  · simp only [getSampleRate, packed_baseRate hc hd hr₁ hr₂ hr₃,
      packed_multiplier hc hd hr₁ hr₂ hr₃, packed_divisor hc hd hr₁ hr₂ hr₃]
    rfl
  · simp only [getBitDepth, packed_bits hc hd hr₁ hr₂ hr₃]
    exact hdepth
  · simp only [getChannels, packed_channels hc hd hr₁ hr₂ hr₃]
    exact BitVec.sub_add_cancel channels 1

/-- **What `set` owes** one format and its arguments. -/
structure SetRoundTrips (f : StreamFormat) (sr bits channels : BitVec 32) : Prop where
  accepts : (f.set sr bits channels).1 = true ↔
    (IsSampleRate sr ∧ sr ≠ SampleRate.Invalid.value) ∧
    (IsBitDepth bits ∧ bits ≠ BitDepth.Invalid.value) ∧ 1 ≤ channels ∧ channels ≤ 16
  reads : (f.set sr bits channels).1 = true →
    (f.set sr bits channels).2.getSampleRate.value = sr ∧
    (f.set sr bits channels).2.getBitDepth.value = bits ∧
    (f.set sr bits channels).2.getChannels = channels
  unchanged : (f.set sr bits channels).1 = false → (f.set sr bits channels).2 = f

theorem roundTrips_of_refuses (h : Refuses sr bits channels) : SetRoundTrips f sr bits channels := by
  have hset := set_refused f h
  refine ⟨⟨fun ht => ?_, fun hall => ?_⟩, fun ht => ?_, fun _ => ?_⟩
  · rw [hset] at ht
    cases ht
  · obtain ⟨⟨_, hsr⟩, ⟨_, hbits⟩, hone, hmax⟩ := hall
    rcases h with h | h | h | h
    · exact absurd h hsr
    · exact absurd h hbits
    · bv_omega
    · bv_omega
  · rw [hset] at ht
    cases ht
  · rw [hset]

/-- An unknown depth goes well only where the value happens to be the channels' already. -/
theorem roundTrips_unknownDepth_iff (h : ¬ Refuses sr bits channels) (hb : ¬ IsBitDepth bits) :
    SetRoundTrips f sr bits channels ↔ f.m_value = channels - 1 := by
  have hset := set_unknownDepth (f := f) h hb
  refine ⟨fun hall => ?_, fun e => ⟨⟨fun ht => ?_, fun hk => absurd hk.2.1.1 hb⟩, fun ht => ?_,
    fun _ => ?_⟩⟩
  · have hu := hall.unchanged
    rw [hset] at hu
    rw [← hu rfl]
  · rw [hset] at ht
    cases ht
  · rw [hset] at ht
    cases ht
  · rw [hset, ← e]

/-- A known depth goes well with the rates both tables have. -/
theorem roundTrips_knownDepth_iff {b : BitDepth} (h : ¬ Refuses sr b.value channels) :
    SetRoundTrips f sr b.value channels ↔ IsSampleRate sr ∧ sr ≠ SampleRate.R22050.value := by
  obtain ⟨hrate, hdepth, hchannels⟩ := set_reads (f := f) h
  have haccepts : (f.set sr b.value channels).1 = true := by rw [set_knownDepth h]
  simp only [Refuses, not_or] at h
  obtain ⟨hsr, hbits, hmax, hzero⟩ := h
  refine ⟨fun hall => ?_, fun hknown => ?_⟩
  · obtain ⟨r, rfl⟩ := (hall.accepts.mp haccepts).1.1
    refine ⟨⟨r, rfl⟩, fun e => ?_⟩
    have hread := (hall.reads haccepts).1
    rw [hrate, SampleRate.value_inj e] at hread
    exact absurd hread (by decide)
  · obtain ⟨⟨r, rfl⟩, hne⟩ := hknown
    have hr : r ≠ .Invalid := fun e => hsr (e ▸ rfl)
    have hr' : r ≠ .R22050 := fun e => hne (e ▸ rfl)
    have htables := rateOf_rateFields r hr
    rw [if_neg hr'] at htables
    rw [SampleRate.ofValue_value, htables] at hrate
    refine ⟨⟨fun _ => ⟨⟨⟨r, rfl⟩, hsr⟩, ⟨⟨b, rfl⟩, hbits⟩, ?_, ?_⟩, fun _ => haccepts⟩,
      fun _ => ⟨by rw [hrate], by rw [hdepth], hchannels⟩, fun hf => ?_⟩
    · bv_omega
    · bv_omega
    · rw [haccepts] at hf
      cases hf

/-- **Exactly when `set` keeps to its contract**: its guards refuse, or the depth is an enumerator
    and the rate one other than 22050, or the depth is none and the value was `channels - 1`. -/
theorem set_roundTrips_iff (f : StreamFormat) (sr bits channels : BitVec 32) :
    SetRoundTrips f sr bits channels ↔
      Refuses sr bits channels ∨
      (IsBitDepth bits ∧ IsSampleRate sr ∧ sr ≠ SampleRate.R22050.value) ∨
      (¬ IsBitDepth bits ∧ f.m_value = channels - 1) := by
  by_cases h : Refuses sr bits channels
  · exact iff_of_true (roundTrips_of_refuses h) (.inl h)
  · by_cases hb : IsBitDepth bits
    · obtain ⟨b, rfl⟩ := hb
      rw [roundTrips_knownDepth_iff h]
      have hb : IsBitDepth b.value := ⟨b, rfl⟩
      exact ⟨fun hk => .inr (.inl ⟨hb, hk⟩), fun hk => by
        rcases hk with hk | hk | hk
        · exact absurd hk h
        · exact hk.2
        · exact absurd hb hk.1⟩
    · rw [roundTrips_unknownDepth_iff h hb]
      exact ⟨fun hk => .inr (.inr ⟨hb, hk⟩), fun hk => by
        rcases hk with hk | hk | hk
        · exact absurd hk h
        · exact absurd hk.1 hb
        · exact hk.2⟩

/-- 22050 Hz, 16 bits, two channels: accepted, and read back as no rate. -/
theorem set_forgets_22050 :
    ¬ SetRoundTrips ⟨0⟩ SampleRate.R22050.value BitDepth.B16.value 2 := by
  intro h
  have hread := (h.reads rfl).1
  exact absurd hread (by decide)

end StreamFormat

end TinyOS64
