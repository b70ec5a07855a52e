/-
  File:      TinyOS64/Hda/StreamFormat.lean
  Subject:   HDA::StreamFormat: composing the format register's value, reading it, and its texts.

  `set` takes its enumerations as the `int` values they are in the source: a caller can pass one
  outside the enumerators, and the two switches of `set` treat it differently.
-/
import TinyOS64.Hda.Widget

namespace TinyOS64

/-- `HDA::SampleRate`. -/
inductive SampleRate where
  | Invalid | R16000 | R22050 | R32000 | R44100 | R48000 | R96000 | R192000
  deriving DecidableEq, Repr

/-- `HDA::BitDepth`. -/
inductive BitDepth where
  | Invalid | B8 | B16 | B20 | B24 | B32
  deriving DecidableEq, Repr

/-- The value of an enumerator. -/
def SampleRate.value : SampleRate → BitVec 32
  | Invalid => 0
  | R16000 => 1
  | R22050 => 2
  | R32000 => 3
  | R44100 => 4
  | R48000 => 5
  | R96000 => 6
  | R192000 => 7

/-- The enumerator of a value, for the switch of `set`. -/
def SampleRate.ofValue (sr : BitVec 32) : Option SampleRate :=
  [Invalid, R16000, R22050, R32000, R44100, R48000, R96000, R192000].find? (·.value = sr)

/-- The value of an enumerator. -/
def BitDepth.value : BitDepth → BitVec 32
  | Invalid => 0
  | B8 => 1
  | B16 => 2
  | B20 => 3
  | B24 => 4
  | B32 => 5

/-- The enumerator of a value, for the switch of `set`. -/
def BitDepth.ofValue (bits : BitVec 32) : Option BitDepth :=
  [Invalid, B8, B16, B20, B24, B32].find? (·.value = bits)

namespace StreamFormat

/-- The switch over `bits` in `set`; `none` is its `default: return false`. -/
def setBits (m_value : BitVec 32) : Option BitDepth → Option (BitVec 32)
  | some .B8 => some m_value
  | some .B16 => some (m_value ||| (1 <<< 4))
  | some .B20 => some (m_value ||| (2 <<< 4))
  | some .B24 => some (m_value ||| (3 <<< 4))
  | some .B32 => some (m_value ||| (4 <<< 4))
  | _ => none

/-- The switch over `sr` in `set`: `baseRate`, `multiplier`, `divisor`. It has no default. -/
def rateFields : Option SampleRate → BitVec 32 × BitVec 32 × BitVec 32
  | some .R16000 => (0, 0, 2)
  | some .R22050 => (1, 0, 1)
  | some .R32000 => (0, 1, 2)
  | some .R44100 => (1, 0, 0)
  | some .R48000 => (0, 0, 0)
  | some .R96000 => (0, 1, 0)
  | some .R192000 => (0, 3, 0)
  | _ => (0, 0, 0)

def set (f : StreamFormat) (sr bits channels : BitVec 32) : Bool × StreamFormat :=
  if sr = SampleRate.Invalid.value then (false, f)
  else if bits = BitDepth.Invalid.value then (false, f)
  else if channels > 16 then (false, f)
  else if channels = 0 then (false, f)
  else
    let m_value := channels - 1
    match setBits m_value (BitDepth.ofValue bits) with
    -- The channels are stored by now.
    | none => (false, { f with m_value := m_value })
    | some m_value =>
      let (baseRate, multiplier, divisor) := rateFields (SampleRate.ofValue sr)
      let m_value := m_value ||| (baseRate <<< 14)
      let m_value := m_value ||| (multiplier <<< 11)
      let m_value := m_value ||| (divisor <<< 8)
      (true, { f with m_value := m_value })

/-- The switch of `getSampleRate`; it has no case for 22050. -/
def sampleRateOf : Nat → SampleRate
  | 16000 => .R16000
  | 32000 => .R32000
  | 44100 => .R44100
  | 48000 => .R48000
  | 96000 => .R96000
  | 192000 => .R192000
  | _ => .Invalid

def getSampleRate (f : StreamFormat) : SampleRate :=
  let baseRate := (f.m_value >>> 14) &&& 0x1
  let multiplier := (f.m_value >>> 11) &&& 0x7
  let divisor := (f.m_value >>> 8) &&& 0x7
  let rate : BitVec 32 := if baseRate = 0 then 48000 else 44100
  sampleRateOf (rate * (multiplier + 1) / (divisor + 1)).toNat

def getBitDepth (f : StreamFormat) : BitDepth :=
  match ((f.m_value >>> 4) &&& 0x7).toNat with
  | 0 => .B8
  | 1 => .B16
  | 2 => .B20
  | 3 => .B24
  | 4 => .B32
  | _ => .Invalid

def getChannels (f : StreamFormat) : BitVec 32 := (f.m_value &&& 0xF) + 1

end StreamFormat

/-- `toString(const BitDepth &)`, for enumerators. -/
def BitDepth.toString : BitDepth → String
  | Invalid => "Invalid"
  | B8 => "8 bits"
  | B16 => "16 bits"
  | B20 => "20 bits"
  | B24 => "24 bits"
  | B32 => "32 bits"

/-- `toString(const SampleRate &)`, for enumerators. -/
def SampleRate.toString : SampleRate → String
  | Invalid => "Invalid"
  | R16000 => "16000"
  | R22050 => "22050"
  | R32000 => "32000"
  | R44100 => "44100"
  | R48000 => "48000"
  | R96000 => "96000"
  | R192000 => "192000"

end TinyOS64
