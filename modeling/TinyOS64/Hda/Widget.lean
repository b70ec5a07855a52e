/-
  File:      TinyOS64/Hda/Widget.lean
  Subject:   The data model of hdacodec.h: amplifiers, jacks, widgets, stream formats, the codec.
-/
import Mathlib.Data.List.Basic

namespace TinyOS64

/-- `HDA::WidgetType`. -/
inductive WidgetType where
  | Unknown | Input | Output | Mixer | Selector | PinComplex | BeepGen | Vendor
  deriving DecidableEq, Repr

/-- `HDA::DefaultDevice`. -/
inductive DefaultDevice where
  | Unknown | LineOut | Speaker | LineIn | MicIn | HeadphoneOut | SPDIFin | SPDIFout
  deriving DecidableEq, Repr

/-- `HDA::Location`. -/
inductive Location where
  | Unknown | Front | Rear | Left | Right
  deriving DecidableEq, Repr

/-- `HDA::JackInfo`, as its constructor leaves it by default. -/
structure JackInfo where
  m_colour : BitVec 32 := 0
  m_location : Location := .Unknown
  m_isPhysical : Bool := false
  m_isInternal : Bool := false
  deriving DecidableEq, Repr

/-- `HDA::Amp`, as its constructor leaves it by default. The pairs are the two-element arrays:
    left (index 0), right (index 1). -/
structure Amp where
  m_canMute : Bool := false
  m_0dBSetting : BitVec 32 := 0
  m_muted : Bool × Bool := (false, false)
  m_volume : BitVec 32 × BitVec 32 := (0, 0)
  m_valid : Bool := false
  deriving DecidableEq, Repr

/-- `HDA::Widget`; the defaults are those of `init`, `Widget(id)` is `{ m_ID := id }` and the
    default constructor is `Widget(0)`. -/
structure Widget where
  m_ID : BitVec 32 := 0
  m_type : WidgetType := .Unknown
  m_connectionList : List (BitVec 32) := []
  m_inputAmps : List Amp := []
  m_outputAmp : Amp := {}
  m_channels : BitVec 32 := 0
  m_selection : BitVec 32 := 0
  m_defaultDevice : DefaultDevice := .Unknown
  m_headphoneDriver : Bool := false
  m_inputPin : Bool := false
  m_outputPin : Bool := false
  m_digital : Bool := false
  m_hasMute : Bool := false
  m_hasInputAmp : Bool := false
  m_hasOutputAmp : Bool := false
  m_supportedStreams : BitVec 32 := 0
  m_jackInfo : JackInfo := {}
  deriving DecidableEq, Repr

/-- `HDA::StreamFormat`: the format register's value. -/
structure StreamFormat where
  m_value : BitVec 32
  deriving DecidableEq, Repr

/-- The members of `HDACodec`; registers are reached by offset from `m_base`. -/
structure HDACodec where
  m_widgets : List Widget
  m_descriptorBuffer : BitVec 64
  m_audioBuffer : BitVec 64
  m_dmaPositionBuffer : BitVec 64
  m_inputDescriptor : Nat
  m_outputDescriptor : Nat

/-- `std::vector::resize`: cut, or filled with default-constructed elements. -/
def resize {α : Type} (v : List α) (n : Nat) (fill : α) : List α :=
  v.take n ++ List.replicate (n - v.length) fill

@[simp] theorem length_resize {α : Type} (v : List α) (n : Nat) (fill : α) :
    (resize v n fill).length = n := by
  simp only [resize, List.length_append, List.length_take, List.length_replicate]
  omega

theorem resize_nil {α : Type} (n : Nat) (fill : α) :
    resize [] n fill = List.replicate n fill := by
  simp [resize]

theorem length_foldl_set {α : Type} (f : Nat → Option α) (v : List α) (l : List Nat) :
    (l.foldl (fun v i => (f i).elim v (v.set i)) v).length = v.length := by
  induction l generalizing v with
  | nil => rfl
  | cons i l ih =>
      rw [List.foldl_cons, ih]
      cases f i with
      | none => rfl
      | some x => exact List.length_set

/-- **A table filled slot by slot**: a turn that stores nothing leaves its slot as it was. -/
theorem getElem?_foldl_set {α : Type} (f : Nat → Option α) (v : List α) (n i : Nat) :
    ((List.range n).foldl (fun v i => (f i).elim v (v.set i)) v)[i]? =
      if i < n then v[i]?.map (f i).getD else v[i]? := by
  induction n with
  | zero => simp
  | succ n ih =>
      have hlen := length_foldl_set f v (List.range n)
      rw [List.range_succ, List.foldl_append, List.foldl_cons, List.foldl_nil]
      by_cases e : i = n
      · subst e
        rw [if_pos (Nat.lt_succ_self i)]
        rw [if_neg (Nat.lt_irrefl i)] at ih
        cases hf : f i with
        | none =>
            rw [Option.elim_none, ih]
            cases v[i]? <;> rfl
        | some x =>
            rw [Option.elim_some, List.getElem?_set_self', ih]
            rfl
      · have hlt : i < n + 1 ↔ i < n := by omega
        simp only [hlt]
        cases hf : f n with
        | none => exact ih
        | some x => rw [Option.elim_some, List.getElem?_set_ne (Ne.symm e), ih]
end TinyOS64
