/-
  File:      TinyOS64/Hda/Control.lean
  Subject:   Pin control, stream formats and the output node (hdacodec.cpp).
-/
import TinyOS64.Hda.Verbs
import TinyOS64.Hda.Widget

namespace TinyOS64

open Interaction

/-- `HDACodec::disablePinWidget`. -/
def disablePinWidget (w : Widget) : Prog Verbs Bool := do
  if w.m_type ≠ .PinComplex then pure false
  else
    match ← Verbs.ask 0 w.m_ID 0xF07 0 with
    | none => pure false
    | some ctrl =>
      let value := ctrl &&& 0x07
      let ctrl ← Verbs.ask 0 w.m_ID 0x707 value
      pure ctrl.isSome

/-- The pin-control value `enablePinWidget` sends: output enable, and the headphone driver where
    there is one. -/
def enabledPin (w : Widget) (ctrl : BitVec 32) : BitVec 32 :=
  let value := (ctrl &&& 0x07) ||| (1 <<< 6)
  if w.m_headphoneDriver then value ||| (1 <<< 7) else value

/-- `HDACodec::enablePinWidget`. -/
def enablePinWidget (w : Widget) : Prog Verbs Bool := do
  if w.m_type ≠ .PinComplex then pure false
  else
    match ← Verbs.ask 0 w.m_ID 0xF07 0 with
    | none => pure false
    | some ctrl =>
      let ctrl ← Verbs.ask 0 w.m_ID 0x707 (enabledPin w ctrl)
      pure ctrl.isSome

/-- `HDACodec::setIOWidgetFormat`. -/
def setIOWidgetFormat (w : Widget) (format : StreamFormat) : Prog Verbs Bool := do
  if w.m_type ≠ .Output ∧ w.m_type ≠ .Input then pure false
  else
    let ctrl ← Verbs.ask 0 w.m_ID 0x200 (format.m_value &&& 0xFFFF)
    pure ctrl.isSome

/-- `HDACodec::getIOWidgetFormat`. -/
def getIOWidgetFormat (w : Widget) : Prog Verbs (Option StreamFormat) := do
  if w.m_type ≠ .Output ∧ w.m_type ≠ .Input then pure none
  else
    let ctrl ← Verbs.ask 0 w.m_ID 0xA00 0
    pure (ctrl.map StreamFormat.mk)

/-- `HDACodec::setOutputNode`: stream 1, and the amplifier at its 0 dB setting. -/
def setOutputNode (node : BitVec 32) : Prog Verbs Bool := do
  match ← Verbs.ask 0 node 0xF00 0x12 with
  | none => pure false
  | some ampCap =>
    let maxVolume := ampCap &&& 0x7F
    match ← Verbs.ask 0 node 0x706 0x10 with
    | none => pure false
    | some _ =>
      let result ← Verbs.ask 0 node 0x300 (maxVolume ||| 0xF000)
      pure result.isSome

end TinyOS64
