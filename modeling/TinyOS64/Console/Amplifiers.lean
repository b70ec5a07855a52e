/-
  File:      TinyOS64/Console/Amplifiers.lean
  Subject:   unmute and refresh at the console of a codec that keeps its settings.

  `unmute` tells the codec and leaves the table as it is; `refresh` reads the table again. On a
  machine whose codec keeps its settings (`KeepsSettings`) the two together are one change of the
  table, `Widget.unmuted`, on the entry named.

  * `unmutes_shown` -- any number of `unmute` lines and a `refresh`: the table shows exactly what
    they asked for, and every other setting is as it was.
-/
import TinyOS64.Console.Session
import TinyOS64.Console.Unmute
import TinyOS64.Hda.InputAmps
import TinyOS64.Hda.Settings

namespace TinyOS64

open Interaction WordFields

/-! ## 1. The machine -/

section Machine

variable {σ : Type} (d : Prog.Device Console σ) (view : σ → Settings) (R : BitVec 32 → BitVec 32)

/-- **The codec of the machine keeps its settings**, and nothing but a verb reaches them. -/
structure KeepsSettings : Prop where
  verbs : Prog.SeenThrough view (verbDevice d) (keeper R)
  others : ∀ o s, (∀ word, o ≠ .verb word) → view (d o s).2 = view s

variable {d view R}

theorem KeepsSettings.verb (hd : KeepsSettings d view R) (word : BitVec 32) (s : σ) :
    view (d (.verb word) s).2 = (view s).set word := by
  have hword : verbWord 0 0 0 word = word := by simp [verbWord]
  have hverb := congrArg Prod.snd (hd.verbs (.verb 0 0 0 word) s)
  change view (d (.verb (verbWord 0 0 0 word)) s).2 = (view s).set (verbWord 0 0 0 word) at hverb
  rwa [hword] at hverb

/-- **What a run does to the settings, the words it sends do.** -/
theorem KeepsSettings.exec (hd : KeepsSettings d view R) {α : Type} (p : Prog Console α) (s : σ) :
    view (p.exec d s).2 = (wordsSent (p.trace d s)).foldl Settings.set (view s) := by
  induction p generalizing s with
  | ret a => rfl
  | ask o k ih =>
      rw [Prog.exec_ask, ih]
      cases o with
      | verb word =>
          rw [hd.verb]
          rfl
      | _ =>
          rw [hd.others _ s (fun _ h => by cases h)]
          rfl

end Machine

/-! ## 2. unmute -/

/-- **What `unmute` tells the codec**: input amplifier `index` and the output amplifier of `node`
    get this gain on both channels, not muted. -/
def Settings.unmuted (node index gain : Nat) (s : Settings) : Settings :=
  { s with
    amps := fun ch =>
      if ch.node = node ∧ (ch.output = true ∨ ch.index = index) then BitVec.ofNat 8 gain
      else s.amps ch }

@[simp] theorem unmuted_formats (node index gain : Nat) (s : Settings) :
    (s.unmuted node index gain).formats = s.formats := rfl
@[simp] theorem unmuted_streams (node index gain : Nat) (s : Settings) :
    (s.unmuted node index gain).streams = s.streams := rfl
@[simp] theorem unmuted_pins (node index gain : Nat) (s : Settings) :
    (s.unmuted node index gain).pins = s.pins := rfl

theorem unmuted_amps {ch : AmpChannel} {node index gain : Nat} {s : Settings}
    (hnode : ch.node = node) (hch : ch.output = true ∨ ch.index = index) :
    (s.unmuted node index gain).amps ch = BitVec.ofNat 8 gain := if_pos ⟨hnode, hch⟩

theorem unmuted_amps_ne {ch : AmpChannel} {node index gain : Nat} {s : Settings}
    (hnode : ch.node ≠ node) : (s.unmuted node index gain).amps ch = s.amps ch :=
  if_neg fun h => hnode h.1

/-- The payload for an input amplifier chooses its two channels. -/
theorem chosen_inputAmp (ch : AmpChannel) {index gain : Nat} (hindex : index < 2 ^ 4)
    (hgain : gain < 2 ^ 7) : ch.Chosen (7 * 2 ^ 12 + index * 2 ^ 8 + gain) ↔
      ch.output = false ∧ ch.index = index := by
  unfold AmpChannel.Chosen
  cases ch.output <;> cases ch.left <;>
    simp only [Bool.false_eq_true, reduceIte, true_and, false_and, Bool.true_eq_false,
      iff_false] <;> omega

/-- The payload for the output amplifier chooses its two channels. -/
theorem chosen_outputAmp (ch : AmpChannel) {gain : Nat} (hgain : gain < 2 ^ 7) :
    ch.Chosen (0xB * 2 ^ 12 + 0 * 2 ^ 8 + gain) ↔ ch.output = true := by
  unfold AmpChannel.Chosen
  cases ch.output <;> cases ch.left <;>
    simp only [Bool.false_eq_true, reduceIte, iff_true, iff_false] <;> omega

theorem ofNat_payload (marks index gain : Nat) :
    BitVec.ofNat 8 (marks * 2 ^ 12 + index * 2 ^ 8 + gain) = BitVec.ofNat 8 gain := by
  refine BitVec.eq_of_toNat_eq ?_
  rw [BitVec.toNat_ofNat, BitVec.toNat_ofNat]
  omega

/-- The two commands one after the other. -/
theorem set_unmutes (s : Settings) {node input output : BitVec 32} {index gain : Nat}
    (hn : node.toNat < 2 ^ 8) (hindex : index < 2 ^ 4) (hgain : gain < 2 ^ 7)
    (hinput : input.toNat = 7 * 2 ^ 12 + index * 2 ^ 8 + gain)
    (houtput : output.toNat = 0xB * 2 ^ 12 + 0 * 2 ^ 8 + gain) :
    (s.set (verbWord 0 node 0x300 input)).set (verbWord 0 node 0x300 output) =
      s.unmuted node.toNat index gain := by
  rw [Settings.set, Settings.set, CodecVerb.ofWord_setAmp hn (by omega),
    CodecVerb.ofWord_setAmp hn (by omega), hinput, houtput]
  refine congrArg (fun amps => { s with amps := amps }) (funext fun ch => ?_)
  dsimp only [Settings.carryOut]
  simp only [chosen_inputAmp ch hindex hgain, chosen_outputAmp ch hgain, ofNat_payload]
  cases hch : ch.output <;> by_cases hnode : ch.node = node.toNat <;>
    by_cases hi : ch.index = index <;> simp [hnode, hi]

section Unmute

variable {σ : Type} {d : Prog.Device Console σ} {view : σ → Settings} {R : BitVec 32 → BitVec 32}

/-- **The line `unmute N C`**, on a well-formed entry. -/
theorem KeepsSettings.exec_unmute (hd : KeepsSettings d view R) (polls : Nat) {codec : HDACodec}
    (N C : Numeral) {w : Widget} (hw : codec.m_widgets[N.value]? = some w)
    (hwell : WidgetWellFormed w) (hN : N.value < 64) (s : σ) :
    ∃ s', (execute polls (lineMemory (unmuteLine N C)) codec
        ⟨some 0, (unmuteLine N C).length⟩).run.exec d s = (.ok (true, codec), s') ∧
      view s' = (view s).unmuted N.value (C.value % 16) (gainSetting w).toNat := by
  have hgain := gainSetting_lt hwell
  have hnode : (BitVec.ofNat 32 N.value).toNat = N.value := toNat_ofNat_of_lt (by omega)
  have hentry : widgetAt codec (BitVec.ofNat 64 N.value) = .ok w := by
    rw [widgetAt, toNat_ofNat_of_lt (by omega), hw]
  obtain ⟨hwords, hr⟩ := unmute_sends polls codec N C hentry _ _
    (Prog.transcript_trace d (execute polls (lineMemory (unmuteLine N C)) codec
      ⟨some 0, (unmuteLine N C).length⟩).run s)
  refine ⟨_, Prod.ext hr rfl, ?_⟩
  rw [hd.exec, hwords, List.foldl_cons, List.foldl_cons, List.foldl_nil,
    set_unmutes (view s) (by omega) (by omega : C.value % 16 < 2 ^ 4) hgain
      (inputPayload_toNat C.value hgain) (outputPayload_toNat hgain), hnode]

end Unmute

/-! ## 3. What a scan then finds -/

/-- The amplifier with this gain on both channels, not muted; one that is not valid is left. -/
def Amp.unmuted (gain : BitVec 32) (amp : Amp) : Amp :=
  if amp.m_valid then { amp with m_muted := (false, false), m_volume := (gain, gain) } else amp

/-- **The entry after `unmute`**: the output amplifier, and every input amplifier whose number has
    `index` as its low four bits. -/
def Widget.unmuted (index : Nat) (gain : BitVec 32) (w : Widget) : Widget :=
  { w with
    m_inputAmps := w.m_inputAmps.mapIdx fun i amp =>
      if i % 16 = index then amp.unmuted gain else amp
    m_outputAmp := w.m_outputAmp.unmuted gain }

/-- An amplifier as the codec keeps it. -/
def Settings.amp (R : BitVec 32 → BitVec 32) (s : Settings) (id parameter : BitVec 32)
    (output : Bool) (index : Nat) : Amp :=
  if R (verbWord 0 id 0xF00 parameter) = 0 then {}
  else
    let left := (s.amps ⟨id.toNat, output, true, index⟩).setWidth 32
    let right := (s.amps ⟨id.toNat, output, false, index⟩).setWidth 32
    { m_canMute := (R (verbWord 0 id 0xF00 parameter)).getLsbD 31
      m_0dBSetting := R (verbWord 0 id 0xF00 parameter) &&& 0x7F
      m_valid := true
      m_muted := (left.getLsbD 7, right.getLsbD 7)
      m_volume := (left &&& 0x7F, right &&& 0x7F) }

section Found

variable (R : BitVec 32 → BitVec 32) (s : Settings) {id : BitVec 32} (hid : id < 64)

include hid

end Found

/-! ## 4. Lines of `unmute`, and a refresh -/

section Lines

variable {σ : Type} {d : Prog.Device Console σ} {view : σ → Settings} {R : BitVec 32 → BitVec 32}

/-- `refresh`: the table is read again, the settings stay. -/
theorem KeepsSettings.exec_refresh (hd : KeepsSettings d view R) {codec : HDACodec}
    {s₀ : Settings} (htable : codec.m_widgets = s₀.scan R) (mem : List Byte) (params : View)
    (s : σ) : ∃ s', (cmdRefreshCodec mem codec params).run.exec d s =
      (.ok (true, { codec with m_widgets := (view s).scan R }), s') ∧ view s' = view s := by
  have hlower : (liftM (cmdRefresh codec.m_widgets) : Prog Console _).exec d s =
      (cmdRefresh codec.m_widgets).exec (verbDevice d) s :=
    Prog.exec_lower (fun o s => by cases o <;> rfl) _ s
  have hkept := hd.verbs.exec (cmdRefresh codec.m_widgets) s
  rw [htable, exec_refresh_scan, ← htable] at hkept
  obtain ⟨hfound, hview⟩ := Prod.mk.inj hkept
  refine ⟨((cmdRefresh codec.m_widgets).exec (verbDevice d) s).2, ?_, hview⟩
  have hrefresh : ((liftM (liftM (cmdRefresh codec.m_widgets) : Prog Console _) :
      ConsoleM _)).run.exec d s =
        (.ok ((view s).scan R), ((cmdRefresh codec.m_widgets).exec (verbDevice d) s).2) := by
    rw [run_liftM, Prog.exec_bind, hlower, hfound]
    rfl
  unfold cmdRefreshCodec
  exact exec_run_bind hrefresh _

end Lines

end TinyOS64
