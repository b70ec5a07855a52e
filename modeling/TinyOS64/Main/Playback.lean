/-
  File:      TinyOS64/Main/Playback.lean
  Subject:   What the set-up achieves: the buffer plays, and goes on playing.

  The machine is a plain window with its memory and a codec that keeps its settings
  (`audioMachine`). `Playing` is what both ends of the link owe each other: the stream runs over
  the audio buffer, and the converter takes this stream, in this format, to a pin that is enabled.

  * `setUpAudio_plays` -- after the set-up it plays;
  * `playing_session` -- and through every session at the prompt that does not write registers or
    send verbs of its own;
  * `runAudio_plays` -- so it plays after both.
-/
import TinyOS64.Console.Amplifiers
import TinyOS64.Hda.CyclicBuffer
import TinyOS64.Main.AudioBoot

namespace TinyOS64

open Interaction WordFields ByteMemory

/-! ## 1. The machine -/

/-- Registers and memory, and the codec behind them; nothing else answers. -/
def audioMachine (R : BitVec 32 → BitVec 32) : Prog.Device Console (PlainState × Settings) :=
  fun o s =>
    match o with
    | .register o => ((plainWindow o s.1).1, (plainWindow o s.1).2, s.2)
    | .verb word => (some (s.2.answer R word), s.1, s.2.set word)
    | o => (Console.silent o, s)

section Machine

variable {α β : Type} (R : BitVec 32 → BitVec 32) (s : PlainState × Settings)

theorem audioMachine_keeps : KeepsSettings (audioMachine R) Prod.snd R where
  verbs o s := by cases o <;> rfl
  others o s ho := by
    cases o with
    | verb word => exact absurd rfl (ho word)
    | _ => rfl

/-- Loads, get verbs and the firmware leave the machine as it is. -/
theorem audioMachine_still {o : ConsoleOp} (ho : ¬ o.Changes) : (audioMachine R o s).2 = s := by
  cases o with
  | register o =>
      cases o with
      | read8 | read16 | read32 | print => rfl
      | _ => exact absurd trivial ho
  | verb word => exact Prod.ext rfl (s.2.set_get (not_not.mp ho))
  | _ => rfl

/-- A register program runs on the window. -/
theorem exec_registers (p : Prog Mmio α) : (liftM p : Prog Console α).exec (audioMachine R) s =
    ((p.exec plainWindow s.1).1, (p.exec plainWindow s.1).2, s.2) := by
  induction p generalizing s with
  | ret a => rfl
  | ask o k ih => exact ih _ _

/-- A verb program runs on the codec. -/
theorem exec_verbs (p : Prog Verbs α) : (liftM p : Prog Console α).exec (audioMachine R) s =
    ((p.exec (keeper R) s.2).1, s.1, (p.exec (keeper R) s.2).2) := by
  induction p generalizing s with
  | ret a => rfl
  | ask o k ih =>
      cases o with
      | verb | print => exact ih _ _

theorem exec_registers_bind (p : Prog Mmio α) (f : α → ConsoleM β) :
    ((liftM p : ConsoleM α) >>= f).run.exec (audioMachine R) s =
      (f (p.exec plainWindow s.1).1).run.exec (audioMachine R)
        ((p.exec plainWindow s.1).2, s.2) := by
  have hrun : ((liftM p : ConsoleM α) >>= f).run =
      (liftM p : Prog Console α) >>= fun a => (f a).run := run_liftM_bind (liftM p) f
  rw [hrun, Prog.exec_bind, exec_registers]

theorem exec_verbs_bind (p : Prog Verbs α) (f : α → ConsoleM β) :
    ((liftM p : ConsoleM α) >>= f).run.exec (audioMachine R) s =
      (f (p.exec (keeper R) s.2).1).run.exec (audioMachine R)
        (s.1, (p.exec (keeper R) s.2).2) := by
  have hrun : ((liftM p : ConsoleM α) >>= f).run =
      (liftM p : Prog Console α) >>= fun a => (f a).run := run_liftM_bind (liftM p) f
  rw [hrun, Prog.exec_bind, exec_verbs]

/-- What only prints leaves the machine as it is. -/
theorem exec_print_bind (fmt : String) (va : List Arg) (f : Unit → ConsoleM β) :
    ((liftM (Console.print fmt va) : ConsoleM Unit) >>= f).run.exec (audioMachine R) s =
      (f ()).run.exec (audioMachine R) s := rfl

end Machine

/-! ## 2. The reset -/

/-- What GCAP holds. -/
def capabilitiesOf (w : PlainState) : BitVec 64 := BitVec.ofNat 64 (peek w.window 0x00 2)

section Reset

variable {polls : Nat} (hpolls : 0 < polls) (codec : HDACodec) (w : PlainState)

theorem exec_showController : showController.exec plainWindow w = ((), w) := by
  have hget : getReg (bytes "intctl") = some ⟨0x20, 4, "intctl"⟩ :=
    getReg_name (r := ⟨0x20, 4, "intctl"⟩) (by decide)
  unfold showController
  simp only [Prog.exec_bind, exec_readReg getReg_gcap, exec_readReg getReg_gctl, exec_readReg hget,
    exec_print]
  rfl

/-- A stored word with bit 0 is seen with bit 0. -/
theorem stored_bit (m : Memory) (g : BitVec 32) :
    ¬ BitVec.ofNat 64 (peek (poke m 0x08 4 ((g ||| 1).setWidth 64).toNat) 0x08 4) &&& 1 = 0 := by
  have hlt : ((g ||| 1).setWidth 64).toNat < 256 ^ 4 := by
    rw [BitVec.toNat_setWidth_of_le (by decide)]
    exact (g ||| 1).isLt
  rw [peek_poke_same, Nat.mod_eq_of_lt hlt, BitVec.ofNat_toNat, BitVec.setWidth_eq]
  intro h
  have hbit := congrArg (fun x : BitVec 64 => x.getLsbD 0) h
  simp at hbit

include hpolls

/-- Once the bit is seen the wait is over. -/
theorem exec_waitReset (h : ¬ BitVec.ofNat 64 (peek w.window 0x08 4) &&& 1 = 0) :
    (waitReset polls).exec plainWindow w = (true, w) := by
  obtain ⟨polls, rfl⟩ := Nat.exists_eq_add_one.mpr hpolls
  unfold waitReset
  rw [Prog.exec_bind, exec_readReg getReg_gctl, if_neg h]
  rfl

/-- **The controller leaves its reset at once**, on a window that keeps what is written. -/
theorem exec_reset : ∃ w', (reset polls codec).exec plainWindow w =
    (some (setDescriptors codec (capabilitiesOf w)), w') := by
  unfold reset
  simp only [Prog.exec_bind, exec_readReg getReg_gctl, exec_writeReg getReg_gctl, exec_print]
  rw [exec_waitReset hpolls]
  case h => exact stored_bit _ _
  dsimp only
  rw [if_pos rfl]
  simp only [Prog.exec_bind, exec_readReg getReg_gcap, exec_print]
  refine ⟨_, Prod.ext ?_ rfl⟩
  show some (setDescriptors codec (BitVec.ofNat 64 (peek (poke (poke _ _ _ _) _ _ _) 0 2))) = _
  rw [peek_poke_disjoint _ (.inr (by decide)), peek_poke_disjoint _ (.inr (by decide))]
  rfl

end Reset
/-! ## 3. The codec after the set-up -/

/-- **What `setOutputNode` tells the codec**: stream 1 for the node, its amplifiers not muted, at
    the 0 dB setting of the output amplifier. -/
def Settings.outputNode (R : BitVec 32 → BitVec 32) (node : BitVec 32) (k : Settings) : Settings :=
  { k.unmuted node.toNat 0 (R (verbWord 0 node 0xF00 0x12) &&& 0x7F).toNat with
    streams := Function.update k.streams node.toNat 0x10 }

/-- The payload chooses the output amplifier and the first input amplifier. -/
theorem chosen_both (ch : AmpChannel) {gain : Nat} (hgain : gain < 2 ^ 7) :
    ch.Chosen (0xF * 2 ^ 12 + 0 * 2 ^ 8 + gain) ↔ ch.output = true ∨ ch.index = 0 := by
  unfold AmpChannel.Chosen
  cases ch.output <;> cases ch.left <;>
    simp only [Bool.false_eq_true, reduceIte, false_or, true_or, iff_true] <;> omega

theorem exec_setOutputNode (R : BitVec 32 → BitVec 32) {node : BitVec 32} (hnode : node < 64)
    (k : Settings) : (setOutputNode node).exec (keeper R) k = (true, k.outputNode R node) := by
  have hn : node.toNat < 2 ^ 8 := by bv_omega
  have hcaps : k.answer R (verbWord 0 node 0xF00 0x12) = R (verbWord 0 node 0xF00 0x12) :=
    answer_fixed R k hnode (by decide) (by decide)
  have hask : k.set (verbWord 0 node 0xF00 0x12) = k := k.set_get (getLsbD_get (by decide))
  have hstream : CodecVerb.ofWord (verbWord 0 node 0x706 0x10) = .setStream node.toNat 0x10 :=
    CodecVerb.ofWord_twelve hn (.inl rfl) (by decide)
  have hgain : (R (verbWord 0 node 0xF00 0x12) &&& 0x7F).toNat < 2 ^ 7 := and_toNat_lt _ (by decide)
  have hpayload : ((R (verbWord 0 node 0xF00 0x12) &&& 0x7F) ||| 0xF000).toNat =
      0xF * 2 ^ 12 + 0 * 2 ^ 8 + (R (verbWord 0 node 0xF00 0x12) &&& 0x7F).toNat := by
    have hfields := payload_toNat 0xF 0 (by decide) (by decide) hgain
    rwa [show (0xF : BitVec 32) <<< 12 ||| (0 : BitVec 32) <<< 8 = 0xF000 by decide,
      BitVec.or_comm] at hfields
  show (true, ((k.set (verbWord 0 node 0xF00 0x12)).set (verbWord 0 node 0x706 0x10)).set
    (verbWord 0 node 0x300 ((k.answer R (verbWord 0 node 0xF00 0x12) &&& 0x7F) ||| 0xF000))) = _
  rw [hcaps, hask, Settings.set, Settings.set, hstream, CodecVerb.ofWord_setAmp hn (by omega),
    hpayload]
  simp only [Settings.carryOut, chosen_both _ hgain, ofNat_payload]
  rfl

/-- An entry of known type is its node's. -/
theorem scan_entry {R : BitVec 32 → BitVec 32} {k : Settings} {i : Nat} {w : Widget}
    (hw : (k.scan R)[i]? = some w) (htype : w.m_type ≠ .Unknown) : w.m_ID = BitVec.ofNat 32 i := by
  rw [Settings.scan, collect_empty, List.getElem?_map] at hw
  obtain ⟨j, hj, hw⟩ := Option.map_eq_some_iff.mp hw
  obtain ⟨hlt, rfl⟩ := List.getElem?_eq_some_iff.mp hj
  rw [List.getElem_range] at hw
  cases hfound : scanned (fun word => some (k.answer R word)) (BitVec.ofNat 32 i) with
  | none =>
      rw [hfound] at hw
      exact absurd (congrArg Widget.m_type hw).symm htype
  | some w' =>
      rw [hfound] at hw
      exact (congrArg Widget.m_ID hw).symm.trans (scanned_id hfound)

/-- What `unmute` with channel 0 tells the codec, the gain from the table. -/
def Settings.unmutedAt (table : List Widget) (node : Nat) (k : Settings) : Settings :=
  k.unmuted node 0 (gainSetting (table[node]?.getD {})).toNat

/-- **The settings after the set-up.** -/
def Settings.setUp (R : BitVec 32 → BitVec 32) (table : List Widget) (k : Settings) : Settings :=
  let k := k.outputNode R 2
  let k := table[27]?.elim k fun w => onPin w (enabledControl w) k
  let k := table[2]?.elim k fun w => onFormat w streamFormat k
  (k.unmutedAt table 12).unmutedAt table 27

section SetUp

variable (R : BitVec 32 → BitVec 32) (polls : Nat) {codec : HDACodec}
  (hwell : TableWellFormed codec.m_widgets) (s : PlainState × Settings)

include hwell

/-- `unmute N 0` on the machine: no register is written. -/
theorem exec_unmuteLiteral (N : Numeral) (hN : N.value < 64) {line : String}
    (hline : bytes line = unmuteLine N ⟨bytes "0", 0, by decide, by decide⟩) :
    (executeLiteral polls line codec).run.exec (audioMachine R) s =
      (.ok codec, s.1, s.2.unmutedAt codec.m_widgets N.value) := by
  have hin : N.value < codec.m_widgets.length := by rw [hwell.length]; exact hN
  obtain ⟨s', hrun, hset⟩ := (audioMachine_keeps R).exec_unmute polls N
    ⟨bytes "0", 0, by decide, by decide⟩ (List.getElem?_eq_getElem hin)
    (hwell.widgets _ (List.getElem_mem hin)) hN s
  rw [← hline] at hrun
  have hcommand : commandOf (bytes line) = some .unmute := by
    rw [hline]
    exact (unmuteLine_command _ _).1
  have hwindow : s'.1 = s.1 := by
    have hkeeps := Prog.AsksOnly.keeps (I := fun t => t.1 = s.1) (d := audioMachine R)
      (fun o t ho ht => ?_) (execute_confined polls codec (bytes line)) (s := s) rfl
    · rw [hrun] at hkeeps
      exact hkeeps
    · obtain ⟨c, hc, hmay⟩ := ho
      cases hcommand.symm.trans hc
      cases hmay with
      | setAmp => exact ht
      | shows h => exact (congrArg Prod.fst (audioMachine_still R t (printFits_still h))).trans ht
  rw [executeLiteral, exec_run_bind hrun]
  refine Prod.ext rfl (Prod.ext hwindow ?_)
  refine hset.trans ?_
  rw [Settings.unmutedAt, List.getElem?_eq_getElem hin]
  rfl

/-- **The set-up of the output**: the codec gets its settings, and `playSound` comes last on the
    window. -/
theorem exec_setUpOutput : ∃ w, (setUpOutput polls codec).run.exec (audioMachine R) s =
    (.ok codec, ((playSound codec (16 * 4096) streamFormat).exec plainWindow w).2,
      s.2.setUp R codec.m_widgets) := by
  have hentry : ∀ i < 64, ∃ w, widgetAt codec (BitVec.ofNat 64 i) = .ok w ∧
      codec.m_widgets[i]? = some w ∧ w.m_ID < 64 := by
    intro i hi
    have hin : i < codec.m_widgets.length := by rw [hwell.length]; exact hi
    refine ⟨codec.m_widgets[i], ?_, List.getElem?_eq_getElem hin,
      (hwell.widgets _ (List.getElem_mem hin)).id⟩
    rw [widgetAt, toNat_ofNat_of_lt (by omega), List.getElem?_eq_getElem hin]
  obtain ⟨w₂, hat₂, hw₂, hid₂⟩ := hentry 2 (by decide)
  obtain ⟨w₂₇, hat₂₇, hw₂₇, hid₂₇⟩ := hentry 27 (by decide)
  change widgetAt codec 2 = .ok w₂ at hat₂
  change widgetAt codec 27 = .ok w₂₇ at hat₂₇
  have hprint : ∀ (p : Prog Console Unit) (f : Unit → ConsoleM HDACodec) t,
      (∃ fmt va, p = Console.print fmt va) ∨ p = pure () →
      ((liftM p : ConsoleM Unit) >>= f).run.exec (audioMachine R) t =
        (f ()).run.exec (audioMachine R) t := by
    rintro p f t (⟨fmt, va, rfl⟩ | rfl) <;> rfl
  have hreport : ∀ sf, (∃ fmt va, reportOldFormat sf = Console.print fmt va) ∨
      reportOldFormat sf = pure () := by
    intro sf
    cases sf with
    | none => exact .inr rfl
    | some sf => exact .inl ⟨_, _, rfl⟩
  unfold setUpOutput unmuteAndPlay
  rw [exec_verbs_bind, exec_setOutputNode R (by decide),
    hprint (reportOutputNode _) _ _ (.inl ⟨_, _, rfl⟩), exec_registers_bind, exec_registers_bind,
    exec_registers_bind, hat₂₇, liftM_ok_bind, exec_verbs_bind, hat₂, liftM_ok_bind,
    exec_verbs_bind, exec_enablePinWidget R hid₂₇, exec_getIOWidgetFormat R hid₂,
    hprint (reportOldFormat _) _ _ (hreport _), exec_verbs_bind, exec_setIOWidgetFormat R hid₂]
  rw [exec_run_bind (exec_unmuteLiteral R polls hwell _ ⟨bytes "12", 12, by decide, by decide⟩
    (by decide) (by decide +kernel))]
  rw [exec_run_bind (exec_unmuteLiteral R polls hwell _ ⟨bytes "27", 27, by decide, by decide⟩
    (by decide) (by decide +kernel)), exec_registers_bind]
  refine ⟨_, Prod.ext rfl (Prod.ext rfl ?_)⟩
  show _ = Settings.setUp R codec.m_widgets s.2
  rw [Settings.setUp, hw₂, hw₂₇]
  rfl

end SetUp

/-! ## 4. What the link needs -/

/-- The nodes on the way of the sound: the converter, the mixer between, the pin. -/
def soundPath : List Nat := [2, 12, 27]

/-- **The buffer plays**: the stream runs, over descriptors that are the whole audio buffer and a
    cyclic buffer of its length; the converter takes the stream of this number in the format it is
    sent in, the pin is enabled, and of the nodes on the way neither the output amplifier nor the
    first input amplifier is muted, on either side. -/
structure Playing (codec : HDACodec) (s : PlainState × Settings) : Prop where
  running : (s.1.window codec.m_outputDescriptor).getLsbD 1 = true
  entries : descriptorEntries codec s.1 =
    [⟨codec.m_audioBuffer.toNat, 16 * 4096⟩, ⟨codec.m_audioBuffer.toNat, 16 * 4096⟩]
  cyclic : cyclicBufferLength codec s.1 = 16 * 4096
  stream : (s.1.window (codec.m_outputDescriptor + 2)).toNat / 2 ^ 4 =
    (s.2.streams 2).toNat / 2 ^ 4
  used : 0 < (s.2.streams 2).toNat / 2 ^ 4
  format : peek s.1.window (codec.m_outputDescriptor + 0x12) 2 = (s.2.formats 2).toNat
  pin : (s.2.pins 27).getLsbD 6 = true
  unmuted : ∀ ch : AmpChannel, ch.node ∈ soundPath → ch.output = true ∨ ch.index = 0 →
    (s.2.amps ch).getLsbD 7 = false

section Playing

/-- A gain has no mute bit. -/
theorem unmuted_getLsbD {gain : Nat} (hgain : gain < 2 ^ 7) :
    (BitVec.ofNat 8 gain).getLsbD 7 = false := by
  rw [BitVec.getLsbD_ofNat]
  simp [Nat.testBit_lt_two_pow hgain]

/-- **The settings after the set-up are the ones the link needs**, where node 2 is a converter and
    node 27 a pin. -/
theorem setUp_settings {R : BitVec 32 → BitVec 32} {table : List Widget}
    (hwell : TableWellFormed table) (k : Settings) {w₂ w₂₇ : Widget} (hw₂ : table[2]? = some w₂)
    (hid₂ : w₂.m_ID = 2) (hconverter : w₂.m_type = .Output ∨ w₂.m_type = .Input)
    (hw₂₇ : table[27]? = some w₂₇) (hid₂₇ : w₂₇.m_ID = 27) (hpin : w₂₇.m_type = .PinComplex) :
    let k' := k.setUp R table
    k'.streams 2 = 0x10 ∧ k'.formats 2 = streamFormat.m_value.setWidth 16 ∧
      (k'.pins 27).getLsbD 6 = true ∧
      ∀ ch : AmpChannel, ch.node ∈ soundPath → ch.output = true ∨ ch.index = 0 →
        (k'.amps ch).getLsbD 7 = false := by
  have hgain : ∀ node < 64, (gainSetting (table[node]?.getD {})).toNat < 2 ^ 7 := by
    intro node hnode
    have hin : node < table.length := by rw [hwell.length]; exact hnode
    rw [List.getElem?_eq_getElem hin]
    exact gainSetting_lt (hwell.widgets _ (List.getElem_mem hin))
  have hbit : ∀ c : BitVec 8, ∀ b : Bool,
      ((c &&& 7) ||| 0x40 ||| (if b then 0x80 else 0)).getLsbD 6 = true := by decide
  have h0dB : (R (verbWord 0 2 0xF00 0x12) &&& 0x7F).toNat < 2 ^ 7 := and_toNat_lt _ (by decide)
  dsimp only [Settings.setUp, Settings.unmutedAt]
  rw [hw₂, hw₂₇]
  dsimp only [Option.elim_some]
  refine ⟨?_, ?_, ?_, fun ch hnode hch => ?_⟩
  · simp only [unmuted_streams, onFormat_streams, onPin_streams]
    exact Function.update_self 2 (0x10 : BitVec 8) k.streams
  · rw [unmuted_formats, unmuted_formats]
    have hformat := onFormat_formats streamFormat
      (onPin w₂₇ (enabledControl w₂₇) (k.outputNode R 2)) hconverter
    rwa [hid₂] at hformat
  · rw [unmuted_pins, unmuted_pins, onFormat_pins]
    have hcontrol := onPin_pins (enabledControl w₂₇) (k.outputNode R 2) hpin
    rw [hid₂₇] at hcontrol
    exact (congrArg (fun c : BitVec 8 => c.getLsbD 6) hcontrol).trans (hbit _ _)
  · simp only [soundPath, List.mem_cons, List.not_mem_nil, or_false] at hnode
    rcases hnode with hnode | hnode | hnode
    · rw [unmuted_amps_ne (by omega), unmuted_amps_ne (by omega), onFormat_amps, onPin_amps]
      exact (congrArg (·.getLsbD 7) (unmuted_amps hnode hch)).trans (unmuted_getLsbD h0dB)
    · rw [unmuted_amps_ne (by omega), unmuted_amps hnode hch]
      exact unmuted_getLsbD (hgain 12 (by decide))
    · rw [unmuted_amps hnode hch, ← hw₂₇]
      exact unmuted_getLsbD (hgain 27 (by decide))

/-- **After the set-up of the output the buffer plays.** -/
theorem setUpOutput_plays (R : BitVec 32 → BitVec 32) (polls : Nat) {codec : HDACodec}
    (hout : 0x80 ≤ codec.m_outputDescriptor)
    (hlist : codec.m_descriptorBuffer.toNat + 4096 ≤ 2 ^ 32)
    (haudio : codec.m_audioBuffer.toNat < 2 ^ 32) (hwell : TableWellFormed codec.m_widgets)
    {w₂ w₂₇ : Widget} (hw₂ : codec.m_widgets[2]? = some w₂) (hid₂ : w₂.m_ID = 2)
    (hconverter : w₂.m_type = .Output ∨ w₂.m_type = .Input)
    (hw₂₇ : codec.m_widgets[27]? = some w₂₇) (hid₂₇ : w₂₇.m_ID = 27)
    (hpin : w₂₇.m_type = .PinComplex) (s : PlainState × Settings) :
    ∃ s', (setUpOutput polls codec).run.exec (audioMachine R) s = (.ok codec, s') ∧
      Playing codec s' := by
  obtain ⟨w, hrun⟩ := exec_setUpOutput R polls hwell s
  obtain ⟨hstreams, hformats, hpins, hamps⟩ :=
    setUp_settings (R := R) hwell s.2 hw₂ hid₂ hconverter hw₂₇ hid₂₇ hpin
  obtain ⟨before, hwindow⟩ := playSound_window codec (16 * 4096) streamFormat w
  refine ⟨_, hrun, ?_⟩
  generalize hfinal : ((playSound codec (16 * 4096) streamFormat).exec plainWindow w).2 = final
  rw [hfinal] at hwindow
  have hentries := playSound_entries (16 * 4096) streamFormat w hout hlist haudio
  have hformat := playSound_format codec (16 * 4096) streamFormat w hout
  have hlength := playSound_length codec (16 * 4096) streamFormat w hout
  rw [hfinal] at hentries hformat hlength
  exact
    { running := by
        show (final.window codec.m_outputDescriptor).getLsbD 1 = true
        rw [hwindow, poke_inside (by omega) (by omega), Nat.sub_self]
        decide
      entries := hentries
      cyclic := hlength
      stream := by
        show (final.window (codec.m_outputDescriptor + 2)).toNat / 2 ^ 4 = _
        rw [hstreams, hwindow, poke_inside (by omega) (by omega), Nat.add_sub_cancel_left]
        decide
      used := by
        rw [hstreams]
        decide
      format := by
        rw [hformats, BitVec.toNat_setWidth]
        exact hformat
      pin := hpins
      unmuted := hamps }

end Playing

/-- **After the set-up the buffer plays**: for every codec whose table a scan has found, with a
    converter as node 2 and a pin as node 27, its buffers below 4 GiB. -/
theorem setUpAudio_plays (R : BitVec 32 → BitVec 32) {polls : Nat} (hpolls : 0 < polls)
    {codec : HDACodec} {k : Settings} (htable : codec.m_widgets = k.scan R)
    (hlist : codec.m_descriptorBuffer.toNat + 4096 ≤ 2 ^ 32)
    (haudio : codec.m_audioBuffer.toNat < 2 ^ 32) {w₂ w₂₇ : Widget}
    (hw₂ : codec.m_widgets[2]? = some w₂) (hconverter : w₂.m_type = .Output ∨ w₂.m_type = .Input)
    (hw₂₇ : codec.m_widgets[27]? = some w₂₇) (hpin : w₂₇.m_type = .PinComplex)
    (s : PlainState × Settings) :
    let codec' := setDescriptors codec (capabilitiesOf s.1)
    ∃ s', (setUpAudio polls codec).run.exec (audioMachine R) s = (.ok (some codec'), s') ∧
      Playing codec' s' := by
  intro codec'
  have hwell : TableWellFormed codec.m_widgets := htable ▸ wellFormed_scan R k
  have hid₂ : w₂.m_ID = 2 := by
    refine scan_entry (htable ▸ hw₂) fun h => ?_
    rcases hconverter with hc | hc <;> cases h.symm.trans hc
  have hid₂₇ : w₂₇.m_ID = 27 := scan_entry (htable ▸ hw₂₇) fun h => by cases h.symm.trans hpin
  have hwakeen : getReg (bytes "wakeen") = some ⟨0x0C, 2, "wakeen"⟩ :=
    getReg_name (r := ⟨0x0C, 2, "wakeen"⟩) (by decide)
  have hgcap : capabilitiesOf ⟨poke s.1.window 0x0C 2 (0x7F : BitVec 64).toNat, s.1.ram⟩ =
      capabilitiesOf s.1 := by
    unfold capabilitiesOf
    rw [peek_poke_disjoint _ (.inr (by decide))]
  obtain ⟨w, hreset⟩ := exec_reset hpolls codec
    ⟨poke s.1.window 0x0C 2 (0x7F : BitVec 64).toNat, s.1.ram⟩
  rw [hgcap] at hreset
  have hshow : ∀ t, (liftM (showAudio codec') : ConsoleM Unit).run.exec (audioMachine R) t =
      (.ok (), ((showAudio codec').exec (audioMachine R) t).2) := by
    intro t
    rw [run_liftM, Prog.exec_bind]
    rfl
  have hout : 0x80 ≤ codec'.m_outputDescriptor := Nat.le_add_right _ _
  obtain ⟨s', hplays, hplaying⟩ := setUpOutput_plays R polls hout hlist haudio hwell hw₂ hid₂
    hconverter hw₂₇ hid₂₇ hpin ((showAudio codec').exec (audioMachine R) (w, s.2)).2
  refine ⟨s', ?_, hplaying⟩
  unfold setUpAudio
  rw [exec_registers_bind, exec_showController, exec_registers_bind, exec_writeReg hwakeen,
    exec_registers_bind]
  dsimp only
  rw [hreset]
  dsimp only
  rw [exec_run_bind (hshow _), exec_run_bind hplays, exec_print_bind]
  rfl

/-! ## 5. Lines typed at the prompt -/

/-- What `unmute` asks: prints, and set-amplifier commands without the mute bit. -/
def ConsoleOp.Unmutes : ConsoleOp → Prop
  | register (.print ..) => True
  | verb word => ∃ node payload, CodecVerb.ofWord word = .setAmp node payload ∧
      payload / 2 ^ 7 % 2 = 0
  | _ => False

theorem cmdUnmute_confined {codec : HDACodec} (hwell : TableWellFormed codec.m_widgets)
    (mem : List Byte) (params : View) :
    Confined ConsoleOp.Unmutes (cmdUnmute mem codec params) := by
  unfold cmdUnmute
  refine confined_value fun _ _ => confined_value fun widgetID _ => confined_value fun _ _ =>
    confined_value fun channel _ => confined_value fun w hw => ?_
  have hentry : codec.m_widgets[(widgetID.getD 0).toNat]? = some w := by
    unfold widgetAt at hw
    split at hw
    · cases hw
    · cases hw
      assumption
  obtain ⟨hin, rfl⟩ := List.getElem?_eq_some_iff.mp hentry
  have hgain := gainSetting_lt (hwell.widgets _ (List.getElem_mem hin))
  have hnode : ((widgetID.getD 0).setWidth 32).toNat < 2 ^ 8 := by
    have hlength := hwell.length
    rw [BitVec.toNat_setWidth]
    omega
  have hinput := inputPayload_toNat (channel.getD 0).toNat hgain
  rw [BitVec.ofNat_toNat, BitVec.setWidth_eq] at hinput
  have houtput := outputPayload_toNat hgain
  refine confined_after (Prog.asksOnly_once trivial) fun _ => ?_
  refine confined_after (Prog.avoids_bind (Prog.asksOnly_once
    ⟨_, _, CodecVerb.ofWord_setAmp hnode (by omega), by omega⟩) fun _ => trivial) fun _ => ?_
  exact confined_after (Prog.avoids_bind (Prog.asksOnly_once
    ⟨_, _, CodecVerb.ofWord_setAmp hnode (by omega), by omega⟩) fun _ => trivial) fun _ =>
      confined_pure _

/-- A question that cannot stop the sound. -/
def ConsoleOp.SparesSound (o : ConsoleOp) : Prop :=
  ¬ o.Changes ∨ (∃ mode, o = .setMode mode) ∨ o.Unmutes

/-- Lines of any command but the two that reach the hardware as they are told. -/
def LineSparesSound (line : List Byte) : Prop :=
  commandOf line ≠ some .write ∧ commandOf line ≠ some .nodeio

section Session

variable (R : BitVec 32 → BitVec 32) {codec : HDACodec} {s : PlainState × Settings}

/-- A set-amplifier command without the mute bit leaves it playing. -/
theorem playing_setAmp {word : BitVec 32} {node payload : Nat}
    (hword : CodecVerb.ofWord word = .setAmp node payload) (hmute : payload / 2 ^ 7 % 2 = 0)
    (h : Playing codec s) : Playing codec (audioMachine R (.verb word) s).2 := by
  have hbit : (BitVec.ofNat 8 payload).getLsbD 7 = false := by
    rw [BitVec.getLsbD_ofNat, Nat.testBit_eq_decide_div_mod_eq, hmute]
    rfl
  have hset : s.2.set word = s.2.carryOut (.setAmp node payload) := congrArg s.2.carryOut hword
  show Playing codec (s.1, s.2.set word)
  rw [hset]
  refine { h with unmuted := fun ch hnode hch => ?_ }
  dsimp only [Settings.carryOut]
  split
  · exact hbit
  · exact h.unmuted ch hnode hch

/-- **One question.** -/
theorem playing_ask {o : ConsoleOp} (ho : o.SparesSound) (h : Playing codec s) :
    Playing codec (audioMachine R o s).2 := by
  rcases ho with ho | ⟨mode, rfl⟩ | ho
  · rw [audioMachine_still R s ho]
    exact h
  · exact h
  · cases o with
    | register o =>
        cases o with
        | print => exact h
        | _ => exact ho.elim
    | verb word =>
        obtain ⟨node, payload, hword, hmute⟩ := ho
        exact playing_setAmp R hword hmute h
    | _ => exact ho.elim

/-- **One line.** -/
theorem line_sparesSound (polls : Nat) (hwell : TableWellFormed codec.m_widgets)
    {line : List Byte} (hline : LineSparesSound line) : Confined ConsoleOp.SparesSound
      (execute polls (lineMemory line) codec ⟨some 0, line.length⟩) := by
  by_cases hunmute : commandOf line = some .unmute
  · rw [execute_eq, hunmute]
    exact Prog.AsksOnly.mono (fun o ho => .inr (.inr ho)) (cmdUnmute_confined hwell _ _)
  · refine (execute_confined polls codec line).mono fun o ho => ?_
    obtain ⟨c, hc, hmay⟩ := ho
    by_cases hreads : c.ReadsOnly
    · exact .inl (may_still hreads hmay)
    · cases c with
      | write => exact absurd hc hline.1
      | nodeio => exact absurd hc hline.2
      | unmute => exact absurd hc hunmute
      | settextmode =>
          cases hmay with
          | setMode => exact .inr (.inl ⟨_, rfl⟩)
          | shows h => exact .inl (printFits_still h)
      | _ => exact absurd (by decide) hreads

/-- **A session**: each line meets a well-formed table, as the line before has left it. -/
theorem lines_spareSound (polls : Nat) (hwell : TableWellFormed codec.m_widgets)
    {lines : List (List Byte)} (hlines : ∀ line ∈ lines, LineSparesSound line) :
    Confined ConsoleOp.SparesSound (runLines polls lines codec) := by
  induction lines generalizing codec with
  | nil => exact confined_pure _
  | cons line lines ih =>
      refine confined_bind_yields (line_sparesSound polls hwell (hlines line List.mem_cons_self))
        (execute_codec polls codec line) fun r hr => ?_
      exact ih (hr.wellFormed hwell) fun line' hline' =>
        hlines line' (List.mem_cons_of_mem _ hline')

/-- **It plays through a session**, wherever the session ends. -/
theorem playing_session (polls : Nat) (hwell : TableWellFormed codec.m_widgets)
    {lines : List (List Byte)} (hlines : ∀ line ∈ lines, LineSparesSound line)
    (h : Playing codec s) :
    Playing codec ((runLines polls lines codec).run.exec (audioMachine R) s).2 :=
  Prog.AsksOnly.keeps (fun _ _ ho hI => playing_ask R ho hI)
    (lines_spareSound polls hwell hlines) h

end Session

/-- **The sound the program starts goes on**: with a table a scan has found, a converter as node 2,
    a pin as node 27 and the buffers below 4 GiB, the program sets the sound up, and it plays after
    every session at the prompt that neither writes registers nor sends verbs of its own. -/
theorem runAudio_plays (R : BitVec 32 → BitVec 32) {polls : Nat} (hpolls : 0 < polls)
    {codec : HDACodec} {k : Settings} (htable : codec.m_widgets = k.scan R)
    (hlist : codec.m_descriptorBuffer.toNat + 4096 ≤ 2 ^ 32)
    (haudio : codec.m_audioBuffer.toNat < 2 ^ 32) {w₂ w₂₇ : Widget}
    (hw₂ : codec.m_widgets[2]? = some w₂) (hconverter : w₂.m_type = .Output ∨ w₂.m_type = .Input)
    (hw₂₇ : codec.m_widgets[27]? = some w₂₇) (hpin : w₂₇.m_type = .PinComplex)
    {lines : List (List Byte)} (hlines : ∀ line ∈ lines, LineSparesSound line)
    (s : PlainState × Settings) :
    Playing (setDescriptors codec (capabilitiesOf s.1))
      ((runAudio polls lines codec).run.exec (audioMachine R) s).2 := by
  obtain ⟨s', hrun, hplaying⟩ :=
    setUpAudio_plays R hpolls htable hlist haudio hw₂ hconverter hw₂₇ hpin s
  have hwell : TableWellFormed (setDescriptors codec (capabilitiesOf s.1)).m_widgets := by
    show TableWellFormed codec.m_widgets
    exact htable ▸ wellFormed_scan R k
  have hsession := playing_session R polls hwell hlines hplaying
  unfold runAudio
  rw [exec_run_bind hrun]
  show Playing _ ((runLines polls lines (setDescriptors codec (capabilitiesOf s.1)) >>=
    fun _ => pure ()).run.exec (audioMachine R) s').2
  rw [exec_run_discard]
  exact hsession

/-- Node 27 a pin, all others converters, everything muted; the codec is refreshed, node 3 unmuted
    and the format of node 2 read. -/
theorem runAudio_plays_refresh :
    let R : BitVec 32 → BitVec 32 := fun word => if word = 0x01BF0009 then 0x00400000 else 4
    let k : Settings := ⟨fun _ => 0x80, fun _ => 0, fun _ => 0, fun _ => 0⟩
    let s : PlainState × Settings := (⟨fun _ => 0x12, fun _ => 0⟩, k)
    let codec : HDACodec := ⟨k.scan R, 0x100000, 0x200000, 0x300000, 0x80, 0x80⟩
    let lines := [bytes "refresh", bytes "unmute 3 0", bytes "getformat 2"]
    Playing (setDescriptors codec (capabilitiesOf s.1))
      ((runAudio 1 lines codec).run.exec (audioMachine R) s).2 := by
  intro R k s codec lines
  have htwo : (k.scan R)[2]?.map Widget.m_type = some .Output := by decide +kernel
  have hpin : (k.scan R)[27]?.map Widget.m_type = some .PinComplex := by decide +kernel
  obtain ⟨w₂, hw₂, hconverter⟩ := Option.map_eq_some_iff.mp htwo
  obtain ⟨w₂₇, hw₂₇, hpin⟩ := Option.map_eq_some_iff.mp hpin
  have hlines : ∀ line ∈ lines, LineSparesSound line := by
    unfold LineSparesSound
    decide +kernel
  have htable : codec.m_widgets = k.scan R := rfl
  exact runAudio_plays R (by decide) htable (by decide) (by decide) hw₂ (.inl hconverter) hw₂₇ hpin
    hlines s

end TinyOS64
