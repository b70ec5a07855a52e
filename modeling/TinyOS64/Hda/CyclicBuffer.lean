/-
  File:      TinyOS64/Hda/CyclicBuffer.lean
  Subject:   The cyclic buffer of playSound against its descriptor list (hdacodec.cpp).

  The descriptor list always holds two entries, each all of the 16 audio pages; the length
  register gets what the caller passes. The two agree for one length only (`playsList_iff`).
-/
import TinyOS64.Hda.BootSafety

namespace TinyOS64

open Interaction ByteMemory

/-! ## 1. What the controller reads -/

/-- An entry of a descriptor list: where its samples are, and how many bytes. -/
structure DescriptorEntry where
  address : Nat
  length : Nat

section Controller

variable (codec : HDACodec) (s : PlainState)

/-- The output stream's cyclic buffer length. -/
def cyclicBufferLength : Nat := peek s.window (codec.m_outputDescriptor + 0x08) 4

/-- Its last valid index, a byte. -/
def lastValidIndex : Nat := peek s.window (codec.m_outputDescriptor + 0x0C) 1

/-- The address of its descriptor list, both halves. -/
def descriptorList : Nat := peek s.window (codec.m_outputDescriptor + 0x18) 8

/-- Entry `i` of the list in memory. -/
def descriptorEntry (i : Nat) : DescriptorEntry where
  address := peek s.ram (descriptorList codec s + 16 * i) 8
  length := peek s.ram (descriptorList codec s + 16 * i + 8) 4

/-- The valid entries. -/
def descriptorEntries : List DescriptorEntry :=
  (List.range (lastValidIndex codec s + 1)).map (descriptorEntry codec s)

/-- **What `playSound` owes the controller**: the cyclic buffer is as long as its entries together,
    and each entry lies in the audio pages. -/
structure PlaysList (audio : Pages 16) : Prop where
  length : cyclicBufferLength codec s = ((descriptorEntries codec s).map (·.length)).sum
  inside : ∀ e ∈ descriptorEntries codec s,
    audio.address.toNat ≤ e.address ∧ e.address + e.length ≤ audio.address.toNat + 16 * 4096

end Controller

/-! ## 2. What `playSound` writes -/

/-- The words of the list: address, upper half, length, flags, twice. -/
def listWords (m_audioBuffer : BitVec 64) : List (BitVec 32) :=
  [m_audioBuffer.setWidth 32, 0, 4096 * 16, 0, m_audioBuffer.setWidth 32, 0, 4096 * 16, 0]

section Play

variable {codec : HDACodec} (length : BitVec 64) (format : StreamFormat) (s : PlainState)

/-- **The stores of `playSound` to memory** are the words of the list in a row. -/
theorem playSound_ram (hlist : codec.m_descriptorBuffer.toNat + 4096 ≤ 2 ^ 32) :
    ((playSound codec length format).exec plainWindow s).2.ram =
      pokeWords s.ram codec.m_descriptorBuffer.toNat (listWords codec.m_audioBuffer) := by
  have hword : ∀ k : BitVec 64, k.toNat < 32 →
      (codec.m_descriptorBuffer + k).toNat = codec.m_descriptorBuffer.toNat + k.toNat := by
    intro k hk
    rw [BitVec.toNat_add]
    omega
  rw [playSound_state]
  dsimp only
  rw [hword 4 (by decide), hword 8 (by decide), hword 12 (by decide), hword 16 (by decide),
    hword 20 (by decide), hword 24 (by decide), hword 28 (by decide)]
  rfl

variable (hout : 0x80 ≤ codec.m_outputDescriptor)

include hout

theorem playSound_lastValidIndex :
    lastValidIndex codec ((playSound codec length format).exec plainWindow s).2 = 1 := by
  have hbyte : ∀ w : Memory, peek (poke w (codec.m_outputDescriptor + 0x0C) 4 1)
      (codec.m_outputDescriptor + 0x0C) 1 = 1 :=
    fun w => peek_poke_part w (codec.m_outputDescriptor + 0x0C) 4 1 0 1 (by decide)
  rw [lastValidIndex, playSound_state, peek_poke_disjoint _ (.inl (by omega)),
    peek_poke_disjoint _ (.inl (by omega)), peek_poke_disjoint _ (.inl (by omega)),
    peek_poke_disjoint _ (.inr (by omega)), peek_poke_disjoint _ (.inl (by omega)), hbyte]

theorem playSound_descriptorList (hlist : codec.m_descriptorBuffer.toNat + 4096 ≤ 2 ^ 32) :
    descriptorList codec ((playSound codec length format).exec plainWindow s).2 =
      codec.m_descriptorBuffer.toNat := by
  rw [descriptorList, playSound_state, peek_poke_disjoint _ (.inl (by omega)),
    peek_poke_disjoint _ (.inl (by omega)), peek_poke_disjoint _ (.inl (by omega)),
    peek_poke_disjoint _ (.inl (by omega)), peek_poke_disjoint _ (.inl (by omega)),
    peek_poke_disjoint _ (.inl (by omega)), peek_add _ _ 4 4, peek_poke_same,
    peek_poke_disjoint _ (.inr (by omega)), peek_poke_same, BitVec.toNat_setWidth]
  omega

/-- **The entries the controller finds**: twice the whole audio buffer. -/
theorem playSound_entries (hlist : codec.m_descriptorBuffer.toNat + 4096 ≤ 2 ^ 32)
    (haudio : codec.m_audioBuffer.toNat < 2 ^ 32) :
    descriptorEntries codec ((playSound codec length format).exec plainWindow s).2 =
      [⟨codec.m_audioBuffer.toNat, 16 * 4096⟩, ⟨codec.m_audioBuffer.toNat, 16 * 4096⟩] := by
  have hword : ∀ k, (hk : k < (listWords codec.m_audioBuffer).length) →
      peek ((playSound codec length format).exec plainWindow s).2.ram
        (codec.m_descriptorBuffer.toNat + 4 * k) 4 = (listWords codec.m_audioBuffer)[k].toNat := by
    intro k hk
    rw [playSound_ram length format s hlist, peek_pokeWords hk]
  have hentry : ∀ i, i < 2 →
      descriptorEntry codec ((playSound codec length format).exec plainWindow s).2 i =
        ⟨codec.m_audioBuffer.toNat, 16 * 4096⟩ := by
    intro i hi
    have hlength : (listWords codec.m_audioBuffer).length = 8 := rfl
    have haddress := hword (4 * i) (by omega)
    have hupper := hword (4 * i + 1) (by omega)
    have hbytes := hword (4 * i + 2) (by omega)
    have hplaces : codec.m_descriptorBuffer.toNat + 16 * i =
          codec.m_descriptorBuffer.toNat + 4 * (4 * i) ∧
        codec.m_descriptorBuffer.toNat + 4 * (4 * i) + 4 =
          codec.m_descriptorBuffer.toNat + 4 * (4 * i + 1) ∧
        codec.m_descriptorBuffer.toNat + 4 * (4 * i) + 8 =
          codec.m_descriptorBuffer.toNat + 4 * (4 * i + 2) := by omega
    rw [descriptorEntry, playSound_descriptorList length format s hout hlist, peek_add _ _ 4 4,
      hplaces.1, hplaces.2.1, hplaces.2.2, haddress, hupper, hbytes]
    have hlow : (codec.m_audioBuffer.setWidth 32).toNat + 256 ^ 4 * 0 =
        codec.m_audioBuffer.toNat := by
      rw [BitVec.toNat_setWidth, Nat.mod_eq_of_lt haudio, Nat.mul_zero, Nat.add_zero]
    rcases (by omega : i = 0 ∨ i = 1) with rfl | rfl
    · exact congrArg (DescriptorEntry.mk · (16 * 4096)) hlow
    · exact congrArg (DescriptorEntry.mk · (16 * 4096)) hlow
  rw [descriptorEntries, playSound_lastValidIndex length format s hout]
  show [_, _] = _
  rw [hentry 0 (by decide), hentry 1 (by decide)]

end Play

/-! ## 3. When the two agree -/

/-- The codec of a session whose buffers were granted, as a reset leaves it. -/
def grantedCodec (descriptor : Pages 1) (audio : Pages 16) (dmaPosition : Option (Pages 1))
    (m_widgets : List Widget) (input output : Nat) (capabilities : BitVec 64) : HDACodec :=
  setDescriptors (Allocations.codec ⟨some descriptor, some audio, dmaPosition⟩ m_widgets input
    output) capabilities

/-- Two entries of one length. -/
theorem sum_lengths_pair (a n : Nat) :
    (([⟨a, n⟩, ⟨a, n⟩] : List DescriptorEntry).map (·.length)).sum = 2 * n := by
  rw [List.map_cons, List.map_singleton, List.sum_cons, List.sum_singleton, Nat.two_mul]

section Granted

variable {descriptor : Pages 1} {audio : Pages 16} {dmaPosition : Option (Pages 1)}
  {m_widgets : List Widget} {input output : Nat} {capabilities length : BitVec 64}
  {format : StreamFormat} {s : PlainState}

theorem cyclicBufferLength_granted :
    cyclicBufferLength (grantedCodec descriptor audio dmaPosition m_widgets input output
        capabilities)
      ((playSound (grantedCodec descriptor audio dmaPosition m_widgets input output capabilities)
        length format).exec plainWindow s).2 = length.toNat % 2 ^ 32 :=
  playSound_length _ length format s (Nat.le_add_right _ _)

theorem descriptorEntries_granted :
    descriptorEntries (grantedCodec descriptor audio dmaPosition m_widgets input output
        capabilities)
      ((playSound (grantedCodec descriptor audio dmaPosition m_widgets input output capabilities)
        length format).exec plainWindow s).2 =
      [⟨audio.address.toNat, 16 * 4096⟩, ⟨audio.address.toNat, 16 * 4096⟩] := by
  have hbelow := audio.below
  have haudio : audio.address.toNat < 2 ^ 32 := by omega
  exact playSound_entries length format s (Nat.le_add_right _ _) descriptor.below haudio

/-- A cyclic buffer as long as its entries is the audio buffer twice. -/
theorem PlaysList.length_eq (h : PlaysList
    (grantedCodec descriptor audio dmaPosition m_widgets input output capabilities)
    ((playSound (grantedCodec descriptor audio dmaPosition m_widgets input output capabilities)
      length format).exec plainWindow s).2 audio) : length.toNat % 2 ^ 32 = 2 * (16 * 4096) := by
  have hsum := h.length
  rwa [cyclicBufferLength_granted, descriptorEntries_granted, sum_lengths_pair] at hsum

end Granted

/-- **The cyclic buffer is as long as its entries together exactly when** the length passed is that
    of the audio buffer twice; the entries always lie in the audio buffer. For every grant of the
    buffers, every capabilities word a reset read, every format and every state before. -/
theorem playsList_iff (descriptor : Pages 1) (audio : Pages 16) (dmaPosition : Option (Pages 1))
    (m_widgets : List Widget) (input output : Nat) (capabilities length : BitVec 64)
    (format : StreamFormat) (s : PlainState) :
    PlaysList (grantedCodec descriptor audio dmaPosition m_widgets input output capabilities)
        ((playSound (grantedCodec descriptor audio dmaPosition m_widgets input output capabilities)
          length format).exec plainWindow s).2 audio ↔
      length.toNat % 2 ^ 32 = 2 * (16 * 4096) := by
  refine ⟨PlaysList.length_eq, fun hlong => ⟨?_, fun e he => ?_⟩⟩
  · rw [cyclicBufferLength_granted, descriptorEntries_granted, hlong, sum_lengths_pair]
  · rw [descriptorEntries_granted] at he
    rcases List.mem_pair.mp he with rfl | rfl
    · exact ⟨Nat.le_refl _, Nat.le_refl _⟩
    · exact ⟨Nat.le_refl _, Nat.le_refl _⟩

/-- The length `main` plays, the audio buffer once, is half of what the list holds. -/
theorem playsList_main : ¬ PlaysList
    (grantedCodec ⟨0x1000, by decide, by decide⟩ ⟨0x10000, by decide, by decide⟩ none [] 0 0 0)
    ((playSound (grantedCodec ⟨0x1000, by decide, by decide⟩ ⟨0x10000, by decide, by decide⟩ none
      [] 0 0 0) 0x10000 ⟨0x11⟩).exec plainWindow ⟨fun _ => 0, fun _ => 0⟩).2
    ⟨0x10000, by decide, by decide⟩ :=
  fun h => absurd h.length_eq (by decide)

end TinyOS64
