/-
  File:      TinyOS64/Hda/ConnectionList.lean
  Subject:   The connection list a scan reads (collectWidgetInformation, hdacodec.cpp).

  One entry query brings four entries, a byte each; between two queries the loop carries the last
  response and a word that it shifts down a byte a turn. The main result is
  `connectionList_answered`: whatever the codec answers or leaves unanswered, entry `k` is the low
  seven bits of byte `k % 4` of the answer at offset `4 * (k / 4)`, and 0 without that answer.
-/
import TinyOS64.Hda.Refresh

namespace TinyOS64

open Interaction WordFields

/-! ## 1. What the node's type query says -/

/-- A node of this ID and these capabilities, its connections not yet read. -/
structure Announced (widgetID widgetCap : BitVec 32) (w : Widget) : Prop where
  id : w.m_ID = widgetID
  type : w.m_type = widgetTypeOf ((widgetCap >>> 20) &&& 0x0F).toNat
  hasInputAmp : w.m_hasInputAmp = widgetCap.getLsbD 1
  connections : w.m_connectionList = []

section Announced

variable {widgetID widgetCap : BitVec 32}

theorem announced_readType (widgetID widgetCap : BitVec 32) :
    (readType { m_ID := widgetID } widgetCap).Always (Announced widgetID widgetCap) := by
  unfold readType
  dsimp only
  split
  · exact Prog.always_ask.mpr fun _ => Prog.always_ret.mpr ⟨rfl, rfl, rfl, rfl⟩
  · exact Prog.always_ret.mpr ⟨rfl, rfl, rfl, rfl⟩

/-- The pin queries touch none of it. -/
theorem announced_readPin {w : Widget} (hw : Announced widgetID widgetCap w) :
    (readPin w).Always (Announced widgetID widgetCap) := by
  unfold readPin
  split
  · refine Prog.always_ask.mpr fun config => Prog.always_ask.mpr fun pinCap =>
      Prog.always_ret.mpr ?_
    have hconfig : Announced widgetID widgetCap (config.elim w (withDefaultConfig w)) := by
      cases config <;> exact ⟨hw.id, hw.type, hw.hasInputAmp, hw.connections⟩
    generalize config.elim w (withDefaultConfig w) = w' at hconfig ⊢
    cases pinCap <;> exact ⟨hconfig.id, hconfig.type, hconfig.hasInputAmp, hconfig.connections⟩
  · exact Prog.always_ret.mpr hw

/-- **Up to its connections** a node is what its capabilities announce. -/
theorem readNode_announced (R : BitVec 32 → Option (BitVec 32)) (widgetID widgetCap : BitVec 32) :
    ∃ w, Announced widgetID widgetCap w ∧
      (readNode { m_ID := widgetID } widgetCap).answer (answering R) =
        (readConnections w widgetCap).answer (answering R) := by
  have h₁ := (announced_readType widgetID widgetCap).answer (answering R)
  exact ⟨_, (announced_readPin h₁).answer (answering R), by
    rw [readNode, Prog.answer_bind, Prog.answer_bind]⟩

end Announced

/-! ## 2. The loop over the entries -/

section Entries

variable (R : BitVec 32 → Option (BitVec 32)) (widgetID : BitVec 32)

/-- The codec's answer to the entry query at an offset. -/
def entryResponse (offset : Nat) : Option (BitVec 32) :=
  R (verbWord 0 widgetID 0xF02 (BitVec.ofNat 32 offset))

/-- Entry `k` as the codec told it, 0 where its query went unanswered. -/
def answeredEntry (k : Nat) : BitVec 32 :=
  (entryResponse R widgetID (4 * (k / 4))).elim 0 fun response =>
    (response >>> (8 * (k % 4))) &&& 0x7F

/-- The loop's state after `n` of its `len` turns. -/
structure EntriesRead (len n : Nat)
    (st : BitVec 32 × Option (BitVec 32) × List (BitVec 32)) : Prop where
  length : st.2.2.length = len
  entries : ∀ k, k < len → st.2.2[k]? = some (if k < n then answeredEntry R widgetID k else 0)
  -- between two queries the word is the last response, shifted by the turns since
  result : n % 4 ≠ 0 → st.2.1 = entryResponse R widgetID (4 * (n / 4))
  data : n % 4 ≠ 0 → st.1 = st.2.1.getD 0 >>> (8 * ((n - 1) % 4))

/-- What a turn stores, and where its word comes from. -/
theorem readConnection_answer (st : BitVec 32 × Option (BitVec 32) × List (BitVec 32))
    (n : Nat) : ∃ data result, (readConnection widgetID st n).answer (answering R) =
        (data, result, if result.isSome then st.2.2.set n (data &&& 0x7F) else st.2.2) ∧
      (n % 4 = 0 → result = entryResponse R widgetID n ∧ data = result.getD 0) ∧
      (n % 4 ≠ 0 → result = st.2.1 ∧ data = st.1 >>> 8) := by
  obtain ⟨data, result, list⟩ := st
  by_cases h : n % 4 = 0
  · refine ⟨_, entryResponse R widgetID n, ?_, fun _ => ⟨rfl, rfl⟩, fun h' => absurd h h'⟩
    rw [readConnection, if_pos h]
    rfl
  · refine ⟨data >>> 8, result, ?_, fun h' => absurd h' h, fun _ => ⟨rfl, rfl⟩⟩
    rw [readConnection, if_neg h]
    rfl

variable {R widgetID}

/-- **One turn** stores the next entry. -/
theorem entriesRead_turn {len n : Nat} {st : BitVec 32 × Option (BitVec 32) × List (BitVec 32)}
    (hst : EntriesRead R widgetID len n st) (hn : n < len) :
    EntriesRead R widgetID len (n + 1) ((readConnection widgetID st n).answer (answering R)) := by
  obtain ⟨data, result, hanswer, hasked, hcarried⟩ :=
    readConnection_answer R widgetID st n
  rw [hanswer]
  have hresult : result = entryResponse R widgetID (4 * (n / 4)) := by
    by_cases h : n % 4 = 0
    · have hn4 : 4 * (n / 4) = n := by omega
      rw [hn4, (hasked h).1]
    · rw [(hcarried h).1, hst.result h]
  have hdata : data = result.getD 0 >>> (8 * (n % 4)) := by
    by_cases h : n % 4 = 0
    · rw [(hasked h).2, h]
      exact (BitVec.ushiftRight_zero _).symm
    · have hshift : 8 * ((n - 1) % 4) + 8 = 8 * (n % 4) := by omega
      rw [(hcarried h).2, (hcarried h).1, hst.data h, ← hshift, BitVec.shiftRight_add]
  have hentry : answeredEntry R widgetID n = result.elim 0 fun _ => data &&& 0x7F := by
    rw [answeredEntry, ← hresult, hdata]
    cases result <;> rfl
  refine ⟨?_, fun k hk => ?_, fun h => ?_, fun h => ?_⟩
  · dsimp only
    split
    · exact List.length_set.trans hst.length
    · exact hst.length
  · have hold := hst.entries k hk
    dsimp only
    by_cases hkn : k = n
    · subst hkn
      rw [if_pos (Nat.lt_succ_self k), hentry]
      rw [if_neg (Nat.lt_irrefl k)] at hold
      cases result with
      | none => exact hold
      | some response =>
          rw [if_pos Option.isSome_some, List.getElem?_set_self (by rw [hst.length]; exact hk)]
          rfl
    · have hlt : k < n + 1 ↔ k < n := by omega
      simp only [hlt]
      split
      · rw [List.getElem?_set_ne (Ne.symm hkn)]
        exact hold
      · exact hold
  · have hdiv : (n + 1) / 4 = n / 4 := by omega
    rw [hdiv]
    exact hresult
  · have hpred : n + 1 - 1 = n := by omega
    rw [hpred]
    exact hdata

/-- **The whole loop**, by induction on its turns. -/
theorem entriesRead_loop {len : Nat} (answer : BitVec 32) {n : Nat} (hn : n ≤ len) :
    EntriesRead R widgetID len n (((List.range n).foldlM (readConnection widgetID)
      (0, some answer, List.replicate len 0)).answer (answering R)) := by
  induction n with
  | zero =>
      refine ⟨List.length_replicate, fun k hk => ?_, fun h => absurd rfl h, fun h => absurd rfl h⟩
      exact List.getElem?_replicate_of_lt hk
  | succ n ih =>
      have hlast := entriesRead_turn (ih (by omega)) hn
      rw [List.range_succ, List.foldlM_append, Prog.answer_bind, List.foldlM_cons,
        Prog.answer_bind]
      exact hlast

/-- All turns taken, the list is what the codec told. -/
theorem EntriesRead.list_eq {len : Nat} {st : BitVec 32 × Option (BitVec 32) × List (BitVec 32)}
    (h : EntriesRead R widgetID len len st) :
    st.2.2 = (List.range len).map (answeredEntry R widgetID) := by
  refine List.ext_getElem? fun k => ?_
  rw [List.getElem?_map]
  by_cases hk : k < len
  · rw [h.entries k hk, if_pos hk, List.getElem?_range hk]
    rfl
  · rw [List.getElem?_eq_none (by rw [h.length]; omega),
      List.getElem?_eq_none (by rw [List.length_range]; omega)]
    rfl

/-- A short list, read whole. -/
theorem readEntries_short {w : Widget} {answer : BitVec 32} (hid : w.m_ID = widgetID)
    (hfresh : w.m_connectionList = []) (hshort : (answer >>> 7) &&& 0x1 = 0) :
    ((readEntries w answer).answer (answering R)).m_connectionList =
      (List.range (answer &&& 0x7F).toNat).map (answeredEntry R widgetID) := by
  rw [readEntries, if_pos hshort, Prog.answer_bind, hid, hfresh, resize_nil]
  exact (entriesRead_loop answer (Nat.le_refl _)).list_eq

/-- The connections of a node with a short list. -/
theorem readConnections_short {w : Widget} {widgetCap answer : BitVec 32}
    (hid : w.m_ID = widgetID) (hfresh : w.m_connectionList = [])
    (hlist : (widgetCap >>> 8) &&& 1 ≠ 0)
    (hlen : R (verbWord 0 widgetID 0xF00 0x0E) = some answer)
    (hshort : (answer >>> 7) &&& 0x1 = 0) :
    ((readConnections w widgetCap).answer (answering R)).m_connectionList =
      (List.range (answer &&& 0x7F).toNat).map (answeredEntry R widgetID) := by
  have hasked : (Verbs.ask 0 w.m_ID 0xF00 0x0E).answer (answering R) = some answer := by
    rw [hid]
    exact hlen
  rw [readConnections, if_pos hlist, Prog.answer_bind, hasked]
  dsimp only
  rw [Prog.answer_bind]
  split
  · rw [readSelection, Prog.answer_bind, ← readEntries_short hid hfresh hshort]
    cases (Verbs.ask 0 _ 0xF01 0x00).answer (answering R) <;> rfl
  · exact readEntries_short hid hfresh hshort

end Entries

/-! ## 3. The entry queries -/

/-- If the question is an entry query of this node, its offset is a multiple of 4 below `n`. -/
def EntryQueryBelow (widgetID : BitVec 32) (n : Nat) (o : VerbOp) : Prop :=
  ∀ offset, o = .verb 0 widgetID 0xF02 offset → offset.toNat % 4 = 0 ∧ offset.toNat < n

section EntryQueries

variable {widgetID : BitVec 32} {n : Nat}

/-- Another verb is no entry query. -/
theorem entryQueryBelow_verb {node verb payload : BitVec 32} (h : verb ≠ 0xF02) :
    EntryQueryBelow widgetID n (.verb 0 node verb payload) :=
  fun _ e => absurd (VerbOp.verb.inj e).2.2.1 h

/-- Another node's query is none of this node's. -/
theorem Query.entryQueryBelow {id : BitVec 32} (hne : id ≠ widgetID) {o : VerbOp}
    (h : Query id o) : EntryQueryBelow widgetID n o := by
  intro offset e
  subst e
  rcases h with h | h
  · cases h
    exact absurd rfl hne
  · cases h

theorem AmpQuery.entryQueryBelow {o : VerbOp} (h : AmpQuery widgetID o) :
    EntryQueryBelow widgetID n o := by
  intro offset e
  subst e
  cases h

theorem readType_entryQueries (widget : Widget) (widgetCap : BitVec 32) :
    (readType widget widgetCap).AsksOnly (EntryQueryBelow widgetID n) := by
  unfold readType
  dsimp only
  split
  · exact Prog.avoids_bind (ask_asks (entryQueryBelow_verb (by decide))) fun _ => trivial
  · trivial

theorem readPin_entryQueries (widget : Widget) :
    (readPin widget).AsksOnly (EntryQueryBelow widgetID n) := by
  unfold readPin
  split
  · exact Prog.avoids_bind (ask_asks (entryQueryBelow_verb (by decide))) fun _ =>
      Prog.avoids_bind (ask_asks (entryQueryBelow_verb (by decide))) fun _ => trivial
  · trivial

/-- **The loop** asks at multiples of 4 below the length. -/
theorem readEntries_entryQueries (widget : Widget) (answer : BitVec 32) :
    (readEntries widget answer).AsksOnly
      (EntryQueryBelow widgetID (answer &&& 0x7F).toNat) := by
  have hlen : (answer &&& 0x7F).toNat ≤ 0x7F := and_toNat_le answer 0x7F
  unfold readEntries
  dsimp only
  split
  · refine Prog.avoids_bind (Prog.avoids_foldlM (I := fun _ => True) (fun st _ i hi => ?_)
      trivial) fun _ => trivial
    refine ⟨?_, fun _ _ => trivial⟩
    have hi := List.mem_range.mp hi
    have hnat : (BitVec.ofNat 32 i).toNat = i := toNat_ofNat_of_lt (by omega)
    unfold readConnection
    dsimp only
    split
    · rename_i h4
      refine Prog.avoids_bind (Prog.avoids_bind (ask_asks fun offset e => ?_) fun _ => trivial)
        fun _ => trivial
      rw [← (VerbOp.verb.inj e).2.2.2, hnat]
      exact ⟨h4, hi⟩
    · trivial
  · exact Prog.asksOnly_once fun _ e => nomatch e

theorem readSelection_entryQueries (widget : Widget) :
    (readSelection widget).AsksOnly (EntryQueryBelow widgetID n) :=
  Prog.avoids_bind (ask_asks (entryQueryBelow_verb (by decide))) fun _ => trivial

/-- The connections, once the length query is answered. -/
theorem readConnections_entryQueries {R : BitVec 32 → Option (BitVec 32)} {w : Widget}
    {widgetCap answer : BitVec 32} (hid : w.m_ID = widgetID)
    (hlen : R (verbWord 0 widgetID 0xF00 0x0E) = some answer) :
    ∀ o ∈ (readConnections w widgetCap).asked (answering R),
      EntryQueryBelow widgetID (answer &&& 0x7F).toNat o := by
  have hasked : (Verbs.ask 0 w.m_ID 0xF00 0x0E).answer (answering R) = some answer := by
    rw [hid]
    exact hlen
  unfold readConnections
  split
  · rw [Prog.asked_bind, hasked]
    intro o ho
    rcases List.mem_append.mp ho with ho | ho
    · exact (ask_asks (entryQueryBelow_verb (by decide))).asked (answering R) o ho
    · refine Prog.AsksOnly.asked (Prog.avoids_bind (readEntries_entryQueries w answer)
        fun w' => ?_) (answering R) o ho
      split
      · exact readSelection_entryQueries w'
      · trivial
  · exact fun o ho => absurd ho List.not_mem_nil

/-- A node up to its amplifiers. -/
theorem readNode_entryQueries {R : BitVec 32 → Option (BitVec 32)} {widgetCap answer : BitVec 32}
    (hlen : R (verbWord 0 widgetID 0xF00 0x0E) = some answer) :
    ∀ o ∈ (readNode { m_ID := widgetID } widgetCap).asked (answering R),
      EntryQueryBelow widgetID (answer &&& 0x7F).toNat o := by
  have h₁ := (announced_readType widgetID widgetCap).answer (answering R)
  have h₂ := (announced_readPin h₁).answer (answering R)
  intro o ho
  rw [readNode, Prog.asked_bind, Prog.asked_bind] at ho
  rcases List.mem_append.mp ho with ho | ho
  · exact (readType_entryQueries _ widgetCap).asked (answering R) o ho
  · rcases List.mem_append.mp ho with ho | ho
    · exact (readPin_entryQueries _).asked (answering R) o ho
    · exact readConnections_entryQueries h₂.id hlen o ho

/-- **One node's turn** asks for the entries of its own list. -/
theorem scanNode_entryQueries {R : BitVec 32 → Option (BitVec 32)} {answer : BitVec 32}
    (hlen : R (verbWord 0 widgetID 0xF00 0x0E) = some answer) :
    ∀ o ∈ (scanNode widgetID).asked (answering R),
      EntryQueryBelow widgetID (answer &&& 0x7F).toNat o := by
  unfold scanNode
  intro o ho
  rw [Prog.asked_bind] at ho
  rcases List.mem_append.mp ho with ho | ho
  · exact (ask_asks (entryQueryBelow_verb (by decide))).asked (answering R) o ho
  · split at ho
    · split at ho
      · exact absurd ho List.not_mem_nil
      · split at ho
        · exact absurd ho List.not_mem_nil
        · rename_i widgetCap _ _ _
          rw [Prog.asked_bind] at ho
          rcases List.mem_append.mp ho with ho | ho
          · exact readNode_entryQueries hlen o ho
          · have hid : ((readNode { m_ID := widgetID } widgetCap).answer (answering R)).m_ID =
                widgetID := ((sameNode_readNode _ _).answer _).id
            rw [Prog.asked_bind] at ho
            rcases List.mem_append.mp ho with ho | ho
            · have hquery := (collectInputAmps_asks _).asked (answering R) o ho
              rw [hid] at hquery
              exact hquery.entryQueryBelow
            · have hid' := ((onlyAmps_collectInputAmps ((readNode { m_ID := widgetID }
                widgetCap).answer (answering R))).answer (answering R)).id.trans hid
              rw [Prog.asked_bind] at ho
              rcases List.mem_append.mp ho with ho | ho
              · have hquery := (collectOutputAmp_asks _).asked (answering R) o ho
                rw [hid'] at hquery
                exact hquery.entryQueryBelow
              · exact absurd ho List.not_mem_nil
    · exact absurd ho List.not_mem_nil

end EntryQueries

/-! ## 4. The list of a node after a scan -/

/-- What the table holds of a node that is there. -/
theorem scanned_present {R : BitVec 32 → Option (BitVec 32)} {widgetID widgetCap : BitVec 32}
    (hcap : R (widgetCapabilities widgetID) = some widgetCap) (hpresent : ¬ Absent R widgetID) :
    scanned R widgetID = some (describedNode R widgetID widgetCap) := by
  have h0 : widgetCap ≠ 0 := fun h => hpresent (.inl (h ▸ hcap))
  have h1 : widgetCap ≠ 0xFFFFFFFF := fun h => hpresent (.inr (h ▸ hcap))
  rw [scanned_eq, hcap]
  dsimp only
  rw [if_neg h0, if_neg h1]

/-- **The connection list is what the codec told**, entry by entry, and only its own offsets are
    asked for: for every answering function, every earlier table and every node of the scan that
    is there and has a short list. -/
theorem connectionList_answered (R : BitVec 32 → Option (BitVec 32)) (m_widgets : List Widget)
    {i : Nat} (hi : i < 64) {widgetCap answer : BitVec 32}
    (hcap : R (widgetCapabilities (BitVec.ofNat 32 i)) = some widgetCap)
    (hpresent : ¬ Absent R (BitVec.ofNat 32 i)) (hlist : (widgetCap >>> 8) &&& 1 ≠ 0)
    (hlen : R (verbWord 0 (BitVec.ofNat 32 i) 0xF00 0x0E) = some answer)
    (hshort : (answer >>> 7) &&& 0x1 = 0) :
    (∃ w, ((collectWidgetInformation m_widgets).answer (answering R))[i]? = some w ∧
      w.m_connectionList =
        (List.range (answer &&& 0x7F).toNat).map (answeredEntry R (BitVec.ofNat 32 i))) ∧
    ∀ o ∈ (collectWidgetInformation m_widgets).asked (answering R),
      EntryQueryBelow (BitVec.ofNat 32 i) (answer &&& 0x7F).toNat o := by
  refine ⟨⟨describedNode R (BitVec.ofNat 32 i) widgetCap, ?_, ?_⟩, fun o ho => ?_⟩
  · have hslot : i < (resize m_widgets 64 {}).length := by rw [length_resize]; exact hi
    rw [collect_getElem? R m_widgets hi, scanned_present hcap hpresent,
      List.getElem?_eq_getElem hslot]
    rfl
  · obtain ⟨w, hw, hnode⟩ := readNode_announced R (BitVec.ofNat 32 i) widgetCap
    rw [describedNode_eq, hnode]
    exact readConnections_short hw.id hw.connections hlist hlen hshort
  · obtain ⟨j, hj, table, ho⟩ :=
      Prog.mem_asked_foldlM (answering R) (f := scanTurn) ho
    rw [scanTurn, Prog.asked_bind] at ho
    rcases List.mem_append.mp ho with ho | ho
    · by_cases hij : j = i
      · rw [hij] at ho
        exact scanNode_entryQueries hlen o ho
      · have hj := List.mem_range.mp hj
        have hne : BitVec.ofNat 32 j ≠ BitVec.ofNat 32 i := fun e => hij (by
          have hnat := congrArg BitVec.toNat e
          rw [toNat_ofNat_of_lt (by omega), toNat_ofNat_of_lt (by omega)] at hnat
          exact hnat)
        exact ((scanNode_asks _).asked (answering R) o ho).entryQueryBelow hne
    · exact absurd ho List.not_mem_nil

/-- A node with five connections whose second entry query goes unanswered. -/
def fiveConnections (word : BitVec 32) : Option (BitVec 32) :=
  if word = widgetCapabilities 2 then some 0x100
  else if word = verbWord 0 2 0xF00 0x0E then some 5
  else if word = verbWord 0 2 0xF02 0 then some 0x04838201
  else none

theorem connectionList_answered_five :
    (∃ w, ((collectWidgetInformation []).answer (answering fiveConnections))[2]? = some w ∧
      w.m_connectionList = (List.range 5).map (answeredEntry fiveConnections 2)) ∧
    ∀ o ∈ (collectWidgetInformation []).asked (answering fiveConnections),
      EntryQueryBelow 2 5 o :=
  @connectionList_answered fiveConnections [] 2 (by decide) 0x100 5 (by decide) (by decide)
    (by decide) (by decide) (by decide)

example : (List.range 5).map (answeredEntry fiveConnections 2) = [1, 2, 3, 4, 0] := by decide

end TinyOS64
