/-
  File:      TinyOS64/Lib/RestartedSearch.lean
  Subject:   A search that is restarted from its last hit.

  Enumerating by a find-first: take the first hit, search again "after" it, until nothing is
  found. `R x y` says that a search restarted from `x` still looks at `y`. When that is less than
  "`y` comes later than `x`" the enumeration can skip hits; `chase_eq_iff` says exactly when.
-/
import Mathlib.Data.List.Chain

namespace RestartedSearch

variable {α : Type} (R : α → α → Prop) [DecidableRel R]

/-- The first hit of the search restarted from `x`; `l` lists all hits in search order. -/
def next (l : List α) (x : α) : Option α := l.find? fun y => R x y

/-- The hits from `start` on; `none` when there are more than `fuel` of them. -/
def chase (l : List α) : Nat → Option α → Option (List α)
  | _, none => some []
  | 0, some _ => none
  | fuel + 1, some x => (chase l fuel (next R l x)).map (x :: ·)

variable {R} {l : List α}

theorem next_spec {x y : α} (h : y ∈ next R l x) : y ∈ l ∧ R x y := by
  have hR : decide (R x y) = true := List.find?_some (p := fun y => decide (R x y)) h
  exact ⟨List.mem_of_find?_eq_some h, of_decide_eq_true hR⟩

/-- What an enumeration reports are hits, each within reach of the one before it. -/
theorem chase_spec {fuel : Nat} {start : Option α} {r : List α} (hl : ∀ x ∈ start, x ∈ l)
    (h : chase R l fuel start = some r) : r.head? = start ∧ r.IsChain R ∧ ∀ x ∈ r, x ∈ l := by
  induction fuel generalizing start r with
  | zero =>
      cases start with
      | none =>
          cases h
          exact ⟨rfl, .nil, nofun⟩
      | some x => cases h
  | succ fuel ih =>
      cases start with
      | none =>
          cases h
          exact ⟨rfl, .nil, nofun⟩
      | some x =>
          obtain ⟨r', hr', rfl⟩ := Option.map_eq_some_iff.mp h
          obtain ⟨hhead, hchain, hmem⟩ := ih (fun y hy => (next_spec hy).1) hr'
          refine ⟨rfl, hchain.cons fun y hy => (next_spec (l := l) ?_).2, ?_⟩
          · rw [← hhead]
            exact hy
          · intro y hy
            rcases List.mem_cons.mp hy with rfl | hy
            · exact hl y rfl
            · exact hmem y hy

/-- Behind the last hit reported there is none within its reach. -/
theorem chase_last {fuel : Nat} {start : Option α} {r : List α}
    (h : chase R l fuel start = some r) : ∀ x ∈ r.getLast?, next R l x = none := by
  induction fuel generalizing start r with
  | zero =>
      cases start with
      | none =>
          cases h
          exact fun x hx => nomatch hx
      | some x => cases h
  | succ fuel ih =>
      cases start with
      | none =>
          cases h
          exact fun x hx => nomatch hx
      | some x =>
          obtain ⟨r', hr', rfl⟩ := Option.map_eq_some_iff.mp h
          intro y hy
          cases r' with
          | cons z r' =>
              rw [List.getLast?_cons_cons] at hy
              exact ih hr' y hy
          | nil =>
              have hxy : x = y := Option.some.inj hy
              rw [← hxy]
              cases hnext : next R l x with
              | none => rfl
              | some z =>
                  rw [hnext] at hr'
                  cases fuel with
                  | zero => cases hr'
                  | succ fuel =>
                      obtain ⟨r'', _, hcons⟩ := Option.map_eq_some_iff.mp hr'
                      cases hcons

/-- **The enumeration ends**: a measure that grows from hit to hit and is bounded on all hits. -/
theorem chase_total {μ : α → Nat} (hμ : ∀ x y, R x y → μ x < μ y) {n : Nat}
    (hn : ∀ x ∈ l, μ x < n) (fuel : Nat) (start : Option α) (hl : ∀ x ∈ start, x ∈ l)
    (hfuel : ∀ x ∈ start, n ≤ fuel + μ x) : ∃ r, chase R l fuel start = some r := by
  induction fuel generalizing start with
  | zero =>
      cases start with
      | none => exact ⟨[], rfl⟩
      | some x =>
          have h₁ := hfuel x rfl
          have h₂ := hn x (hl x rfl)
          omega
  | succ fuel ih =>
      cases start with
      | none => exact ⟨[], rfl⟩
      | some x =>
          obtain ⟨r, hr⟩ := ih (next R l x) (fun y hy => (next_spec hy).1) fun y hy => by
            have h₁ := hfuel x rfl
            have h₂ := hμ x y (next_spec hy).2
            omega
          exact ⟨x :: r, by rw [chase, hr]; rfl⟩

section Ordered

variable {lt : α → α → Prop} (hasymm : ∀ x y, lt x y → ¬ lt y x)

include hasymm in
/-- Two lists in search order with the same elements are the same list. -/
theorem eq_of_pairwise_of_mem_iff {l₁ l₂ : List α} (h₁ : l₁.Pairwise lt) (h₂ : l₂.Pairwise lt)
    (h : ∀ x, x ∈ l₁ ↔ x ∈ l₂) : l₁ = l₂ := by
  have hne : ∀ {x y : α}, lt x y → x ≠ y := by
    intro x _ hx h
    subst h
    exact hasymm x x hx hx
  have hnodup : ∀ {l : List α}, l.Pairwise lt → l.Nodup := fun hl => List.Pairwise.imp hne hl
  have hperm := (List.perm_ext_iff_of_nodup (hnodup h₁) (hnodup h₂)).mpr h
  exact hperm.eq_of_pairwise (fun x y _ _ hxy hyx => absurd hyx (hasymm x y hxy)) h₁ h₂

variable (hR : ∀ x y, R x y → lt x y)

include hasymm hR

/-- In search order, the hit after `x` is the next one if that is within reach. -/
theorem next_append {pre suf : List α} {x : α} (hs : (pre ++ x :: suf).Pairwise lt)
    (hx : (x :: suf).IsChain R) : next R (pre ++ x :: suf) x = suf.head? := by
  have hback : ∀ y, y ∈ pre ∨ y = x → ¬ R x y := by
    intro y h hxy
    rcases h with hy | rfl
    · exact hasymm y x ((List.pairwise_append.mp hs).2.2 y hy x List.mem_cons_self) (hR x y hxy)
    · exact hasymm y y (hR y y hxy) (hR y y hxy)
  have hpre : pre.find? (fun y => R x y) = none :=
    List.find?_eq_none.mpr fun y hy => by simpa using hback y (.inl hy)
  rw [next, List.find?_append, hpre, Option.none_or,
    List.find?_cons_of_neg (by simpa using hback x (.inr rfl))]
  cases suf with
  | nil => rfl
  | cons y suf => exact List.find?_cons_of_pos (by simpa using (List.isChain_cons_cons.mp hx).1)

theorem chase_suffix {pre suf : List α} (hs : (pre ++ suf).Pairwise lt) (hx : suf.IsChain R)
    {fuel : Nat} {r : List α} (h : chase R (pre ++ suf) fuel suf.head? = some r) : r = suf := by
  induction suf generalizing pre fuel r with
  | nil =>
      cases fuel <;> exact (Option.some.inj h).symm
  | cons x suf ih =>
      cases fuel with
      | zero => cases h
      | succ fuel =>
          rw [List.head?_cons, chase, next_append hasymm hR hs hx] at h
          obtain ⟨r', hr', rfl⟩ := Option.map_eq_some_iff.mp h
          have e : pre ++ x :: suf = (pre ++ [x]) ++ suf := by simp
          rw [e] at hs hr'
          rw [ih hs hx.tail hr']

/-- **A restarted search reports all hits exactly when each is within reach of the one before.** -/
theorem chase_eq_iff (hs : l.Pairwise lt) {fuel : Nat} {r : List α}
    (h : chase R l fuel l.head? = some r) : r = l ↔ l.IsChain R := by
  refine ⟨fun h => ?_, fun hx => ?_⟩
  · subst h
    exact (chase_spec (fun x hx => List.mem_of_mem_head? hx) h).2.1
  · have hs' : ([] ++ l).Pairwise lt := hs
    exact chase_suffix hasymm hR hs' hx h

omit hR [DecidableRel R] in
/-- Along hits within reach of one another, a transitive reach holds between any two. -/
theorem reach_of_isChain (htrans : ∀ x y z, R x y → R y z → R x z) (hs : l.Pairwise lt)
    (hc : l.IsChain R) {x y : α} (hx : x ∈ l) (hy : y ∈ l) (hxy : lt x y) : R x y := by
  have : Trans R R R := ⟨fun {a b c} => htrans a b c⟩
  obtain ⟨i, hi, rfl⟩ := List.getElem_of_mem hx
  obtain ⟨j, hj, rfl⟩ := List.getElem_of_mem hy
  rcases Nat.lt_trichotomy i j with hij | rfl | hij
  · exact List.pairwise_iff_getElem.mp hc.pairwise i j hi hj hij
  · exact absurd hxy (hasymm _ _ hxy)
  · exact absurd hxy (hasymm _ _ (List.pairwise_iff_getElem.mp hs j i hj hi hij))

end Ordered

end RestartedSearch
