import Mathlib.Logic.Function.Basic
import Mathlib.Order.Basic

/-!
# A map spread over nodes

Every key has an owner, the node that answers for it. `view` is the map seen by those who always ask
the owner; `Exclusive` says that no other node holds a key. Keys move from one node to another in
three steps: `copy` them, `assign` them to the new owner, `drop` them at the old one. Each step by
itself leaves the view alone under a condition on the stores; all three together (`move`) keep both
the view and exclusiveness. `Spread` is what remains where the steps stop half-way: copies at a node
that may become the owner later. `Serves` is about routes that need not be those of the owners, such
as old ones.
-/

namespace Sharding

/-- The owner of each key, and what each node holds. -/
@[ext] structure Sharded (ι κ ν : Type*) where
  owner : κ → ι
  store : ι → κ → Option ν

variable {ι κ ν : Type*}

namespace Sharded

/-- The map seen by those who ask the owner. -/
def view (s : Sharded ι κ ν) (k : κ) : Option ν := s.store (s.owner k) k

/-- Only the owner of a key holds it. -/
def Exclusive (s : Sharded ι κ ν) : Prop := ∀ i k, s.store i k ≠ none → s.owner k = i

theorem Exclusive.eq_none {s : Sharded ι κ ν} (h : s.Exclusive) {i : ι} {k : κ}
    (hk : s.owner k ≠ i) : s.store i k = none := by
  by_contra hne
  exact hk (h i k hne)

/-! ## Writes -/

section Set

variable [DecidableEq ι] [DecidableEq κ] (s : Sharded ι κ ν) (i : ι) (k : κ) (v : Option ν)

/-- The node `i` holds `v` under `k` from now on, or nothing. -/
def set : Sharded ι κ ν :=
  { s with store := Function.update s.store i (Function.update (s.store i) k v) }

theorem store_set (j : ι) (l : κ) :
    (s.set i k v).store j l = if j = i ∧ l = k then v else s.store j l := by
  unfold set
  by_cases hj : j = i
  · subst hj
    by_cases hl : l = k
    · simp [hl]
    · simp [hl]
  · simp [hj]

/-- A write at the owner is a write to the map. -/
theorem view_set_owner : (s.set (s.owner k) k v).view = Function.update s.view k v := by
  funext l
  show (s.set (s.owner k) k v).store (s.owner l) l = _
  rw [store_set]
  by_cases hl : l = k
  · subst hl
    simp
  · simp [hl, view]

theorem Exclusive.set_owner {s : Sharded ι κ ν} (h : s.Exclusive) (k : κ) (v : Option ν) :
    (s.set (s.owner k) k v).Exclusive := by
  intro j l hne
  rw [store_set] at hne
  by_cases hl : j = s.owner k ∧ l = k
  · obtain ⟨rfl, rfl⟩ := hl
    rfl
  · rw [if_neg hl] at hne
    exact h j l hne

end Set

/-! ## Moves -/

section Move

variable [DecidableEq ι] (s : Sharded ι κ ν) (p : κ → Prop) [DecidablePred p] (a b : ι)

/-- What `a` holds of the keys `p` is copied to `b`. -/
def copy : Sharded ι κ ν :=
  { s with
    store := Function.update s.store b fun k =>
      if p k then (s.store a k).or (s.store b k) else s.store b k }

/-- The keys `p` are assigned to `b`. -/
def assign : Sharded ι κ ν := { s with owner := fun k => if p k then b else s.owner k }

/-- The keys `p` are dropped at `a`. -/
def drop : Sharded ι κ ν :=
  { s with store := Function.update s.store a fun k => if p k then none else s.store a k }

/-- The keys `p` are moved from `a` to `b`. -/
def move : Sharded ι κ ν := ((s.copy p a b).assign p b).drop p a

theorem store_copy (i : ι) (k : κ) : (s.copy p a b).store i k =
    if i = b ∧ p k then (s.store a k).or (s.store b k) else s.store i k := by
  unfold copy
  by_cases hi : i = b
  · subst hi
    simp
  · simp [hi]

theorem store_drop (i : ι) (k : κ) :
    (s.drop p a).store i k = if i = a ∧ p k then none else s.store i k := by
  unfold drop
  by_cases hi : i = a
  · subst hi
    simp
  · simp [hi]

variable {s p a b}

/-- A copy to a node that does not own the keys is not seen. -/
theorem view_copy (h : ∀ k, p k → s.owner k ≠ b) : (s.copy p a b).view = s.view := by
  funext k
  show (s.copy p a b).store (s.owner k) k = s.store (s.owner k) k
  rw [store_copy, if_neg]
  rintro ⟨howner, hk⟩
  exact h k hk howner

omit [DecidableEq ι] in
/-- A new owner that holds the same is not seen. -/
theorem view_assign (h : ∀ k, p k → s.store b k = s.view k) : (s.assign p b).view = s.view := by
  funext k
  show s.store (if p k then b else s.owner k) k = s.store (s.owner k) k
  by_cases hk : p k
  · rw [if_pos hk]
    exact h k hk
  · rw [if_neg hk]

/-- What is dropped at a node that does not own it is not seen. -/
theorem view_drop (h : ∀ k, p k → s.owner k ≠ a) : (s.drop p a).view = s.view := by
  funext k
  show (s.drop p a).store (s.owner k) k = s.store (s.owner k) k
  rw [store_drop, if_neg]
  rintro ⟨howner, hk⟩
  exact h k hk howner

/-- A move of keys from their owner to another node is not seen. -/
theorem view_move (hex : s.Exclusive) (hne : a ≠ b) (howner : ∀ k, p k → s.owner k = a) :
    (s.move p a b).view = s.view := by
  have hcopy : (s.copy p a b).view = s.view := view_copy fun k hk => howner k hk ▸ hne
  have hassign : ((s.copy p a b).assign p b).view = (s.copy p a b).view := by
    apply view_assign
    intro k hk
    have hb : s.store b k = none := hex.eq_none (howner k hk ▸ hne)
    rw [store_copy, if_pos ⟨rfl, hk⟩, hb, Option.or_none, hcopy, view, howner k hk]
  have hdrop : (s.move p a b).view = ((s.copy p a b).assign p b).view := by
    apply view_drop
    intro k hk
    show (if p k then b else s.owner k) ≠ a
    rw [if_pos hk]
    exact hne.symm
  rw [hdrop, hassign, hcopy]

/-- After a move only the new owner holds the keys. -/
theorem Exclusive.move (hex : s.Exclusive) (howner : ∀ k, p k → s.owner k = a) :
    (s.move p a b).Exclusive := by
  intro i k hstore
  show (if p k then b else s.owner k) = i
  have hdropped : (s.move p a b).store i k
      = if i = a ∧ p k then none else (s.copy p a b).store i k := store_drop _ _ _ _ _
  rw [hdropped, store_copy] at hstore
  by_cases hk : p k
  · rw [if_pos hk]
    by_contra hb
    have hold : s.store i k ≠ none := by
      intro hnone
      by_cases hi : i = a
      · exact hstore (if_pos ⟨hi, hk⟩)
      · rw [if_neg fun h => hi h.1, if_neg fun h => hb h.1.symm] at hstore
        exact hstore hnone
    have hi : i = a := (hex i k hold).symm.trans (howner k hk)
    exact hstore (if_pos ⟨hi, hk⟩)
  · rw [if_neg hk]
    rw [if_neg fun h => hk h.2, if_neg fun h => hk h.2] at hstore
    exact hex i k hstore

end Move

/-! ## Copies that are left behind -/

section Spread

variable {s s' : Sharded ι κ ν} {p : κ → Prop} {a b : ι}

/-- Nothing is new in `s'`, apart from keys among `p` that `a` held, at `b`. -/
def Spread (s s' : Sharded ι κ ν) (p : κ → Prop) (a b : ι) : Prop :=
  ∀ i k, s'.store i k ≠ none → s.store i k ≠ none ∨ (i = b ∧ p k ∧ s.store a k ≠ none)

variable (ha : ∀ k, p k → s.owner k = a)

include ha

/-- Copies are not seen as long as nothing is assigned to `b`. -/
theorem Spread.view (h : s.Spread s' p a b) (howner : s'.owner = s.owner) {k : κ}
    (hk : s'.view k ≠ none) : s.view k ≠ none := by
  have hstore : s'.store (s.owner k) k ≠ none := howner ▸ hk
  rcases h _ _ hstore with hold | ⟨-, hp, hnew⟩
  · exact hold
  · rw [Sharded.view, ha k hp]
    exact hnew

/-- When the keys are assigned to `b`, older copies there must be of keys that `a` holds too. -/
theorem Spread.view_assign [DecidablePred p] (h : s.Spread s' p a b)
    (howner : s'.owner = (s.assign p b).owner)
    (hcopies : ∀ k, p k → s.store b k ≠ none → s.store a k ≠ none) {k : κ}
    (hk : s'.view k ≠ none) : s.view k ≠ none := by
  have hstore : s'.store (if p k then b else s.owner k) k ≠ none := by
    have hview : s'.store (s'.owner k) k ≠ none := hk
    rwa [howner] at hview
  by_cases hp : p k
  · rw [if_pos hp] at hstore
    rw [Sharded.view, ha k hp]
    rcases h _ _ hstore with hold | ⟨-, -, hnew⟩
    · exact hcopies k hp hold
    · exact hnew
  · rw [if_neg hp] at hstore
    rcases h _ _ hstore with hold | ⟨-, hp', -⟩
    · exact hold
    · exact absurd hp' hp

end Spread

end Sharded

/-! ## Routes -/

section Serves

variable {route : κ → Option ι} {has has' : ι → κ → ν → Prop} {σ : κ → Option ν}

/-- Every pair of `σ` is had by the node that the route of its key leads to. -/
def Serves (route : κ → Option ι) (has : ι → κ → ν → Prop) (σ : κ → Option ν) : Prop :=
  ∀ k v, σ k = some v → ∃ i, route k = some i ∧ has i k v

theorem Serves.mono (h : Serves route has σ)
    (hhas : ∀ i k v, σ k = some v → has i k v → has' i k v) : Serves route has' σ := by
  intro k v hk
  obtain ⟨i, hi, hik⟩ := h k v hk
  exact ⟨i, hi, hhas i k v hk hik⟩

/-- Where nodes lose pairs, the pairs are still served if no route leads to one that was lost. -/
theorem serves_and_not_iff (lost : ι → κ → ν → Prop) :
    Serves route (fun i k v => has i k v ∧ ¬lost i k v) σ ↔
      Serves route has σ ∧ ∀ k v, σ k = some v → ∀ i, route k = some i → ¬lost i k v := by
  constructor
  · intro h
    refine ⟨h.mono fun i k v _ hik => hik.1, fun k v hk i hi => ?_⟩
    obtain ⟨j, hj, -, hlost⟩ := h k v hk
    obtain rfl : i = j := Option.some.inj (hi.symm.trans hj)
    exact hlost
  · rintro ⟨h, hlost⟩ k v hk
    obtain ⟨i, hi, hik⟩ := h k v hk
    exact ⟨i, hi, hik, hlost k v hk i hi⟩

end Serves

end Sharding
