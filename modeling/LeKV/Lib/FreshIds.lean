import Mathlib.Data.List.Nodup
import Mathlib.Order.Nat

/-!
# Entries under fresh ids

A table of entries, each under an id that one counter has given out. Updates remove entries and add
others under ids that were not given out before. `Issued` says that this is how a table came about,
and `Succeeds` relates a table to all later ones: an id means the same in both of them, and one that
has gone never comes back.
-/

namespace FreshIds

variable {α : Type*}

/-- The ids of the entries are distinct and below the counter. -/
structure Issued (entries : List (ℕ × α)) (next : ℕ) : Prop where
  nodup : (entries.map Prod.fst).Nodup
  lt_next : ∀ e ∈ entries, e.1 < next

/-- The entries of the later table with ids given out before were in the earlier one. -/
structure Succeeds (entries : List (ℕ × α)) (next : ℕ) (entries' : List (ℕ × α)) (next' : ℕ) :
    Prop where
  next_le : next ≤ next'
  old : ∀ e ∈ entries', e.1 < next → e ∈ entries

variable {l l' l'' l₁ l₂ : List (ℕ × α)} {n n' n'' : ℕ}

theorem Succeeds.refl (l : List (ℕ × α)) (n : ℕ) : Succeeds l n l n := ⟨le_rfl, fun _ he _ => he⟩

theorem Succeeds.trans (h : Succeeds l n l' n') (h' : Succeeds l' n' l'' n'') :
    Succeeds l n l'' n'' where
  next_le := h.next_le.trans h'.next_le
  old := by
    intro e he hlt
    have hmem : e ∈ l' := h'.old e he (hlt.trans_le h.next_le)
    exact h.old e hmem hlt

/-- An id has one entry. -/
theorem Issued.eq_of_fst_eq (h : Issued l n) {e e' : ℕ × α} (he : e ∈ l) (he' : e' ∈ l)
    (heq : e.1 = e'.1) : e = e' :=
  List.inj_on_of_nodup_map h.nodup he he' heq

/-- An id means the same now and later. -/
theorem Succeeds.eq_of_fst_eq (h : Succeeds l n l' n') (hl : Issued l n) {e e' : ℕ × α} (he : e ∈ l)
    (he' : e' ∈ l') (heq : e.1 = e'.1) : e = e' := by
  have hlt : e'.1 < n := heq ▸ hl.lt_next e he
  exact hl.eq_of_fst_eq he (h.old e' he' hlt) heq

/-- An id that has gone does not come back. -/
theorem Succeeds.not_mem (h : Succeeds l n l' n') (h' : Succeeds l' n' l'' n'') (hl : Issued l n)
    {i : ℕ} (hi : i ∈ l.map Prod.fst) (hgone : i ∉ l'.map Prod.fst) : i ∉ l''.map Prod.fst := by
  intro hback
  obtain ⟨e, he, rfl⟩ := List.mem_map.mp hi
  obtain ⟨e', he', heq⟩ := List.mem_map.mp hback
  have hlt : e'.1 < n' := (heq ▸ hl.lt_next e he).trans_le h.next_le
  have hmem : e' ∈ l' := h'.old e' he' hlt
  exact hgone (heq ▸ List.mem_map_of_mem hmem)

/-! ## An entry makes way for two -/

section Replace

variable {e : ℕ × α}

theorem Succeeds.replace (a b : α) :
    Succeeds (l₁ ++ e :: l₂) n (l₁ ++ (n, a) :: (n + 1, b) :: l₂) (n + 2) where
  next_le := Nat.le_add_right n 2
  old := by
    intro x hx hlt
    simp only [List.mem_append, List.mem_cons] at hx ⊢
    rcases hx with hx | rfl | rfl | hx
    · exact .inl hx
    · exact absurd hlt (lt_irrefl _)
    · exact absurd hlt (Nat.not_lt.mpr (Nat.le_succ n))
    · exact .inr (.inr hx)

theorem Issued.replace (h : Issued (l₁ ++ e :: l₂) n) (a b : α) :
    Issued (l₁ ++ (n, a) :: (n + 1, b) :: l₂) (n + 2) where
  nodup := by
    have hrest : ((l₁ ++ l₂).map Prod.fst).Nodup := by
      refine h.nodup.sublist (List.Sublist.map _ ?_)
      exact (List.Sublist.refl l₁).append (List.sublist_cons_self e l₂)
    have hlt : ∀ i ∈ (l₁ ++ l₂).map Prod.fst, i < n := by
      intro i hi
      obtain ⟨x, hx, rfl⟩ := List.mem_map.mp hi
      apply h.lt_next x
      rcases List.mem_append.mp hx with hx | hx
      · exact List.mem_append_left _ hx
      · exact List.mem_append_right _ (List.mem_cons_of_mem _ hx)
    have hperm : (l₁ ++ (n, a) :: (n + 1, b) :: l₂).Perm ((n, a) :: (n + 1, b) :: (l₁ ++ l₂)) :=
      List.perm_middle.trans (List.perm_middle.cons _)
    rw [(hperm.map Prod.fst).nodup_iff, List.map_cons, List.map_cons, List.nodup_cons,
      List.nodup_cons]
    refine ⟨fun hmem => ?_, fun hmem => ?_, hrest⟩
    · rcases List.mem_cons.mp hmem with heq | hmem
      · exact absurd heq (by simp)
      · exact lt_irrefl n (hlt n hmem)
    · exact absurd (hlt (n + 1) hmem) (Nat.not_lt.mpr (Nat.le_succ n))
  lt_next := by
    intro x hx
    simp only [List.mem_append, List.mem_cons] at hx
    rcases hx with hx | rfl | rfl | hx
    · exact (h.lt_next x (List.mem_append_left _ hx)).trans (by omega)
    · exact Nat.lt_add_of_pos_right (by omega)
    · exact Nat.lt_succ_self (n + 1)
    · exact (h.lt_next x (List.mem_append_right _ (List.mem_cons_of_mem _ hx))).trans (by omega)

end Replace

end FreshIds
