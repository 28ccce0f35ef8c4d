import Mathlib.Data.List.Sort

/-!
# Cutting a sorted list at one of its elements

Cut a strictly increasing list at its element of index `i`: the smaller elements are the first `i`,
the others are the rest. `Cut` are the elements at which a list is cut when it and its parts are
halved as long as they have a number of elements.
-/

namespace Halving

variable {α : Type*} [LinearOrder α] {l : List α}

/-- The elements before and from index `i` on, by comparison with the element there. -/
theorem filter_getElem (hl : l.Pairwise (· < ·)) {i : ℕ} {a : α} (ha : l[i]? = some a) :
    l.filter (fun b => b < a) = l.take i ∧ l.filter (fun b => a ≤ b) = l.drop i := by
  induction l generalizing i with
  | nil => exact absurd ha (by simp)
  | cons x l ih =>
    obtain ⟨hhead, htail⟩ := List.pairwise_cons.mp hl
    cases i with
    | zero =>
      obtain rfl := Option.some.inj ha
      have hnone : (x :: l).filter (fun b => b < x) = [] := by
        apply List.filter_eq_nil_iff.mpr
        intro b hb
        rcases List.mem_cons.mp hb with rfl | hb
        · simp
        · simpa using (hhead b hb).le
      have hall : (x :: l).filter (fun b => x ≤ b) = x :: l := by
        apply List.filter_eq_self.mpr
        intro b hb
        rcases List.mem_cons.mp hb with rfl | hb
        · simp
        · simpa using (hhead b hb).le
      exact ⟨hnone, hall⟩
    | succ i =>
      rw [List.getElem?_cons_succ] at ha
      obtain ⟨htake, hdrop⟩ := ih htail ha
      have hx : x < a := hhead a (List.mem_of_getElem? ha)
      rw [List.filter_cons_of_pos (by simpa using hx), htake,
        List.filter_cons_of_neg (by simpa using hx), hdrop]
      exact ⟨rfl, rfl⟩

/-- In a strictly increasing list every element of positive index is above the first one. -/
theorem lt_of_pos (hl : l.Pairwise (· < ·)) {a b : α} {i : ℕ} (hi : 0 < i) (ha : l[0]? = some a)
    (hb : l[i]? = some b) : a < b := by
  obtain ⟨hlt, rfl⟩ := List.getElem?_eq_some_iff.mp hb
  obtain ⟨hlt', rfl⟩ := List.getElem?_eq_some_iff.mp ha
  exact List.pairwise_iff_getElem.mp hl 0 i hlt' hlt hi

/-- A list without repetitions is no longer than one that holds its elements. -/
theorem length_le_of_subset {l l' : List α} (hl : l.Pairwise (· < ·)) (h : ∀ a ∈ l, a ∈ l') :
    l.length ≤ l'.length :=
  (List.subperm_of_subset (hl.imp fun hlt => hlt.ne) h).length_le

/-- The elements in the middle of a list of at least `n` elements, or of one of its halves, and so
on. -/
inductive Cut {α : Type*} (n : ℕ) : List α → α → Prop where
  | middle {l : List α} {a : α} (hlen : n ≤ l.length) (ha : l[l.length / 2]? = some a) : Cut n l a
  | left {l : List α} {a : α} (hlen : n ≤ l.length) (h : Cut n (l.take (l.length / 2)) a) : Cut n l a
  | right {l : List α} {a : α} (hlen : n ≤ l.length) (h : Cut n (l.drop (l.length / 2)) a) :
      Cut n l a

theorem Cut.mem {α : Type*} {n : ℕ} {l : List α} {a : α} (h : Cut n l a) : a ∈ l := by
  induction h with
  | middle _ ha => exact List.mem_of_getElem? ha
  | left _ _ ih => exact List.mem_of_mem_take ih
  | right _ _ ih => exact List.mem_of_mem_drop ih

end Halving
