import Mathlib.Order.Lattice
import Mathlib.Data.List.Chain

/-!
# Tilings of a linear order by half-open intervals

A list of intervals tiles the order from `a` on when the first one starts at `a`, each one ends
where the next starts, no interval is empty and the last one has no end. Then every element from
`a` on lies in exactly one of them (`TilesFrom.existsUnique`), and cutting one interval in two at an
inner point gives a tiling again (`TilesFrom.split`).
-/

namespace KeySpace

variable {κ : Type*} [LinearOrder κ]

/-- The half-open interval `[lo, hi)`, without an upper end where `hi = none`. -/
@[ext] structure Interval (κ : Type*) where
  lo : κ
  hi : Option κ

/-- `k` lies in `[lo, hi)`. -/
def Interval.Has (i : Interval κ) (k : κ) : Prop := i.lo ≤ k ∧ ∀ h ∈ i.hi, k < h

/-- The intervals of `l` lie end to end from `a` to infinity, none of them empty. -/
def TilesFrom (a : κ) : List (Interval κ) → Prop
  | [] => False
  | [i] => i.lo = a ∧ i.hi = none
  | i :: j :: l => i.lo = a ∧ i.hi = some j.lo ∧ a < j.lo ∧ TilesFrom j.lo (j :: l)

/-- Every interval of a tiling starts at or after the point the tiling starts from. -/
theorem TilesFrom.le_lo {a : κ} {l : List (Interval κ)} (h : TilesFrom a l) :
    ∀ i ∈ l, a ≤ i.lo := by
  induction l generalizing a with
  | nil => exact h.elim
  | cons i l ih =>
    intro j hj
    rcases l with _ | ⟨u, l⟩
    · rw [List.mem_singleton.mp hj]
      exact h.1.ge
    · obtain ⟨hlo, -, hlt, hrest⟩ := h
      rcases List.mem_cons.mp hj with rfl | hj
      · exact hlo.ge
      · exact hlt.le.trans (ih hrest j hj)

/-- The intervals of a tiling start in strictly increasing order. -/
theorem TilesFrom.pairwise_lo {a : κ} {l : List (Interval κ)} (h : TilesFrom a l) :
    l.Pairwise fun i j => i.lo < j.lo := by
  induction l generalizing a with
  | nil => exact List.Pairwise.nil
  | cons i l ih =>
    rcases l with _ | ⟨u, l⟩
    · exact List.pairwise_singleton _ _
    · obtain ⟨hlo, -, hlt, hrest⟩ := h
      refine List.pairwise_cons.mpr ⟨fun j hj => ?_, ih hrest⟩
      exact hlo.trans_lt (hlt.trans_le (hrest.le_lo j hj))

/-- The first interval of a tiling starts where the tiling starts. -/
theorem TilesFrom.lo_head {a : κ} {i : Interval κ} {l : List (Interval κ)}
    (h : TilesFrom a (i :: l)) : i.lo = a := by
  rcases l with _ | ⟨j, l⟩
  · exact h.1
  · exact h.1

/-- Each interval of a tiling ends where the next one starts, and the last one has no end. -/
theorem TilesFrom.hi_eq {a : κ} {l : List (Interval κ)} (h : TilesFrom a l) {n : ℕ}
    {i : Interval κ} (hn : l[n]? = some i) : i.hi = (l[n + 1]?).map Interval.lo := by
  induction l generalizing a n with
  | nil => exact h.elim
  | cons j l ih =>
    rcases l with _ | ⟨u, l⟩
    · rcases n with _ | n
      · obtain rfl : j = i := by simpa using hn
        exact h.2
      · simp at hn
    · obtain ⟨hlo, hhi, hlt, hrest⟩ := h
      rcases n with _ | n
      · obtain rfl : j = i := by simpa using hn
        exact hhi
      · exact ih hrest hn

/-- Every element from the start of a tiling on lies in one of its intervals, and in no other. -/
theorem TilesFrom.existsUnique {a k : κ} {l : List (Interval κ)} (h : TilesFrom a l) (hk : a ≤ k) :
    ∃! n : Fin l.length, (l.get n).Has k := by
  induction l generalizing a with
  | nil => exact h.elim
  | cons i l ih =>
    rcases l with _ | ⟨u, l⟩
    · refine ⟨⟨0, by simp⟩, ⟨h.1.trans_le hk, by simp [h.2]⟩, ?_⟩
      rintro ⟨n, hn⟩ -
      exact Fin.ext (by simpa using hn)
    · obtain ⟨hlo, hhi, hlt, hrest⟩ := h
      by_cases hu : u.lo ≤ k
      · -- the element lies right of the first interval: the index moves by one
        obtain ⟨n, hn, huniq⟩ := ih hrest hu
        refine ⟨n.succ, hn, ?_⟩
        rintro ⟨m, hm⟩ hhas
        rcases m with _ | m
        · exact absurd (hhas.2 u.lo (by simp [hhi])) hu.not_gt
        · exact congrArg Fin.succ (huniq ⟨m, Nat.lt_of_succ_lt_succ hm⟩ hhas)
      · refine ⟨⟨0, by simp⟩, ⟨hlo.trans_le hk, ?_⟩, ?_⟩
        · intro b hb
          obtain rfl : u.lo = b := by simpa [hhi] using hb
          exact not_le.mp hu
        · rintro ⟨m, hm⟩ hhas
          rcases m with _ | m
          · rfl
          · have hmem : (u :: l).get ⟨m, Nat.lt_of_succ_lt_succ hm⟩ ∈ u :: l := List.get_mem _ _
            exact absurd ((hrest.le_lo _ hmem).trans hhas.1) hu

/-- Cutting one interval of a tiling at an inner point `m` leaves a tiling. -/
theorem TilesFrom.split {a m : κ} {l₁ l₂ : List (Interval κ)} {i : Interval κ}
    (h : TilesFrom a (l₁ ++ i :: l₂)) (hlo : i.lo < m) (hhi : ∀ b ∈ i.hi, m < b) :
    TilesFrom a (l₁ ++ ⟨i.lo, some m⟩ :: ⟨m, i.hi⟩ :: l₂) := by
  induction l₁ generalizing a with
  | nil =>
    rcases l₂ with _ | ⟨u, l₂⟩
    · obtain ⟨rfl, hi⟩ := h
      exact ⟨rfl, rfl, hlo, rfl, hi⟩
    · obtain ⟨rfl, hi, hlt, hrest⟩ := h
      exact ⟨rfl, rfl, hlo, rfl, hi, hhi u.lo (by simp [hi]), hrest⟩
  | cons j l₁ ih =>
    rcases l₁ with _ | ⟨u, l₁⟩
    · obtain ⟨hj, hjhi, hlt, hrest⟩ := h
      exact ⟨hj, hjhi, hlt, ih hrest⟩
    · obtain ⟨hj, hjhi, hlt, hrest⟩ := h
      exact ⟨hj, hjhi, hlt, ih hrest⟩

end KeySpace
