import Mathlib.Order.Basic

/-!
# Binary search for a boundary

`boundary p fuel lo hi` is the loop `while (lo < hi)` that halves `[lo, hi)` and keeps the half whose
left end still satisfies `p`. `boundary_spec` needs no monotonicity of `p`: whatever `p` is, the
result is the first position, or its predecessor satisfies `p`; and it is the last position, or it
fails `p` itself.
-/

namespace Search

/-- Halve `[lo, hi)` until it is empty: to the right of `mid` where `p mid`, to its left otherwise.
`fuel` bounds the number of rounds; `hi - lo` of them are enough. -/
def boundary (p : ℕ → Bool) : ℕ → ℕ → ℕ → ℕ
  | 0, lo, _ => lo
  | fuel + 1, lo, hi =>
    if lo < hi then
      if p (lo + (hi - lo) / 2) then boundary p fuel (lo + (hi - lo) / 2 + 1) hi
      else boundary p fuel lo (lo + (hi - lo) / 2)
    else lo

/-- What the loop leaves: a position in `[lo, hi]` that `p` holds just before and fails at, the two
ends excepted. -/
theorem boundary_spec (p : ℕ → Bool) {fuel lo hi : ℕ} (hfuel : hi - lo ≤ fuel) (hle : lo ≤ hi) :
    (lo ≤ boundary p fuel lo hi ∧ boundary p fuel lo hi ≤ hi) ∧
      (boundary p fuel lo hi = lo ∨ p (boundary p fuel lo hi - 1) = true) ∧
      (boundary p fuel lo hi = hi ∨ p (boundary p fuel lo hi) = false) := by
  induction fuel generalizing lo hi with
  | zero =>
    have heq : lo = hi := by omega
    subst heq
    exact ⟨⟨Nat.le_refl _, Nat.le_refl _⟩, Or.inl rfl, Or.inl rfl⟩
  | succ fuel ih =>
    rw [boundary]
    by_cases hlt : lo < hi
    · rw [if_pos hlt]
      by_cases hp : p (lo + (hi - lo) / 2) = true
      · rw [if_pos hp]
        obtain ⟨⟨hlo, hhi⟩, hbefore, hat⟩ :=
          @ih (lo + (hi - lo) / 2 + 1) hi (by omega) (by omega)
        refine ⟨⟨by omega, hhi⟩, Or.inr ?_, hat⟩
        rcases hbefore with heq | hprev
        · rw [heq, Nat.add_sub_cancel]
          exact hp
        · exact hprev
      · rw [if_neg hp]
        obtain ⟨⟨hlo, hhi⟩, hbefore, hat⟩ :=
          @ih lo (lo + (hi - lo) / 2) (by omega) (by omega)
        refine ⟨⟨hlo, by omega⟩, hbefore, Or.inr ?_⟩
        rcases hat with heq | hfail
        · rw [heq]
          exact Bool.eq_false_iff.mpr hp
        · exact hfail
    · rw [if_neg hlt]
      have heq : lo = hi := by omega
      exact ⟨⟨Nat.le_refl _, hle⟩, Or.inl rfl, Or.inl heq⟩

end Search
