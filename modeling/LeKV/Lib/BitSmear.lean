import Mathlib.Data.Nat.Size
import Mathlib.Tactic.NormNum

/-!
# Bit smearing

Or-ing a number with itself shifted down by 1, 2, 4 and so on copies its highest bit into every place
below. `Smears n s m` is the invariant of that loop: `m` has the bits of `n`, each copied into the
`s - 1` places below it. A run as long as the number leaves `2 ^ n.size - 1`, and one more is the next
power of two.
-/

namespace BitSmear

variable {n m s i : ℕ}

/-- `m` has the bits of `n`, each copied into the `s - 1` places below it. -/
def Smears (n s m : ℕ) : Prop := ∀ i, m.testBit i = true ↔ ∃ d < s, n.testBit (i + d) = true

theorem smears_one (n : ℕ) : Smears n 1 n := by
  intro i
  constructor
  · exact fun h => ⟨0, Nat.one_pos, h⟩
  · rintro ⟨d, hd, h⟩
    obtain rfl : d = 0 := Nat.lt_one_iff.mp hd
    exact h

/-- One round doubles the length of the runs. -/
theorem Smears.double (h : Smears n s m) : Smears n (2 * s) (m ||| m >>> s) := by
  intro i
  rw [Nat.testBit_or, Nat.testBit_shiftRight, Bool.or_eq_true, h i, h (s + i)]
  constructor
  · rintro (⟨d, hd, hbit⟩ | ⟨d, hd, hbit⟩)
    · exact ⟨d, by omega, hbit⟩
    · exact ⟨s + d, by omega, by rwa [← Nat.add_assoc, Nat.add_comm i s]⟩
  · rintro ⟨d, hd, hbit⟩
    rcases Nat.lt_or_ge d s with hlt | hge
    · exact .inl ⟨d, hlt, hbit⟩
    · refine .inr ⟨d - s, by omega, ?_⟩
      have hsum : s + i + (d - s) = i + d := by omega
      rwa [hsum]

/-- Runs as long as the number reach from every bit to the lowest place. -/
theorem Smears.testBit_iff (h : Smears n s m) (hs : n.size ≤ s) :
    m.testBit i = true ↔ ∃ j, i ≤ j ∧ n.testBit j = true := by
  rw [h i]
  constructor
  · rintro ⟨d, -, hbit⟩
    exact ⟨i + d, Nat.le_add_right i d, hbit⟩
  · rintro ⟨j, hij, hbit⟩
    have hlt : j < n.size := Nat.lt_size.mpr (Nat.ge_two_pow_of_testBit hbit)
    refine ⟨j - i, by omega, ?_⟩
    rwa [Nat.add_sub_cancel' hij]

/-- Such runs leave ones only. -/
theorem Smears.eq_two_pow_size_sub_one (h : Smears n s m) (hs : n.size ≤ s) : m = 2 ^ n.size - 1 := by
  refine Nat.eq_of_testBit_eq fun i => ?_
  rw [Nat.testBit_two_pow_sub_one, Bool.eq_iff_iff, h.testBit_iff hs, decide_eq_true_eq, Nat.lt_size]
  constructor
  · rintro ⟨j, hij, hbit⟩
    exact Nat.le_trans (Nat.pow_le_pow_right Nat.two_pos hij) (Nat.ge_two_pow_of_testBit hbit)
  · intro hle
    obtain ⟨j, hij, hbit⟩ := Nat.exists_ge_and_testBit_of_ge_two_pow hle
    exact ⟨j, hij, hbit⟩

/-! ## The next power of two -/

theorem le_two_pow_size_pred (n : ℕ) : n ≤ 2 ^ (n - 1).size := by
  have hlt := Nat.lt_size_self (n - 1)
  omega

/-- `2 ^ (n - 1).size` is the least power of two that is at least `n`. -/
theorem two_pow_size_pred_le {k : ℕ} (h : n ≤ 2 ^ k) : 2 ^ (n - 1).size ≤ 2 ^ k := by
  apply Nat.pow_le_pow_right Nat.two_pos
  rw [Nat.size_le]
  have hpos : 0 < 2 ^ k := Nat.two_pow_pos k
  omega

end BitSmear
