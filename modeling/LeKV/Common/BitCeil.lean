import LeKV.Lib.BitSmear

/-!
# Rounding up to a power of two (`common/common.h`)

`bitCeil` works on `size_t`, so its last addition may wrap; `bitCeil_least` says that it does not for
arguments up to `2 ^ 63`, and that the result is the least power of two not below the argument.
-/

namespace LeKV

open BitSmear

/-- The bits of `size_t`. -/
def SIZE_BITS : UInt64 := 64

/-- The loop of `bit_ceil`, from `shift` on. -/
def smearLoop : ℕ → UInt64 → UInt64 → UInt64
  | 0, n, _ => n
  | fuel + 1, n, shift =>
    if shift < SIZE_BITS then smearLoop fuel (n ||| n >>> shift) (shift <<< 1) else n

/-- `bit_ceil`. The shift doubles in each round of the loop, so there are never 64 rounds. -/
def bitCeil (n : UInt64) : UInt64 := if n ≤ 1 then 1 else smearLoop 64 (n - 1) 1 + 1

/-! ## The loop -/

theorem smearLoop_succ {shift next : UInt64} (hlt : shift < SIZE_BITS) (hnext : shift <<< 1 = next)
    (fuel : ℕ) (n : UInt64) :
    smearLoop (fuel + 1) n shift = smearLoop fuel (n ||| n >>> shift) next := by
  rw [smearLoop, if_pos hlt, hnext]

/-- Six rounds are enough, and their shifts are the powers of two below 64. -/
theorem smearLoop_eq_foldl {fuel : ℕ} (h : 6 ≤ fuel) (n : UInt64) :
    smearLoop fuel n 1
      = ([1, 2, 4, 8, 16, 32] : List UInt64).foldl (fun n shift => n ||| n >>> shift) n := by
  obtain ⟨fuel, rfl⟩ := Nat.exists_eq_add_of_le' h
  have hstop : ∀ n, smearLoop fuel n 64 = n := by
    intro n
    rcases fuel with _ | fuel <;> rfl
  have h₁ := @smearLoop_succ 1 2 (by decide) rfl
  have h₂ := @smearLoop_succ 2 4 (by decide) rfl
  have h₄ := @smearLoop_succ 4 8 (by decide) rfl
  have h₈ := @smearLoop_succ 8 16 (by decide) rfl
  have h₁₆ := @smearLoop_succ 16 32 (by decide) rfl
  have h₃₂ := @smearLoop_succ 32 64 (by decide) rfl
  rw [h₁, h₂, h₄, h₈, h₁₆, h₃₂, hstop]
  rfl

/-- From shift `2 ^ j` on, the loop lengthens runs of `2 ^ j` bits to runs of 64. -/
theorem smears_smearLoop {n₀ fuel j : ℕ} {n shift : UInt64} (hshift : shift.toNat = 2 ^ j)
    (hj : j ≤ 6) (hfuel : 6 ≤ j + fuel) (h : Smears n₀ (2 ^ j) n.toNat) :
    Smears n₀ 64 (smearLoop fuel n shift).toNat := by
  induction fuel generalizing n shift j with
  | zero =>
    obtain rfl : j = 6 := by omega
    exact h
  | succ fuel ih =>
    rw [smearLoop]
    by_cases hlt : shift < SIZE_BITS
    · rw [if_pos hlt]
      rw [UInt64.lt_iff_toNat_lt, hshift] at hlt
      have hj' : j < 6 := (Nat.pow_lt_pow_iff_right (by norm_num)).mp hlt
      have hlt' : 2 ^ j < 64 := hlt
      refine ih (j := j + 1) ?_ (by omega) (by omega) ?_
      · rw [UInt64.toNat_shiftLeft, hshift, Nat.shiftLeft_eq, Nat.mod_eq_of_lt]
        · rfl
        · show 2 ^ j * 2 < 2 ^ 64
          omega
      · rw [UInt64.toNat_or, UInt64.toNat_shiftRight, hshift, Nat.mod_eq_of_lt hlt', pow_succ,
          Nat.mul_comm]
        exact h.double
    · rw [if_neg hlt]
      rw [UInt64.lt_iff_toNat_lt, hshift] at hlt
      obtain rfl : j = 6 := by
        by_contra hne
        exact hlt (Nat.pow_lt_pow_right (by norm_num) (by omega : j < 6))
      exact h

theorem size_toNat_le (n : UInt64) : n.toNat.size ≤ 64 := Nat.size_le.mpr n.toNat_lt

theorem smears_smearLoop_one (n : UInt64) : Smears n.toNat 64 (smearLoop 64 n 1).toNat :=
  smears_smearLoop (j := 0) rfl (by norm_num) (by norm_num) (smears_one n.toNat)

/-- The loop leaves as many ones as its argument has binary digits. -/
theorem toNat_smearLoop (n : UInt64) : (smearLoop 64 n 1).toNat = 2 ^ n.toNat.size - 1 :=
  (smears_smearLoop_one n).eq_two_pow_size_sub_one (size_toNat_le n)

/-- Up to `2 ^ 63`, the last addition does not wrap. -/
theorem smearLoop_add_one_lt {n : UInt64} (hn : 1 < n) (h : n.toNat ≤ 2 ^ 63) :
    (smearLoop 64 (n - 1) 1).toNat + 1 < 2 ^ 64 := by
  have hsub : (n - 1).toNat = n.toNat - 1 := UInt64.toNat_sub_of_le _ _ (UInt64.le_of_lt hn)
  have hle := two_pow_size_pred_le h
  have hpos : 0 < 2 ^ (n.toNat - 1).size := Nat.two_pow_pos _
  rw [toNat_smearLoop, hsub]
  omega

/-! ## The result -/

theorem toNat_bitCeil {n : UInt64} (h : n.toNat ≤ 2 ^ 63) :
    (bitCeil n).toNat = 2 ^ (n.toNat - 1).size := by
  unfold bitCeil
  split_ifs with hle
  · have hzero : n.toNat - 1 = 0 := by
      have : n.toNat ≤ 1 := UInt64.le_iff_toNat_le.mp hle
      omega
    rw [hzero]
    rfl
  · have hlt : 1 < n := UInt64.not_le.mp hle
    have hsub : (n - 1).toNat = n.toNat - 1 := UInt64.toNat_sub_of_le _ _ (UInt64.le_of_lt hlt)
    have hpos : 0 < 2 ^ (n.toNat - 1).size := Nat.two_pow_pos _
    rw [UInt64.toNat_add, UInt64.toNat_one, Nat.mod_eq_of_lt (smearLoop_add_one_lt hlt h),
      toNat_smearLoop, hsub]
    omega

/-- Above `2 ^ 63` the last addition wraps. -/
theorem bitCeil_eq_zero {n : UInt64} (h : 2 ^ 63 < n.toNat) : bitCeil n = 0 := by
  have hlt : 1 < n := UInt64.lt_iff_toNat_lt.mpr ((by norm_num : 1 < 2 ^ 63).trans h)
  have hsub : (n - 1).toNat = n.toNat - 1 := UInt64.toNat_sub_of_le _ _ (UInt64.le_of_lt hlt)
  have hsize : (n - 1).toNat.size = 64 := by
    refine le_antisymm (size_toNat_le _) (Nat.lt_size.mpr ?_)
    omega
  rw [bitCeil, if_neg (UInt64.not_le.mpr hlt), UInt64.ext_iff, UInt64.toNat_add, toNat_smearLoop,
    hsize]
  rfl

/-- `bit_ceil` is the least power of two not below its argument: its loop fills every place below
the highest bit, and the last addition carries. -/
theorem bitCeil_least {n : UInt64} (h : n.toNat ≤ 2 ^ 63) :
    (∃ k, (bitCeil n).toNat = 2 ^ k) ∧ n.toNat ≤ (bitCeil n).toNat ∧
      (∀ k, n.toNat ≤ 2 ^ k → (bitCeil n).toNat ≤ 2 ^ k) ∧ (n = 0 → bitCeil n = 1) ∧
      (1 < n →
        (∀ fuel, 6 ≤ fuel → smearLoop fuel (n - 1) 1
          = ([1, 2, 4, 8, 16, 32] : List UInt64).foldl (fun n shift => n ||| n >>> shift) (n - 1)) ∧
        (∀ i, (smearLoop 64 (n - 1) 1).toNat.testBit i = true ↔
          ∃ j, i ≤ j ∧ (n - 1).toNat.testBit j = true) ∧
        bitCeil n = smearLoop 64 (n - 1) 1 + 1 ∧ (smearLoop 64 (n - 1) 1).toNat + 1 < 2 ^ 64) := by
  have heq := toNat_bitCeil h
  refine ⟨⟨_, heq⟩, ?_, ?_, ?_, ?_⟩
  · rw [heq]
    exact le_two_pow_size_pred _
  · intro k hk
    rw [heq]
    exact two_pow_size_pred_le hk
  · rintro rfl
    rfl
  · intro hn
    exact ⟨fun fuel hfuel => smearLoop_eq_foldl hfuel (n - 1),
      fun i => (smears_smearLoop_one (n - 1)).testBit_iff (size_toNat_le (n - 1)),
      if_neg (UInt64.not_le.mpr hn), smearLoop_add_one_lt hn h⟩

/-- The largest argument is a power of two itself. -/
theorem bitCeil_least_max : 9223372036854775808 ≤ (bitCeil 9223372036854775808).toNat ∧
    (bitCeil 9223372036854775808).toNat ≤ 2 ^ 63 :=
  have hmax := bitCeil_least (n := 9223372036854775808) (by decide)
  ⟨hmax.2.1, hmax.2.2.1 63 (by decide)⟩

end LeKV
