import Mathlib.Algebra.BigOperators.Group.Finset.Basic
import Mathlib.Algebra.Order.BigOperators.Group.Finset
import Mathlib.Data.Prod.Lex
import Mathlib.Order.OrderIsoNat
import Mathlib.Tactic.Linarith

/-!
# Potentials

A process that lowers a potential in a well-founded order whenever it does something ends up doing
nothing (`eventually_idle`). The potential for moving load from one place to another is the sum of
the squared loads: it falls when what moves is less than the difference of the two loads
(`sum_sq_lt`).
-/

namespace Potential

open Finset

/-- An infinite process does nothing from some step on, if every step that does something lowers the
potential, and nothing is done after a step that did nothing. -/
theorem eventually_idle {α : Type*} [Preorder α] [WellFoundedLT α] {Idle : ℕ → Prop} (μ : ℕ → α)
    (hstep : ∀ n, Idle n ∨ μ (n + 1) < μ n) (hkeep : ∀ n, Idle n → Idle (n + 1)) :
    ∃ N, ∀ n ≥ N, Idle n := by
  have hfirst : ∃ N, Idle N := by
    by_contra hnone
    push Not at hnone
    -- the potentials would decrease forever
    have hanti : StrictAnti μ := strictAnti_nat_of_succ_lt fun n => (hstep n).resolve_left (hnone n)
    exact not_strictAnti_of_wellFoundedLT μ hanti
  obtain ⟨N, hN⟩ := hfirst
  exact ⟨N, fun n hn => Nat.le_induction hN (fun n _ h => hkeep n h) n hn⟩

variable {ι : Type*} [DecidableEq ι] {S : Finset ι} {f g : ι → ℕ} {a b : ι} {c : ℕ}

/-- A sum in which two terms change. -/
theorem sum_eq_of_two (F : ι → ℕ) (ha : a ∈ S) (hb : b ∈ S) (hab : a ≠ b) :
    ∑ i ∈ S, F i = F a + F b + ∑ i ∈ (S.erase a).erase b, F i := by
  rw [← add_sum_erase S F ha, ← add_sum_erase (S.erase a) F (mem_erase.mpr ⟨hab.symm, hb⟩), add_assoc]

/-- Moving load from one place to another keeps the sum of the squares down, as long as what moves is
less than the difference. -/
theorem sum_sq_lt (ha : a ∈ S) (hb : b ∈ S) (hab : a ≠ b) (hfrom : f a = g a + c)
    (hto : g b = f b + c) (hrest : ∀ i, i ≠ a → i ≠ b → g i = f i) (hpos : 0 < c)
    (hless : f b + c < f a) : ∑ i ∈ S, g i ^ 2 < ∑ i ∈ S, f i ^ 2 := by
  rw [sum_eq_of_two (fun i => g i ^ 2) ha hb hab, sum_eq_of_two (fun i => f i ^ 2) ha hb hab]
  have hsame : ∑ i ∈ (S.erase a).erase b, g i ^ 2 = ∑ i ∈ (S.erase a).erase b, f i ^ 2 := by
    apply sum_congr rfl
    intro i hi
    obtain ⟨hib, hi⟩ := mem_erase.mp hi
    rw [hrest i (mem_erase.mp hi).1 hib]
  have htwo : g a ^ 2 + g b ^ 2 < f a ^ 2 + f b ^ 2 := by
    have hg : f b < g a := by omega
    rw [hto, hfrom]
    nlinarith
  rw [hsame]
  exact Nat.add_lt_add_right htwo _

end Potential
