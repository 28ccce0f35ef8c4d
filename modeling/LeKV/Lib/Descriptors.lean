import Mathlib.Data.Nat.Notation
import Mathlib.Tactic.TypeStar

/-!
# Descriptor numbers

A table of descriptor numbers that the system hands out, that their holders close, and that may be
handed out again. It keeps for each number whom it was last handed to and how many `close` calls came
since. A number is open as long as none came; a second call finds it closed, or closes what somebody
else was handed in between.
-/

namespace Descriptors

/-- For each number, its last holder and the `close` calls since. -/
structure Table (ι : Type*) where
  holder : ℕ → Option ι
  closes : ℕ → ℕ

namespace Table

variable {ι : Type*} {t : Table ι} {i : ι} {fd m : ℕ}

/-- No number was handed out yet. -/
def empty : Table ι := ⟨fun _ => none, fun _ => 0⟩

/-- Holder `i` has the number, and nobody closed it. -/
def HeldBy (t : Table ι) (i : ι) (fd : ℕ) : Prop := t.holder fd = some i ∧ t.closes fd = 0

instance [DecidableEq ι] (t : Table ι) (i : ι) (fd : ℕ) : Decidable (t.HeldBy i fd) :=
  inferInstanceAs (Decidable (_ ∧ _))

/-- The system may hand the number out: nobody has it, or it was closed. -/
def Free (t : Table ι) (fd : ℕ) : Prop := t.holder fd = none ∨ t.closes fd ≠ 0

instance [DecidableEq ι] (t : Table ι) (fd : ℕ) : Decidable (t.Free fd) :=
  inferInstanceAs (Decidable (_ ∨ _))

/-- Hand the number out. -/
def handOut (t : Table ι) (i : ι) (fd : ℕ) : Table ι where
  holder m := if m = fd then some i else t.holder m
  closes m := if m = fd then 0 else t.closes m

/-- `close(fd)`. -/
def close (t : Table ι) (fd : ℕ) : Table ι :=
  { t with closes := fun m => if m = fd then t.closes m + 1 else t.closes m }

/-- `close` on each number of a list. -/
def closeAll (t : Table ι) (fds : List ℕ) : Table ι := fds.foldl close t

theorem not_heldBy_of_free (h : t.Free fd) : ¬t.HeldBy i fd := by
  rintro ⟨hholder, hcloses⟩
  rcases h with hnone | hclosed
  · rw [hnone] at hholder
    exact absurd hholder (by simp)
  · exact hclosed hcloses

@[simp] theorem holder_close : (t.close fd).holder m = t.holder m := rfl

theorem closes_close_self : (t.close fd).closes fd = t.closes fd + 1 := if_pos rfl

theorem closes_close_of_ne (h : m ≠ fd) : (t.close fd).closes m = t.closes m := if_neg h

@[simp] theorem holder_closeAll (fds : List ℕ) : (t.closeAll fds).holder m = t.holder m := by
  induction fds generalizing t with
  | nil => rfl
  | cons fd fds ih => exact ih

/-- Each occurrence in the list is one call. -/
theorem closes_closeAll (fds : List ℕ) :
    (t.closeAll fds).closes m = t.closes m + fds.count m := by
  induction fds generalizing t with
  | nil => rfl
  | cons fd fds ih =>
    have hcons : t.closeAll (fd :: fds) = (t.close fd).closeAll fds := rfl
    rw [hcons, ih, List.count_cons]
    by_cases hm : m = fd
    · subst hm
      simp only [closes_close_self, beq_self_eq_true, if_true]
      omega
    · simp only [closes_close_of_ne hm, beq_iff_eq, if_neg (Ne.symm hm), Nat.add_zero]

theorem heldBy_close_of_ne (h : m ≠ fd) : (t.close fd).HeldBy i m ↔ t.HeldBy i m := by
  rw [HeldBy, HeldBy, holder_close, closes_close_of_ne h]

theorem not_heldBy_close : ¬(t.close fd).HeldBy i fd := by
  rintro ⟨-, hcloses⟩
  rw [closes_close_self] at hcloses
  exact absurd hcloses (Nat.succ_ne_zero _)

theorem heldBy_handOut_self : (t.handOut i fd).HeldBy i fd := ⟨if_pos rfl, if_pos rfl⟩

theorem heldBy_handOut_of_ne {j : ι} (h : m ≠ fd) : (t.handOut j fd).HeldBy i m ↔ t.HeldBy i m := by
  simp only [HeldBy, handOut, if_neg h]

end Table

end Descriptors
