import LeKV.Lib.Effects
import Mathlib.Logic.Relation

/-!
# Programs among others

While a program runs, others change the state between its operations. `R` says what one of their steps
may do, `T` what an operation of the program does in the state it finds. `Guarantees T R J Q p s` says
that `J` holds at all points of the program `p`, and `Q` of its result, however the others' steps fall
between its operations. A proof has one assertion for each point of the program, which the others'
steps keep (`Stable`), as in proofs by rely and guarantee.
-/

namespace Effects

open Relation

variable {S : Signature} {σ α β : Type}

/-- What an operation may do: the state it finds, its result, and the state it leaves. -/
abbrev Transition (S : Signature) (σ : Type) : Type := (o : S.Op) → σ → S.Res o → σ → Prop

/-- The steps of the others keep `I`. -/
def Stable (R : σ → σ → Prop) (I : σ → Prop) : Prop := ∀ s s', R s s' → I s → I s'

theorem Stable.star {R : σ → σ → Prop} {I : σ → Prop} (h : Stable R I) {s s' : σ}
    (hsteps : ReflTransGen R s s') (hs : I s) : I s' := by
  induction hsteps with
  | refl => exact hs
  | tail _ hstep ih => exact h _ _ hstep ih

namespace Prog

/-- Whatever the others do between the operations, `J` holds at all points, and `Q` of the result. -/
def Guarantees (T : Transition S σ) (R : σ → σ → Prop) (J : σ → Prop) (Q : α → σ → Prop) :
    Prog S α → σ → Prop
  | ret a, s => ∀ s', ReflTransGen R s s' → J s' ∧ Q a s'
  | op o k, s => ∀ s', ReflTransGen R s s' →
      J s' ∧ ∀ r s'', T o s' r s'' → Guarantees T R J Q (k r) s''

variable {T : Transition S σ} {R : σ → σ → Prop} {I J : σ → Prop} {P : α → σ → Prop}
  {Q : β → σ → Prop} {s s' : σ}

/-! ## Steps -/

theorem Guarantees.now {p : Prog S α} (h : p.Guarantees T R J P s) : J s := by
  cases p with
  | ret a => exact (h s .refl).1
  | op o k => exact (h s .refl).1

theorem Guarantees.result {a : α} (h : (ret a : Prog S α).Guarantees T R J P s) : P a s :=
  (h s .refl).2

/-- A step of the others. -/
theorem Guarantees.other {p : Prog S α} (h : p.Guarantees T R J P s) (hstep : R s s') :
    p.Guarantees T R J P s' := by
  cases p with
  | ret a => exact fun s'' hsteps => h s'' (.head hstep hsteps)
  | op o k => exact fun s'' hsteps => h s'' (.head hstep hsteps)

/-- An operation of the program. -/
theorem Guarantees.own {o : S.Op} {k : S.Res o → Prog S α} (h : (op o k).Guarantees T R J P s)
    {r : S.Res o} (hstep : T o s r s') : (k r).Guarantees T R J P s' :=
  (h s .refl).2 r s' hstep

/-! ## Rules -/

/-- At the end, the assertion has to give `J` and `Q`. -/
theorem guarantees_ret {a : α} (hI : Stable R I) (hs : I s) (hend : ∀ s, I s → J s ∧ P a s) :
    (ret a : Prog S α).Guarantees T R J P s :=
  fun s' hsteps => hend s' (hI.star hsteps hs)

/-- Before an operation, the assertion has to give `J` and what the rest of the program needs. -/
theorem guarantees_op {o : S.Op} {k : S.Res o → Prog S α} (hI : Stable R I) (hs : I s)
    (hJ : ∀ s, I s → J s)
    (hstep : ∀ s r s', I s → T o s r s' → (k r).Guarantees T R J P s') :
    (op o k).Guarantees T R J P s :=
  fun s' hsteps => ⟨hJ s' (hI.star hsteps hs), fun r s'' =>
    hstep s' r s'' (hI.star hsteps hs)⟩

theorem Guarantees.bind {p : Prog S α} {f : α → Prog S β} (hp : p.Guarantees T R J P s)
    (hf : ∀ a s, P a s → (f a).Guarantees T R J Q s) : (p >>= f).Guarantees T R J Q s := by
  induction p generalizing s with
  | ret a => exact hf a s hp.result
  | op o k ih =>
    intro s' hsteps
    obtain ⟨hJ, hrest⟩ := hp s' hsteps
    exact ⟨hJ, fun r s'' hstep => ih r (hrest r s'' hstep)⟩

end Prog

end Effects
