import LeKV.Lib.Effects

/-!
# What a program does, whatever it is answered

`Prog.history` is the list of the operations that a program performs, each with its result.
`Prog.Along` says something about this list, about what becomes of a part of the state that the
operations are known to change in a certain way, and about the program's result. It holds for all
results that the operations may have; `Along.history` brings it back to a handler.

What is said has to hold all along: with the result `none` it is said of a program that stops where it
is.
-/

namespace Effects

/-- An operation with its result. -/
abbrev Event (S : Signature) : Type := (o : S.Op) × S.Res o

/-- What may become of the state with an operation, and with which result. -/
abbrev Rely (S : Signature) (τ : Type) : Type := (o : S.Op) → τ → S.Res o → τ → Prop

namespace Prog

variable {S : Signature} {σ τ α β : Type}

/-- The operations performed, each with its result. -/
def history (h : Handler S σ) : Prog S α → σ → List (Event S)
  | ret _, _ => []
  | op o k, s =>
    match h o s with
    | none => []
    | some (r, s') => ⟨o, r⟩ :: history h (k r) s'

/-- `Q` holds all along. -/
def Along (R : Rely S τ) : Prog S α → τ → (List (Event S) → τ → Option α → Prop) → Prop
  | ret a, t, Q => Q [] t none ∧ Q [] t (some a)
  | op o k, t, Q => Q [] t none ∧
    ∀ r t', R o t r t' → Along R (k r) t' fun l u x => Q (⟨o, r⟩ :: l) u x

section Rules

variable {R : Rely S τ} {p : Prog S α} {t : τ} {Q Q' : List (Event S) → τ → Option α → Prop}

theorem Along.start (h : p.Along R t Q) : Q [] t none := by
  cases p with
  | ret a => exact h.1
  | op o k => exact h.1

theorem Along.mono (h : p.Along R t Q) (hQ : ∀ l u x, Q l u x → Q' l u x) : p.Along R t Q' := by
  induction p generalizing t Q Q' with
  | ret a => exact ⟨hQ _ _ _ h.1, hQ _ _ _ h.2⟩
  | op o k ih =>
    exact ⟨hQ _ _ _ h.1, fun r t' hr => ih r (h.2 r t' hr) fun l u x => hQ _ u x⟩

theorem Along.and (h : p.Along R t Q) (h' : p.Along R t Q') :
    p.Along R t fun l u x => Q l u x ∧ Q' l u x := by
  induction p generalizing t Q Q' with
  | ret a => exact ⟨⟨h.1, h'.1⟩, h.2, h'.2⟩
  | op o k ih => exact ⟨⟨h.1, h'.1⟩, fun r t' hr => ih r (h.2 r t' hr) (h'.2 r t' hr)⟩

/-- One program after another. -/
theorem Along.bind {f : α → Prog S β} {Q : List (Event S) → τ → Option β → Prop}
    (h : p.Along R t fun l u x =>
      match x with
      | none => Q l u none
      | some a => (f a).Along R u fun l' v y => Q (l ++ l') v y) :
    (p >>= f).Along R t Q := by
  -- `Q` is generalized: after an operation it speaks of the history without it.
  induction p generalizing t Q with
  | ret a => exact h.2
  | op o k ih =>
    rw [op_bind]
    exact ⟨h.1, fun r t' hr => ih r (h.2 r t' hr)⟩

/-- A handler that does to its state what the rule allows. -/
theorem Along.history (h : p.Along R t Q) {handler : Handler S σ} {π : σ → τ}
    (hrely : ∀ o s r s', handler o s = some (r, s') → R o (π s) r (π s')) {s : σ} (hs : π s = t) :
    Q (p.history handler s) (π (p.run handler s).2) (p.run handler s).1 := by
  induction p generalizing t s Q with
  | ret a => exact hs ▸ h.2
  | op o k ih =>
    rcases ho : handler o s with _ | ⟨r, s'⟩
    · simp only [Prog.history, Prog.run, ho, hs]
      exact h.1
    · simp only [Prog.history, Prog.run, ho]
      exact ih r (h.2 r (π s') (hs ▸ hrely o s r s' ho)) rfl

end Rules

end Prog

end Effects
