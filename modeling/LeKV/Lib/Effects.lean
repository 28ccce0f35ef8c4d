import Mathlib.Control.Basic

/-!
# Programs with effects over a state

A program of a signature `S` is a tree: it returns a value, or performs an operation of `S` and
goes on with the operation's result. What the operations do is a separate choice, a `Handler` over
some state. One program can therefore be run in several worlds: one where every operation
succeeds, one where an adversary answers, one that stops between two operations.

* `Prog.run` is the result and the state a program ends with.
* `Prog.visits` is the list of the operations it performs, each with the state it finds.
* `Prog.trace` is the list of states it passes through, one more than the operations it performs.
* `Prog.Always` says that something holds in all of these states.

A handler may refuse an operation. The program then stops there, without a result.
-/

namespace Effects

/-- The operations a program may perform, and the type of each operation's result. -/
structure Signature where
  Op : Type
  Res : Op → Type

/-- A program over the signature `S` with results in `α`. -/
inductive Prog (S : Signature) (α : Type) : Type where
  | ret (a : α)
  | op (o : S.Op) (k : S.Res o → Prog S α)

variable {S : Signature} {σ α β γ : Type}

namespace Prog

/-- Sequential composition: graft `f a` onto every leaf `ret a`. -/
def bind : Prog S α → (α → Prog S β) → Prog S β
  | ret a, f => f a
  | op o k, f => op o fun r => (k r).bind f

instance : Monad (Prog S) where
  pure := ret
  bind := bind

/-- Perform one operation and return its result. -/
def perform (o : S.Op) : Prog S (S.Res o) := op o ret

@[simp] theorem pure_eq_ret (a : α) : (pure a : Prog S α) = ret a := rfl

@[simp] theorem ret_bind (a : α) (f : α → Prog S β) : ret a >>= f = f a := rfl

@[simp] theorem op_bind (o : S.Op) (k : S.Res o → Prog S α) (f : α → Prog S β) :
    op o k >>= f = op o fun r => k r >>= f := rfl

theorem bind_ret (p : Prog S α) : p >>= ret = p := by
  induction p with
  | ret a => rfl
  | op o k ih =>
    rw [op_bind]
    exact congrArg (op o) (funext ih)

theorem bind_assoc (p : Prog S α) (f : α → Prog S β) (g : β → Prog S γ) :
    p >>= f >>= g = p >>= fun a => f a >>= g := by
  induction p with
  | ret a => rfl
  | op o k ih =>
    simp only [op_bind]
    exact congrArg (op o) (funext ih)

instance : LawfulMonad (Prog S) :=
  LawfulMonad.mk' (Prog S) bind_ret (fun _ _ => rfl) bind_assoc

end Prog

/-- What each operation does to a state: its result and the next state, or `none` where the
operation is refused. -/
abbrev Handler (S : Signature) (σ : Type) : Type := (o : S.Op) → σ → Option (S.Res o × σ)

namespace Prog

variable (h : Handler S σ)

/-- The result of a program, `none` where an operation was refused, and the state it ends in. -/
def run : Prog S α → σ → Option α × σ
  | ret a, s => (some a, s)
  | op o k, s =>
    match h o s with
    | none => (none, s)
    | some (r, s') => run (k r) s'

/-- The states a program passes through: the first one, and the one after each operation. -/
def trace : Prog S α → σ → List σ
  | ret _, s => [s]
  | op o k, s =>
    match h o s with
    | none => [s]
    | some (r, s') => s :: trace (k r) s'

/-- The operations a program performs, and the state each of them finds. -/
def visits : Prog S α → σ → List (S.Op × σ)
  | ret _, _ => []
  | op o k, s =>
    match h o s with
    | none => [(o, s)]
    | some (r, s') => (o, s) :: visits (k r) s'

@[simp] theorem run_ret (a : α) (s : σ) : run h (ret a) s = (some a, s) := rfl

theorem run_op_some {o : S.Op} {s s' : σ} {r : S.Res o} (ho : h o s = some (r, s'))
    (k : S.Res o → Prog S α) : run h (op o k) s = run h (k r) s' := by
  simp only [run, ho]

theorem run_op_none {o : S.Op} {s : σ} (ho : h o s = none) (k : S.Res o → Prog S α) :
    run h (op o k) s = (none, s) := by
  simp only [run, ho]

/-- A composition runs its second part on the first part's result and final state. -/
theorem run_bind (p : Prog S α) (f : α → Prog S β) (s : σ) :
    run h (p >>= f) s =
      match run h p s with
      | (some a, s') => run h (f a) s'
      | (none, s') => (none, s') := by
  induction p generalizing s with
  | ret a => rfl
  | op o k ih =>
    rw [op_bind]
    rcases ho : h o s with _ | ⟨r, s'⟩
    · rw [run_op_none h ho, run_op_none h ho]
    · rw [run_op_some h ho, run_op_some h ho, ih]

theorem run_bind_some {p : Prog S α} {s s' : σ} {a : α} (hp : run h p s = (some a, s'))
    (f : α → Prog S β) : run h (p >>= f) s = run h (f a) s' := by
  rw [run_bind, hp]

theorem run_bind_none {p : Prog S α} {s s' : σ} (hp : run h p s = (none, s'))
    (f : α → Prog S β) : run h (p >>= f) s = (none, s') := by
  rw [run_bind, hp]

/-! ## What is seen during a run -/

/-- The states of a run are the ones its operations find, and the last one. -/
theorem mem_trace {p : Prog S α} {s s' : σ} :
    s' ∈ trace h p s ↔ (∃ o, (o, s') ∈ visits h p s) ∨ s' = (run h p s).2 := by
  induction p generalizing s with
  | ret a => simp [trace, visits]
  | op o k ih =>
    rcases ho : h o s with _ | ⟨r, s₁⟩
    · simp [trace, visits, run, ho]
    · simp only [trace, visits, run, ho, List.mem_cons, ih, Prod.mk.injEq]
      constructor
      · rintro (rfl | ⟨o', hmem⟩ | hlast)
        · exact .inl ⟨o, .inl ⟨rfl, rfl⟩⟩
        · exact .inl ⟨o', .inr hmem⟩
        · exact .inr hlast
      · rintro (⟨o', ⟨-, rfl⟩ | hmem⟩ | hlast)
        · exact .inl rfl
        · exact .inr (.inl ⟨o', hmem⟩)
        · exact .inr (.inr hlast)

theorem self_mem_trace (p : Prog S α) (s : σ) : s ∈ trace h p s := by
  cases p with
  | ret a => exact List.mem_singleton_self s
  | op o k =>
    rw [trace]
    rcases h o s with _ | ⟨r, s'⟩ <;> simp

/-- Wrapping its result does not change the states of a run. -/
theorem trace_map (p : Prog S α) (f : α → β) (s : σ) :
    trace h (p >>= fun a => ret (f a)) s = trace h p s := by
  induction p generalizing s with
  | ret a => rfl
  | op o k ih =>
    rw [op_bind, trace, trace]
    rcases h o s with _ | ⟨r, s'⟩
    · rfl
    · exact congrArg (s :: ·) (ih r s')

/-- A composition performs the operations of its first part, then those of the second. -/
theorem visits_bind_some {p : Prog S α} {f : α → Prog S β} {s s' : σ} {a : α}
    (hp : run h p s = (some a, s')) : visits h (p >>= f) s = visits h p s ++ visits h (f a) s' := by
  induction p generalizing s with
  | ret b =>
    obtain ⟨hb, rfl⟩ := Prod.mk.inj hp
    obtain rfl := Option.some.inj hb
    rfl
  | op o k ih =>
    rw [op_bind]
    rcases ho : h o s with _ | ⟨r, s₁⟩
    · rw [run_op_none h ho] at hp
      exact absurd (congrArg Prod.fst hp) (by simp)
    · rw [run_op_some h ho] at hp
      simp only [visits, ho, ih r hp, List.cons_append]

/-- A composition performs the operations of its first part, and those of the second on the first
part's result. -/
theorem mem_visits_bind {p : Prog S α} {f : α → Prog S β} {s : σ} {x : S.Op × σ} :
    x ∈ visits h (p >>= f) s ↔ x ∈ visits h p s ∨
      ∃ a s', run h p s = (some a, s') ∧ x ∈ visits h (f a) s' := by
  induction p generalizing s with
  | ret a =>
    constructor
    · exact fun hx => .inr ⟨a, s, rfl, hx⟩
    · rintro (hx | ⟨a', s', hrun, hx⟩)
      · exact absurd hx List.not_mem_nil
      · obtain ⟨ha, rfl⟩ := Prod.mk.inj hrun
        obtain rfl := Option.some.inj ha
        exact hx
  | op o k ih =>
    rw [op_bind]
    rcases ho : h o s with _ | ⟨r, s₁⟩
    · simp [visits, run, ho]
    · simp only [visits, run, ho, List.mem_cons, ih, or_assoc]

/-- What every operation that is performed keeps, holds throughout the run and at its end. -/
theorem run_of_visits {p : Prog S α} {J : σ → Prop} {s : σ}
    (hstep : ∀ x ∈ visits h p s, J x.2 → ∀ r s', h x.1 x.2 = some (r, s') → J s') (hs : J s) :
    (∀ x ∈ visits h p s, J x.2) ∧ J (run h p s).2 := by
  induction p generalizing s with
  | ret a => exact ⟨fun x hx => absurd hx List.not_mem_nil, hs⟩
  | op o k ih =>
    rw [visits] at hstep ⊢
    rcases ho : h o s with _ | ⟨r, s₁⟩
    · rw [run_op_none h ho]
      refine ⟨fun x hx => ?_, hs⟩
      rw [List.mem_singleton.mp hx]
      exact hs
    · rw [ho] at hstep
      rw [run_op_some h ho]
      have hs₁ : J s₁ := hstep (o, s) List.mem_cons_self hs r s₁ ho
      obtain ⟨hvisits, hrun⟩ := ih r (fun x hx => hstep x (List.mem_cons_of_mem _ hx)) hs₁
      refine ⟨fun x hx => ?_, hrun⟩
      rcases List.mem_cons.mp hx with rfl | hx
      · exact hs
      · exact hvisits x hx

/-! ## Programs that keep to some operations -/

/-- Every operation of the program, whatever the results before it, satisfies `P`. -/
def Uses (P : S.Op → Prop) : Prog S α → Prop
  | ret _ => True
  | op o k => P o ∧ ∀ r, Uses P (k r)

theorem Uses.bind {P : S.Op → Prop} {p : Prog S α} {f : α → Prog S β} (hp : p.Uses P)
    (hf : ∀ a, (f a).Uses P) : (p >>= f).Uses P := by
  induction p with
  | ret a => exact hf a
  | op o k ih => exact ⟨hp.1, fun r => ih r (hp.2 r)⟩

variable {h} in
/-- What each of its operations keeps, a program keeps; and it ends with a result. -/
theorem Uses.run {P : S.Op → Prop} {p : Prog S α} (hp : p.Uses P) {J : σ → Prop}
    (hop : ∀ o, P o → ∀ s, J s → ∃ r s', h o s = some (r, s') ∧ J s') {s : σ} (hs : J s) :
    ∃ a s', Prog.run h p s = (some a, s') ∧ J s' := by
  induction p generalizing s with
  | ret a => exact ⟨a, s, rfl, hs⟩
  | op o k ih =>
    obtain ⟨r, s', ho, hs'⟩ := hop o hp.1 s hs
    rw [run_op_some h ho]
    exact ih r (hp.2 r) hs'

variable {h} in
/-- Where no operation changes the state, the program leaves it. -/
theorem Uses.run_snd {p : Prog S α} (hp : p.Uses fun o => ∀ s r s', h o s = some (r, s') → s' = s)
    (s : σ) : (Prog.run h p s).2 = s := by
  induction p generalizing s with
  | ret a => rfl
  | op o k ih =>
    rcases ho : h o s with _ | ⟨r, s'⟩
    · rw [run_op_none h ho]
    · rw [run_op_some h ho, ih r (hp.2 r), hp.1 s r s' ho]

variable {h} in
/-- What each of its operations keeps, holds wherever the program performs one. -/
theorem Uses.visits {P : S.Op → Prop} {p : Prog S α} (hp : p.Uses P) {J : σ → Prop}
    (hop : ∀ o, P o → ∀ s, J s → ∀ r s', h o s = some (r, s') → J s') {s : σ} (hs : J s) :
    ∀ x ∈ Prog.visits h p s, P x.1 ∧ J x.2 := by
  induction p generalizing s with
  | ret a => exact fun x hx => absurd hx List.not_mem_nil
  | op o k ih =>
    intro x hx
    rw [Prog.visits] at hx
    rcases ho : h o s with _ | ⟨r, s'⟩
    · rw [ho] at hx
      rw [List.mem_singleton.mp hx]
      exact ⟨hp.1, hs⟩
    · rw [ho] at hx
      rcases List.mem_cons.mp hx with rfl | hx
      · exact ⟨hp.1, hs⟩
      · exact ih r (hp.2 r) (hop o hp.1 s hs r s' ho) x hx

/-! ## What a program can return -/

/-- Every result of the program, whatever its operations return, satisfies `Q`. -/
def Returns (Q : α → Prop) : Prog S α → Prop
  | ret a => Q a
  | op _ k => ∀ r, Returns Q (k r)

theorem Returns.mono {P Q : α → Prop} {p : Prog S α} (hp : p.Returns P) (h : ∀ a, P a → Q a) :
    p.Returns Q := by
  induction p with
  | ret a => exact h a hp
  | op o k ih => exact fun r => ih r (hp r)

theorem returns_true (p : Prog S α) : p.Returns fun _ => True := by
  induction p with
  | ret a => exact trivial
  | op o k ih => exact ih

theorem Returns.bind {P : α → Prop} {Q : β → Prop} {p : Prog S α} {f : α → Prog S β}
    (hp : p.Returns P) (hf : ∀ a, P a → (f a).Returns Q) : (p >>= f).Returns Q := by
  induction p with
  | ret a => exact hf a hp
  | op o k ih => exact fun r => ih r (hp r)

variable {h} in
theorem Returns.run {Q : α → Prop} {p : Prog S α} (hp : p.Returns Q) {s s' : σ} {a : α}
    (hrun : Prog.run h p s = (some a, s')) : Q a := by
  induction p generalizing s with
  | ret b =>
    obtain rfl : b = a := Option.some.inj (congrArg Prod.fst hrun)
    exact hp
  | op o k ih =>
    rcases ho : h o s with _ | ⟨r, s₁⟩
    · rw [run_op_none h ho] at hrun
      exact absurd (congrArg Prod.fst hrun) (Option.some_ne_none a).symm
    · rw [run_op_some h ho] at hrun
      exact ih r (hp r) hrun

/-! ## All points of a run -/

/-- `J` holds in every state that the run passes through. -/
def Always (p : Prog S α) (J : σ → Prop) (s : σ) : Prop := ∀ s' ∈ trace h p s, J s'

variable {h} {J : σ → Prop} {s s' : σ}

@[simp] theorem always_ret (a : α) : Always h (ret a) J s ↔ J s := by
  simp [Always, trace]

theorem always_op_some {o : S.Op} {r : S.Res o} (ho : h o s = some (r, s'))
    (k : S.Res o → Prog S α) : Always h (op o k) J s ↔ J s ∧ Always h (k r) J s' := by
  simp [Always, trace, ho]

theorem always_op_none {o : S.Op} (ho : h o s = none) (k : S.Res o → Prog S α) :
    Always h (op o k) J s ↔ J s := by
  simp [Always, trace, ho]

theorem Always.start {p : Prog S α} (hp : Always h p J s) : J s := by
  cases p with
  | ret a => exact (always_ret a).mp hp
  | op o k =>
    rcases ho : h o s with _ | ⟨r, s'⟩
    · exact (always_op_none ho k).mp hp
    · exact ((always_op_some ho k).mp hp).1

/-- All points of a composition: those of its first part, and those of the second from the first
part's result on. -/
theorem always_bind {p : Prog S α} {f : α → Prog S β} :
    Always h (p >>= f) J s ↔
      Always h p J s ∧ ∀ a s', run h p s = (some a, s') → Always h (f a) J s' := by
  induction p generalizing s with
  | ret a =>
    rw [always_ret]
    constructor
    · intro hf
      refine ⟨hf.start, fun a' s' hrun => ?_⟩
      obtain ⟨ha, rfl⟩ := Prod.mk.inj hrun
      obtain rfl := Option.some.inj ha
      exact hf
    · exact fun hf => hf.2 a s rfl
  | op o k ih =>
    rw [op_bind]
    rcases ho : h o s with _ | ⟨r, s₁⟩
    · rw [always_op_none ho, always_op_none ho, run_op_none h ho]
      refine (and_iff_left ?_).symm
      exact fun a s' hrun => absurd (congrArg Prod.fst hrun) (by simp)
    · rw [always_op_some ho, always_op_some ho, run_op_some h ho, ih, and_assoc]

theorem always_bind_some {p : Prog S α} {f : α → Prog S β} {a : α} (hp : run h p s = (some a, s')) :
    Always h (p >>= f) J s ↔ Always h p J s ∧ Always h (f a) J s' := by
  rw [always_bind, hp]
  refine and_congr_right fun _ => ⟨fun hf => hf a s' rfl, fun hf a' s₁ hrun => ?_⟩
  obtain ⟨ha, rfl⟩ := Prod.mk.inj hrun
  obtain rfl := Option.some.inj ha
  exact hf

theorem always_bind_none {p : Prog S α} {f : α → Prog S β} (hp : run h p s = (none, s')) :
    Always h (p >>= f) J s ↔ Always h p J s := by
  rw [always_bind, hp]
  exact and_iff_left fun a s₁ hrun => absurd (congrArg Prod.fst hrun) (by simp)

theorem Always.run {p : Prog S α} (hp : Always h p J s) : J (Prog.run h p s).2 :=
  hp _ ((mem_trace h).mpr (.inr rfl))

end Prog

end Effects
