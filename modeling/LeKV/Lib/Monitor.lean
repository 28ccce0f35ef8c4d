import LeKV.Lib.Effects
import Mathlib.Logic.Function.Basic
import Mathlib.Tactic.Common

/-!
# Calls of many threads on one object

Threads call an object whose state they share. A call runs a program; each of its operations is one
step, and the threads' steps interleave in any order. A locked call holds the object's mutex while it
runs, an unlocked call does not, and only looks at the state. A call takes effect with its last
operation: the log lists the calls in this order.

`Serial` is the invariant: the calls in the log, run one after the other, give the results they had and
the state that is shared now; while a locked call is under way, the state is one of those that this
call passes through alone. `reach_serial` proves it for the locked calls in every run, and for unlocked
calls of one operation where no locked call is half-way when they look.
-/

namespace Monitor

open Effects Prog

variable {S : Signature} {σ T C R : Type}

/-- A program of one operation at most. -/
def SingleOp (p : Prog S R) : Prop :=
  (∃ a, p = .ret a) ∨ ∃ o k, p = .op o k ∧ ∀ r, ∃ a, k r = .ret a

/-- A program of one operation keeps to one when its result is wrapped. -/
theorem SingleOp.map {A : Type} {p : Prog S A} (h : SingleOp p) (f : A → R) :
    SingleOp (p >>= fun a => .ret (f a)) := by
  obtain ⟨a, rfl⟩ | ⟨o, k, rfl, hret⟩ := h
  · exact .inl ⟨f a, rfl⟩
  · refine .inr ⟨o, _, rfl, fun r => ?_⟩
    obtain ⟨a, ha⟩ := hret r
    exact ⟨f a, by rw [ha]; rfl⟩

/-- An object: what its operations do, the program of a call, and which calls take the mutex. -/
structure Object (S : Signature) (σ C R : Type) where
  handler : Handler S σ
  body : C → Prog S R
  locked : C → Bool

/-- Where a thread is: between calls, before the start of a call, or in its program. `begun` says that
it has performed an operation. -/
inductive Phase (S : Signature) (C R : Type) where
  | idle
  | waiting (c : C)
  | running (c : C) (begun : Bool) (p : Prog S R)

/-- The shared state, and for each thread the calls it will make, where it is, and what its calls
returned. The log has the calls in the order in which they took effect. -/
structure State (S : Signature) (σ T C R : Type) where
  shared : σ
  todo : T → List C
  phase : T → Phase S C R
  log : List (T × C × R)
  returned : T → List (C × R)

/-- Nothing has been called. -/
def State.init (s : σ) (todo : T → List C) : State S σ T C R :=
  ⟨s, todo, fun _ => .idle, [], fun _ => []⟩

/-- The entry of a call that has no operation left. -/
def entry (t : T) (c : C) : Prog S R → List (T × C × R)
  | .ret a => [(t, c, a)]
  | .op _ _ => []

namespace Object

variable (O : Object S σ C R)

/-- Nobody holds the mutex. -/
def Free (s : State S σ T C R) : Prop :=
  ∀ t c b p, s.phase t = .running c b p → O.locked c = false

/-- No locked call is between its first operation and its last. -/
def Calm (s : State S σ T C R) : Prop :=
  ∀ t c o k, s.phase t = .running c true (.op o k) → O.locked c = false

variable [DecidableEq T]

/-- The program of a call of `t` goes on with `p`, in the state `x`. -/
def goOn (s : State S σ T C R) (x : σ) (t : T) (c : C) (begun : Bool) (p : Prog S R) :
    State S σ T C R :=
  { s with
    shared := x
    phase := Function.update s.phase t (.running c begun p)
    log := s.log ++ entry t c p }

/-- One step of the thread `t`. -/
inductive Step (t : T) : State S σ T C R → State S σ T C R → Prop where
  | call {s : State S σ T C R} {c : C} {rest : List C} (hidle : s.phase t = .idle)
      (htodo : s.todo t = c :: rest) :
      Step t s { s with
        todo := Function.update s.todo t rest
        phase := Function.update s.phase t (.waiting c) }
  | start {s : State S σ T C R} {c : C} (hwaiting : s.phase t = .waiting c)
      (hfree : O.locked c = true → O.Free s) : Step t s (goOn s s.shared t c false (O.body c))
  | op {s : State S σ T C R} {c : C} {b : Bool} {o : S.Op} {k : S.Res o → Prog S R} {r : S.Res o} {x : σ}
      (hrunning : s.phase t = .running c b (.op o k)) (hop : O.handler o s.shared = some (r, x)) :
      Step t s (goOn s x t c true (k r))
  | finish {s : State S σ T C R} {c : C} {b : Bool} {a : R} (hrunning : s.phase t = .running c b (.ret a)) :
      Step t s { s with
        phase := Function.update s.phase t .idle
        returned := Function.update s.returned t (s.returned t ++ [(c, a)]) }

/-- The states that threads reach whose steps are all `ok`. -/
inductive Reach (ok : State S σ T C R → T → Prop) (s : State S σ T C R) : State S σ T C R → Prop where
  | refl : Reach ok s s
  | step {s₁ s₂ : State S σ T C R} (h : Reach ok s s₁) {t : T} (hok : ok s₁ t) (hstep : O.Step t s₁ s₂) :
      Reach ok s s₂

/-- The operation leaves the state as it is. -/
def Reads (o : S.Op) : Prop := ∀ s r s', O.handler o s = some (r, s') → s' = s

/-- The calls run one after the other, with these results. -/
def Replays : List (T × C × R) → σ → σ → Prop
  | [], s, s' => s' = s
  | e :: l, s, s' => ∃ s₁, run O.handler (O.body e.2.1) s = (some e.2.2, s₁) ∧ Replays l s₁ s'

end Object

/-! ## The log -/

section Log

variable {O : Object S σ C R}

theorem replays_append {l l' : List (T × C × R)} {s s' : σ} :
    O.Replays (l ++ l') s s' ↔ ∃ s₁, O.Replays l s s₁ ∧ O.Replays l' s₁ s' := by
  induction l generalizing s with
  | nil => simp [Object.Replays]
  | cons e l ih =>
    simp only [List.cons_append, Object.Replays, ih]
    constructor
    · rintro ⟨s₁, hrun, s₂, hl, hl'⟩
      exact ⟨s₂, ⟨s₁, hrun, hl⟩, hl'⟩
    · rintro ⟨s₂, ⟨s₁, hrun, hl⟩, hl'⟩
      exact ⟨s₁, hrun, s₂, hl, hl'⟩

/-- The state after a list of calls is determined. -/
theorem Object.Replays.unique {l : List (T × C × R)} {s s₁ s₂ : σ} (h₁ : O.Replays l s s₁)
    (h₂ : O.Replays l s s₂) : s₁ = s₂ := by
  induction l generalizing s with
  | nil => exact h₁.trans h₂.symm
  | cons e l ih =>
    obtain ⟨x, hx, h₁⟩ := h₁
    obtain ⟨y, hy, h₂⟩ := h₂
    obtain ⟨-, rfl⟩ := Prod.mk.inj (hx.symm.trans hy)
    exact ih h₁ h₂

theorem Object.Replays.snoc {l : List (T × C × R)} {s s₁ s₂ : σ} (h : O.Replays l s s₁) {t : T} {c : C}
    {a : R} (hrun : run O.handler (O.body c) s₁ = (some a, s₂)) :
    O.Replays (l ++ [(t, c, a)]) s s₂ :=
  replays_append.mpr ⟨s₁, h, s₂, hrun, rfl⟩

end Log

/-! ## How far a program is -/

variable [DecidableEq T]

/-- A program that has performed no operation is the whole body; after its operation, a program of one
operation has none left. -/
def Begun (O : Object S σ C R) (s : State S σ T C R) : Prop :=
  ∀ t c b p, s.phase t = .running c b p →
    (b = false → p = O.body c) ∧ (SingleOp (O.body c) → b = true → ∃ a, p = .ret a)

section Begun

variable {O : Object S σ C R} {ok : State S σ T C R → T → Prop} {s s' : State S σ T C R} {t : T} {c : C}
  {b : Bool} {x : σ}

omit [DecidableEq T] in
/-- A program of one operation that has one left has not begun. -/
theorem Begun.not_begun (h : Begun O s) {o : S.Op} {k : S.Res o → Prog S R}
    (hrunning : s.phase t = .running c b (.op o k)) (hsingle : SingleOp (O.body c)) : b = false := by
  by_contra hb
  obtain ⟨a, ha⟩ := (h t c b _ hrunning).2 hsingle (by simpa using hb)
  cases ha

omit [DecidableEq T] in
theorem Begun.body_of_single (h : Begun O s) {o : S.Op} {k : S.Res o → Prog S R}
    (hrunning : s.phase t = .running c b (.op o k)) (hsingle : SingleOp (O.body c)) :
    .op o k = O.body c :=
  (h t c b _ hrunning).1 (h.not_begun hrunning hsingle)

theorem Begun.step (h : Begun O s) (hstep : O.Step t s s') : Begun O s' := by
  -- only the phase of `t` changes
  have hupdate : ∀ {ph : Phase S C R}, (∀ c b p, ph = .running c b p →
      (b = false → p = O.body c) ∧ (SingleOp (O.body c) → b = true → ∃ a, p = .ret a)) →
      ∀ t' c b p, Function.update s.phase t ph t' = .running c b p →
        (b = false → p = O.body c) ∧ (SingleOp (O.body c) → b = true → ∃ a, p = .ret a) := by
    intro ph hph t' c b p hrunning
    by_cases ht : t' = t
    · subst ht
      rw [Function.update_self] at hrunning
      exact hph c b p hrunning
    · rw [Function.update_of_ne ht] at hrunning
      exact h t' c b p hrunning
  cases hstep with
  | call _ _ => exact hupdate (by simp)
  | finish _ => exact hupdate (by simp)
  | start _ _ =>
    refine hupdate fun c' b' p' heq => ?_
    cases heq
    exact ⟨fun _ => rfl, by simp⟩
  | @op c b o k r x hrunning _ =>
    refine hupdate fun c' b' p' heq => ?_
    cases heq
    refine ⟨by simp, fun hsingle _ => ?_⟩
    have hbody := h.body_of_single hrunning hsingle
    obtain ⟨a, ha⟩ | ⟨o', k', hop, hret⟩ := hsingle
    · rw [ha] at hbody
      cases hbody
    · rw [hop] at hbody
      cases hbody
      exact hret r

theorem reach_begun {todo : T → List C} (h : O.Reach ok (State.init x todo) s) : Begun O s := by
  induction h with
  | refl => exact fun t c b p hp => absurd hp (by simp [State.init])
  | step _ _ hstep ih => exact ih.step hstep

end Begun

/-! ## The invariant -/

/-- The calls of the log that are `kept` lead from `init` to `base`; the shared state is `base` again
unless a locked call is under way, and then one of those that this call passes through. -/
structure Serial (O : Object S σ C R) (kept : C → Bool) (init base : σ) (s : State S σ T C R) :
    Prop where
  replays : O.Replays (s.log.filter fun e => kept e.2.1) init base
  one : ∀ {t c b p t' c' b' p'}, s.phase t = .running c b p → O.locked c = true →
    s.phase t' = .running c' b' p' → O.locked c' = true → t' = t
  settled : (∀ t c b o k, s.phase t = .running c b (.op o k) → O.locked c = false) → s.shared = base
  holder : ∀ {t c b o k}, s.phase t = .running c b (.op o k) → O.locked c = true →
    trace O.handler (.op o k) s.shared <:+ trace O.handler (O.body c) base ∧
      run O.handler (.op o k) s.shared = run O.handler (O.body c) base ∧
      (b = false → s.shared = base)
  reader : ∀ {t c b p}, s.phase t = .running c b p → O.locked c = false → p.Uses O.Reads

/-- Unlocked calls only read; those that are kept have one operation. -/
structure ReadersRead (O : Object S σ C R) (kept : C → Bool) : Prop where
  locked : ∀ c, O.locked c = true → kept c = true
  reads : ∀ c, O.locked c = false → (O.body c).Uses O.Reads
  single : ∀ c, O.locked c = false → kept c = true → SingleOp (O.body c)

/-- A kept call that is not locked performs its operation while no locked call is half-way. -/
def LooksCalm (O : Object S σ C R) (kept : C → Bool) (s : State S σ T C R) (t : T) : Prop :=
  ∀ c b o k, s.phase t = .running c b (.op o k) → O.locked c = false → kept c = true → O.Calm s

section Steps

variable {O : Object S σ C R} {kept : C → Bool} {init base x : σ} {s s' : State S σ T C R} {t : T}
  {c : C} {b : Bool} {p : Prog S R}

@[simp] theorem shared_goOn : (Object.goOn s x t c b p).shared = x := rfl

@[simp] theorem todo_goOn : (Object.goOn s x t c b p).todo = s.todo := rfl

@[simp] theorem returned_goOn : (Object.goOn s x t c b p).returned = s.returned := rfl

@[simp] theorem log_goOn : (Object.goOn s x t c b p).log = s.log ++ entry t c p := rfl

@[simp] theorem phase_goOn : (Object.goOn s x t c b p).phase t = .running c b p :=
  Function.update_self ..

theorem phase_goOn_of_ne {t' : T} (h : t' ≠ t) : (Object.goOn s x t c b p).phase t' = s.phase t' :=
  Function.update_of_ne h ..

omit [DecidableEq T] in
theorem serial_init (todo : T → List C) :
    Serial O kept x x (State.init x todo : State S σ T C R) where
  replays := rfl
  one h := absurd h (by simp [State.init])
  settled _ := rfl
  holder h := absurd h (by simp [State.init])
  reader h := absurd h (by simp [State.init])

omit [DecidableEq T] in
/-- While no locked call is half-way, the state is that of the log. -/
theorem Serial.shared_of_calm (h : Serial O kept init base s) (hcalm : O.Calm s) : s.shared = base := by
  by_cases hsettled : ∀ t c b o k, s.phase t = .running c b (.op o k) → O.locked c = false
  · exact h.settled hsettled
  · push Not at hsettled
    obtain ⟨t, c, b, o, k, hrunning, hlocked⟩ := hsettled
    have hlocked : O.locked c = true := by simpa using hlocked
    cases b with
    | false => exact (h.holder hrunning hlocked).2.2 rfl
    | true => exact absurd (hcalm t c o k hrunning) (by simp [hlocked])

/-- A thread that runs no operation, and keeps running none. -/
theorem Serial.still (h : Serial O kept init base s) {ph : Phase S C R}
    (hold : ∀ c b o k, s.phase t ≠ .running c b (.op o k)) (hnew : ∀ c b p, ph ≠ .running c b p)
    {todo : T → List C} {returned : T → List (C × R)} :
    Serial O kept init base
      { s with phase := Function.update s.phase t ph, todo := todo, returned := returned } := by
  have hsame : ∀ {t' c b p}, Function.update s.phase t ph t' = .running c b p →
      s.phase t' = .running c b p := by
    intro t' c b p hp
    by_cases ht : t' = t
    · subst ht
      rw [Function.update_self] at hp
      exact absurd hp (hnew c b p)
    · rwa [Function.update_of_ne ht] at hp
  refine ⟨h.replays, fun h₁ hl h₂ hl' => h.one (hsame h₁) hl (hsame h₂) hl', fun hsettled => ?_,
    fun h₁ hl => h.holder (hsame h₁) hl, fun h₁ hl => h.reader (hsame h₁) hl⟩
  refine h.settled fun t' c b o k hrunning => hsettled t' c b o k ?_
  by_cases ht : t' = t
  · subst ht
    exact absurd hrunning (hold c b o k)
  · rwa [← Function.update_of_ne ht ph s.phase] at hrunning

omit [DecidableEq T] in
/-- The filter of a log that grows by an entry of `c`. -/
theorem filter_entry (l : List (T × C × R)) (kept : C → Bool) (t : T) (c : C) (p : Prog S R) :
    (l ++ entry t c p).filter (fun e => kept e.2.1)
      = l.filter (fun e => kept e.2.1) ++ if kept c then entry t c p else [] := by
  rw [List.filter_append]
  congr 1
  cases p with
  | ret a =>
    by_cases hc : kept c = true
    · simp [entry, hc]
    · simp [entry, hc]
  | op o k => simp [entry]

/-- The thread `t`, which alone runs a locked call, goes on with it. -/
theorem Serial.locked (h : Serial O kept init base s) (hkept : kept c = true)
    (hlocked : O.locked c = true)
    (halone : ∀ {t' c' b' p'}, s.phase t' = .running c' b' p' → O.locked c' = true → t' = t)
    (htrace : trace O.handler p x <:+ trace O.handler (O.body c) base)
    (hrun : run O.handler p x = run O.handler (O.body c) base) (hbegun : b = false → x = base) :
    ∃ base', Serial O kept init base' (Object.goOn s x t c b p) := by
  have hother : ∀ {t' c' b' p'}, (Object.goOn s x t c b p).phase t'
      = .running c' b' p' → O.locked c' = true → t' = t := by
    intro t' c' b' p' hrunning hl
    by_contra ht
    rw [phase_goOn_of_ne ht] at hrunning
    exact ht (halone hrunning hl)
  have hreader : ∀ {t' c' b' p'}, (Object.goOn s x t c b p).phase t'
      = .running c' b' p' → O.locked c' = false → s.phase t' = .running c' b' p' := by
    intro t' c' b' p' hrunning hl
    by_cases ht : t' = t
    · subst ht
      rw [phase_goOn] at hrunning
      cases hrunning
      exact absurd hlocked (by simp [hl])
    · rwa [phase_goOn_of_ne ht] at hrunning
  -- with its last operation the call enters the log, and the serial run takes it over whole
  cases p with
  | ret a =>
    refine ⟨x, ?_, fun h₁ hl h₂ hl' => (hother h₂ hl').trans (hother h₁ hl).symm, fun _ => rfl,
      fun h₁ hl => ?_, fun h₁ hl => h.reader (hreader h₁ hl) hl⟩
    · rw [log_goOn, filter_entry, if_pos hkept]
      exact h.replays.snoc hrun.symm
    · obtain rfl := hother h₁ hl
      rw [phase_goOn] at h₁
      cases h₁
  | op o k =>
    refine ⟨base, ?_, fun h₁ hl h₂ hl' => (hother h₂ hl').trans (hother h₁ hl).symm, fun hset => ?_,
      fun h₁ hl => ?_, fun h₁ hl => h.reader (hreader h₁ hl) hl⟩
    · rw [log_goOn, filter_entry, if_pos hkept]
      simpa [entry] using h.replays
    · exact absurd (hset t c b o k phase_goOn) (by simp [hlocked])
    · obtain rfl := hother h₁ hl
      rw [phase_goOn] at h₁
      cases h₁
      exact ⟨htrace, hrun, hbegun⟩

/-- An unlocked call goes on in a state that it leaves as it is. -/
theorem Serial.unlocked (h : Serial O kept init base s) (hlocked : O.locked c = false)
    (hold : ∀ c' b' o k, s.phase t = .running c' b' (.op o k) → O.locked c' = false)
    (huses : p.Uses O.Reads)
    (hlog : kept c = true → ∀ a, p = .ret a → run O.handler (O.body c) base = (some a, base)) :
    Serial O kept init base (Object.goOn s s.shared t c b p) := by
  have hsame : ∀ {t' c' b' p'}, (Object.goOn s s.shared t c b p).phase t' = .running c' b' p' →
      O.locked c' = true → s.phase t' = .running c' b' p' := by
    intro t' c' b' p' hrunning hl
    by_cases ht : t' = t
    · subst ht
      rw [phase_goOn] at hrunning
      cases hrunning
      exact absurd hl (by simp [hlocked])
    · rwa [phase_goOn_of_ne ht] at hrunning
  refine ⟨?_, fun h₁ hl h₂ hl' => h.one (hsame h₁ hl) hl (hsame h₂ hl') hl', fun hset => ?_,
    fun h₁ hl => h.holder (hsame h₁ hl) hl, fun {t' c' b' p'} h₁ hl => ?_⟩
  · rw [log_goOn, filter_entry]
    by_cases hc : kept c = true
    · rw [if_pos hc]
      cases p with
      | ret a => exact h.replays.snoc (hlog hc a rfl)
      | op o k => simpa [entry] using h.replays
    · rw [if_neg hc, List.append_nil]
      exact h.replays
  · refine h.settled fun t' c' b' o k hrunning => ?_
    by_cases ht : t' = t
    · subst ht
      exact hold c' b' o k hrunning
    · exact hset t' c' b' o k (by rwa [phase_goOn_of_ne ht])
  · by_cases ht : t' = t
    · subst ht
      rw [phase_goOn] at h₁
      cases h₁
      exact huses
    · rw [phase_goOn_of_ne ht] at h₁
      exact h.reader h₁ hl

/-- Every step keeps the invariant. -/
theorem Serial.step (hO : ReadersRead O kept) (h : Serial O kept init base s) (hbegun : Begun O s)
    (hok : LooksCalm O kept s t) (hstep : O.Step t s s') : ∃ base', Serial O kept init base' s' := by
  cases hstep with
  | call hidle _ => exact ⟨base, h.still (by simp [hidle]) (by simp)⟩
  | @start c hwaiting hfree =>
    have hold : ∀ c' b' o k, s.phase t = .running c' b' (.op o k) → O.locked c' = false := by
      simp [hwaiting]
    cases hlocked : O.locked c with
    | false =>
      refine ⟨base, h.unlocked hlocked hold (hO.reads c hlocked) ?_⟩
      intro _ a ha
      rw [ha, run_ret]
    | true =>
      have hidle := hfree hlocked
      -- the lock is free, so no locked call is under way and the state is that of the serial run
      obtain rfl : s.shared = base :=
        h.settled fun t' c' b' o k hrunning => hidle t' c' b' _ hrunning
      refine h.locked (hO.locked c hlocked) hlocked ?_ (List.suffix_refl _) rfl fun _ => rfl
      intro t' c' b' p' hrunning hl
      exact absurd (hidle t' c' b' p' hrunning) (by simp [hl])
  | @op c b o k r x hrunning hop =>
    cases hlocked : O.locked c with
    | false =>
      obtain ⟨hreads, huses⟩ := h.reader hrunning hlocked
      obtain rfl : x = s.shared := hreads _ _ _ hop
      refine ⟨base, h.unlocked hlocked ?_ (huses r) ?_⟩
      · intro c' b' o' k' h'
        rw [hrunning] at h'
        cases h'
        exact hlocked
      · intro hc a ha
        have hbase : s.shared = base := h.shared_of_calm (hok c b o k hrunning hlocked hc)
        rw [← hbegun.body_of_single hrunning (hO.single c hlocked hc), ← hbase,
          run_op_some O.handler hop, ha, run_ret]
    | true =>
      obtain ⟨htrace, hrun, hbegun⟩ := h.holder hrunning hlocked
      refine h.locked (hO.locked c hlocked) hlocked (fun h' hl => h.one hrunning hlocked h' hl) ?_ ?_
        (by simp)
      · refine List.IsSuffix.trans ?_ htrace
        rw [trace, hop]
        exact List.suffix_cons _ _
      · rw [← hrun, run_op_some O.handler hop]
  | finish hrunning => exact ⟨base, h.still (by simp [hrunning]) (by simp)⟩

/-- The threads' steps, each of them `LooksCalm`, keep the calls serial. -/
theorem reach_serial (hO : ReadersRead O kept) {todo : T → List C}
    (h : O.Reach (LooksCalm O kept) (State.init x todo) s) : ∃ base, Serial O kept x base s := by
  induction h with
  | refl => exact ⟨x, serial_init todo⟩
  | step hreach hok hstep ih =>
    obtain ⟨base, ih⟩ := ih
    exact ih.step hO (reach_begun hreach) hok hstep

end Steps

/-! ## The order of the calls -/

/-- The call that a thread has made and that has not taken effect. -/
def Phase.pending : Phase S C R → List C
  | .idle => []
  | .waiting c => [c]
  | .running _ _ (.ret _) => []
  | .running c _ (.op _ _) => [c]

/-- The call that has taken effect and not yet returned. -/
def Phase.leaving : Phase S C R → List (C × R)
  | .running c _ (.ret a) => [(c, a)]
  | _ => []

/-- The calls of `t` in the log. -/
def State.logOf (s : State S σ T C R) (t : T) : List (C × R) :=
  (s.log.filter fun e => e.1 = t).map Prod.snd

/-- Each thread's calls take effect in the order in which it makes them, and return what the log
says. -/
structure InOrder (todo : T → List C) (s : State S σ T C R) : Prop where
  calls : ∀ t, (s.logOf t).map Prod.fst ++ ((s.phase t).pending ++ s.todo t) = todo t
  results : ∀ t, s.logOf t = s.returned t ++ (s.phase t).leaving

section Order

variable {O : Object S σ C R} {s s' : State S σ T C R} {t : T} {c : C} {b : Bool} {p : Prog S R}
  {todo : T → List C} {x : σ}

theorem logOf_goOn_self : (Object.goOn s x t c b p).logOf t = s.logOf t ++ (entry t c p).map Prod.snd := by
  rw [State.logOf, log_goOn, List.filter_append, List.map_append]
  cases p <;> simp [entry, State.logOf]

theorem logOf_goOn_of_ne {t' : T} (h : t' ≠ t) : (Object.goOn s x t c b p).logOf t' = s.logOf t' := by
  rw [State.logOf, log_goOn, List.filter_append, List.map_append]
  cases p <;> simp [entry, State.logOf, h.symm]

/-- A thread that goes on with a call that has not yet taken effect. -/
theorem InOrder.goOn (h : InOrder todo s) (hpending : (s.phase t).pending = [c])
    (hleaving : (s.phase t).leaving = []) :
    InOrder todo (Object.goOn s x t c b p) := by
  constructor
  · intro t'
    by_cases ht : t' = t
    · subst ht
      rw [logOf_goOn_self, phase_goOn]
      have hcalls := h.calls t'
      rw [hpending] at hcalls
      cases p <;> simpa [entry, Phase.pending] using hcalls
    · rw [logOf_goOn_of_ne ht, phase_goOn_of_ne ht]
      exact h.calls t'
  · intro t'
    by_cases ht : t' = t
    · subst ht
      rw [logOf_goOn_self, phase_goOn]
      have hresults := h.results t'
      rw [hleaving, List.append_nil] at hresults
      cases p <;> simpa [entry, Phase.leaving] using hresults
    · rw [logOf_goOn_of_ne ht, phase_goOn_of_ne ht]
      exact h.results t'

theorem Object.Reach.trans {ok : State S σ T C R → T → Prop} {s₁ : State S σ T C R} (h : O.Reach ok s s₁)
    (h' : O.Reach ok s₁ s') : O.Reach ok s s' := by
  induction h' with
  | refl => exact h
  | step _ hok hstep ih => exact .step ih hok hstep

/-- What holds in all the states reached holds of every step. -/
theorem Object.Reach.always {ok ok' : State S σ T C R → T → Prop} (h : O.Reach ok s s')
    (hok : ∀ s₁, O.Reach ok s s₁ → ∀ t, ok' s₁ t) : O.Reach ok' s s' := by
  induction h with
  | refl => exact .refl
  | step hreach _ hstep ih => exact .step ih (hok _ hreach _) hstep

theorem InOrder.step (h : InOrder todo s) (hstep : O.Step t s s') : InOrder todo s' := by
  cases hstep with
  | @call c rest hidle htodo =>
    constructor
    · intro t'
      by_cases ht : t' = t
      · subst ht
        have hcalls := h.calls t'
        rw [hidle, htodo] at hcalls
        simpa [State.logOf, Phase.pending] using hcalls
      · simpa [State.logOf, ht] using h.calls t'
    · intro t'
      by_cases ht : t' = t
      · subst ht
        have hresults := h.results t'
        rw [hidle] at hresults
        simpa [State.logOf, Phase.leaving] using hresults
      · simpa [State.logOf, ht] using h.results t'
  | @start c hwaiting _ =>
    exact h.goOn (by simp [hwaiting, Phase.pending]) (by simp [hwaiting, Phase.leaving])
  | @op c b o k r x hrunning _ =>
    exact h.goOn (by simp [hrunning, Phase.pending]) (by simp [hrunning, Phase.leaving])
  | @finish c b a hrunning =>
    constructor
    · intro t'
      by_cases ht : t' = t
      · subst ht
        have hcalls := h.calls t'
        rw [hrunning] at hcalls
        simpa [State.logOf, Phase.pending] using hcalls
      · simpa [State.logOf, ht] using h.calls t'
    · intro t'
      by_cases ht : t' = t
      · subst ht
        have hresults := h.results t'
        rw [hrunning] at hresults
        simpa [State.logOf, Phase.leaving] using hresults
      · simpa [State.logOf, ht] using h.results t'

theorem reach_inOrder {ok : State S σ T C R → T → Prop}
    (h : O.Reach ok (State.init x todo) s) : InOrder todo s := by
  induction h with
  | refl => exact ⟨fun t => rfl, fun t => rfl⟩
  | step _ _ hstep ih => exact ih.step hstep

/-- Where every locked call makes one operation, no locked call is ever half-way. -/
theorem reach_calm {ok : State S σ T C R → T → Prop} (h : O.Reach ok (State.init x todo) s)
    (hsingle : ∀ t, ∀ c ∈ todo t, O.locked c = true → SingleOp (O.body c)) : O.Calm s := by
  intro t c o k hrunning
  by_contra hlocked
  have hmem : c ∈ todo t := by
    rw [← (reach_inOrder h).calls t, hrunning]
    simp [Phase.pending]
  have hbegun := (reach_begun h).not_begun hrunning (hsingle t c hmem (by simpa using hlocked))
  cases hbegun

/-- The log only grows: a call that has returned stands before every later one. -/
theorem log_prefix {ok : State S σ T C R → T → Prop} (h : O.Reach ok s s') : s.log <+: s'.log := by
  induction h with
  | refl => exact List.prefix_refl _
  | step _ _ hstep ih =>
    refine ih.trans ?_
    cases hstep with
    | call | finish => exact List.prefix_refl _
    | start | op => exact List.prefix_append _ _

/-- There is no deadlock: unless all calls are made and done, a thread can step. -/
theorem progress (htotal : ∀ o x, O.handler o x ≠ none) (s : State S σ T C R) :
    (∀ t, s.phase t = .idle ∧ s.todo t = []) ∨ ∃ t s', O.Step t s s' := by
  have hrun : ∀ t c b p, s.phase t = .running c b p → ∃ s', O.Step t s s' := by
    intro t c b p hrunning
    cases p with
    | ret a => exact ⟨_, .finish hrunning⟩
    | op o k =>
      obtain ⟨⟨r, x⟩, hop⟩ := Option.ne_none_iff_exists'.mp (htotal o s.shared)
      exact ⟨_, .op hrunning hop⟩
  by_cases hdone : ∀ t, s.phase t = .idle ∧ s.todo t = []
  · exact .inl hdone
  · right
    push Not at hdone
    obtain ⟨t, hdone⟩ := hdone
    cases hphase : s.phase t with
    | idle =>
      obtain ⟨c, rest, htodo⟩ := List.exists_cons_of_ne_nil (hdone hphase)
      exact ⟨t, _, .call hphase htodo⟩
    | running c b p => exact ⟨t, hrun t c b p hphase⟩
    | waiting c =>
      by_cases hfree : O.Free s
      · exact ⟨t, _, .start hphase fun _ => hfree⟩
      · unfold Object.Free at hfree
        push Not at hfree
        obtain ⟨t', c', b, p, hrunning, -⟩ := hfree
        exact ⟨t', hrun t' c' b p hrunning⟩

end Order

/-! ## A thread that is alone -/

section Alone

variable {O : Object S σ C R} {kept : C → Bool} {s : State S σ T C R} {t : T} {c : C} {b : Bool}
  {p : Prog S R} {x : σ}

/-- No other thread runs a program. -/
def Alone (s : State S σ T C R) (t : T) : Prop := ∀ t', t' ≠ t → s.phase t' = .idle

theorem Alone.goOn (h : Alone s t) (x : σ) (c : C) (b : Bool) (p : Prog S R) :
    Alone (Object.goOn s x t c b p) t := fun t' ht => by
  rw [phase_goOn_of_ne ht]
  exact h t' ht

omit [DecidableEq T] in
theorem Alone.looksCalm (h : Alone s t) : LooksCalm O kept s t := by
  intro c b o k hrunning hlocked _ t' c' o' k' hrunning'
  by_cases ht : t' = t
  · subst ht
    rw [hrunning] at hrunning'
    cases hrunning'
    exact hlocked
  · rw [h t' ht] at hrunning'
    cases hrunning'

/-- A program that is alone passes through all the states of its trace. -/
theorem reach_trace (halone : Alone s t) (hrunning : s.phase t = .running c b p)
    (hx : x ∈ trace O.handler p s.shared) :
    ∃ s', O.Reach (LooksCalm O kept) s s' ∧ s'.shared = x := by
  induction p generalizing s b with
  | ret a' => exact ⟨s, .refl, (List.mem_singleton.mp hx).symm⟩
  | op o k ih =>
    rw [trace] at hx
    rcases hop : O.handler o s.shared with _ | ⟨r, x'⟩
    · rw [hop] at hx
      exact ⟨s, .refl, (List.mem_singleton.mp hx).symm⟩
    · rw [hop] at hx
      rcases List.mem_cons.mp hx with rfl | hx
      · exact ⟨s, .refl, rfl⟩
      · obtain ⟨s', hreach, hshared⟩ := ih r (halone.goOn x' c true (k r)) phase_goOn hx
        exact ⟨s', Object.Reach.trans (.step .refl halone.looksCalm (.op hrunning hop)) hreach, hshared⟩

/-- A thread makes its next call and starts it, while all are idle. -/
theorem reach_started (hidle : ∀ t', s.phase t' = .idle) {rest : List C} (htodo : s.todo t = c :: rest) :
    ∃ s', O.Reach (LooksCalm O kept) s s' ∧ Alone s' t ∧ s'.phase t = .running c false (O.body c) ∧
      s'.shared = s.shared := by
  let s₁ : State S σ T C R :=
    { s with
      todo := Function.update s.todo t rest
      phase := Function.update s.phase t (.waiting c) }
  have halone : Alone s t := fun t' _ => hidle t'
  have halone₁ : Alone s₁ t := fun t' ht => (Function.update_of_ne ht ..).trans (hidle t')
  have hwaiting : s₁.phase t = .waiting c := Function.update_self ..
  have hfree : O.Free s₁ := by
    intro t' c' b p hrunning
    by_cases ht : t' = t
    · subst ht
      rw [hwaiting] at hrunning
      cases hrunning
    · rw [halone₁ t' ht] at hrunning
      cases hrunning
  exact ⟨_, .step (.step .refl halone.looksCalm (.call (hidle t) htodo)) halone₁.looksCalm
    (.start hwaiting fun _ => hfree), halone₁.goOn _ c false _, phase_goOn, rfl⟩

end Alone

end Monitor
