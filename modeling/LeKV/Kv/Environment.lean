import LeKV.Kv.Master

/-!
# What the balancer runs in

An `Environment σ` answers the balancer's operations on the outside, from a state `σ` of its own.
Everything is left open: which nodes are connected, what frames come back, which file operations
fail. `Environment.handler` completes it with the Master's members.

The balancer's programs are then described once for all environments. An invariant `I` of the
environment's state is carried along, so that a concrete environment gets to know what happens to it.
-/

namespace LeKV

open Bytes BinaryProtocol Effects

/-- Answers to the balancer's operations on the outside. -/
structure Environment (σ : Type) where
  isConnected : UInt32 → σ → Bool
  send : UInt32 → Bytes → σ → Bool × σ
  recvFrame : UInt32 → ℤ → σ → Option Bytes × σ
  openTmp : σ → Bool × σ
  writeTmp : SavedText → σ → σ
  renameTmp : σ → Bool × σ
  now : σ → ℤ × σ

namespace Environment

variable {σ α : Type} (E : Environment σ)

/-- The balancer's operations in an environment. `terminate` is refused: nothing comes after it. -/
def handler : Handler masterSig (Master × σ) := fun o w =>
  match o with
  | .get => some (w.1, w)
  | .modify f => some ((), (f w.1, w.2))
  | .isConnected node => some (E.isConnected node w.2, w)
  | .send node data => some ((E.send node data w.2).1, (w.1, (E.send node data w.2).2))
  | .recvFrame node t => some ((E.recvFrame node t w.2).1, (w.1, (E.recvFrame node t w.2).2))
  | .openTmp => some ((E.openTmp w.2).1, (w.1, (E.openTmp w.2).2))
  | .writeTmp text => some ((), (w.1, E.writeTmp text w.2))
  | .renameTmp => some ((E.renameTmp w.2).1, (w.1, (E.renameTmp w.2).2))
  | .now => some ((E.now w.2).1, (w.1, (E.now w.2).2))
  | .terminate => none

/-- Run a program of the balancer. -/
def run (p : Balancer α) (w : Master × σ) : Option α × (Master × σ) := p.run E.handler w

variable {E} {m : Master} {s : σ}

@[simp] theorem run_ret (a : α) (w : Master × σ) : E.run (.ret a) w = (some a, w) := rfl

@[simp] theorem run_pure (a : α) (w : Master × σ) : E.run (pure a) w = (some a, w) := rfl

@[simp] theorem run_get (f : Master → Balancer α) :
    E.run (Balancer.get >>= f) (m, s) = E.run (f m) (m, s) := rfl

@[simp] theorem run_modify (g : Master → Master) (f : Unit → Balancer α) :
    E.run (Balancer.modify g >>= f) (m, s) = E.run (f ()) (g m, s) := rfl

@[simp] theorem run_isConnected (node : UInt32) (f : Bool → Balancer α) :
    E.run (Balancer.isConnected node >>= f) (m, s) = E.run (f (E.isConnected node s)) (m, s) := rfl

@[simp] theorem run_send (node : UInt32) (data : Bytes) (f : Bool → Balancer α) :
    E.run (Balancer.send node data >>= f) (m, s)
      = E.run (f (E.send node data s).1) (m, (E.send node data s).2) := rfl

@[simp] theorem run_recvFrame (node : UInt32) (t : ℤ) (f : Option Bytes → Balancer α) :
    E.run (Balancer.recvFrame node t >>= f) (m, s)
      = E.run (f (E.recvFrame node t s).1) (m, (E.recvFrame node t s).2) := rfl

@[simp] theorem run_openTmp (f : Bool → Balancer α) :
    E.run (Balancer.openTmp >>= f) (m, s) = E.run (f (E.openTmp s).1) (m, (E.openTmp s).2) := rfl

@[simp] theorem run_writeTmp (text : SavedText) (f : Unit → Balancer α) :
    E.run (Balancer.writeTmp text >>= f) (m, s) = E.run (f ()) (m, E.writeTmp text s) := rfl

@[simp] theorem run_renameTmp (f : Bool → Balancer α) :
    E.run (Balancer.renameTmp >>= f) (m, s) = E.run (f (E.renameTmp s).1) (m, (E.renameTmp s).2) :=
  rfl

@[simp] theorem run_now (f : ℤ → Balancer α) :
    E.run (Balancer.now >>= f) (m, s) = E.run (f (E.now s).1) (m, (E.now s).2) := rfl

@[simp] theorem run_terminate (w : Master × σ) :
    E.run (Balancer.terminate : Balancer α) w = (none, w) := rfl

theorem run_bind_some {β : Type} {p : Balancer α} {w w' : Master × σ} {a : α}
    (hp : E.run p w = (some a, w')) (f : α → Balancer β) : E.run (p >>= f) w = E.run (f a) w' :=
  Prog.run_bind_some _ hp f

theorem run_bind_none {β : Type} {p : Balancer α} {w w' : Master × σ}
    (hp : E.run p w = (none, w')) (f : α → Balancer β) : E.run (p >>= f) w = (none, w') :=
  Prog.run_bind_none _ hp f

/-! ## Operations under way -/

variable (E) in
/-- The operations of a program, each with the members and the state it finds. -/
def visits (p : Balancer α) (w : Master × σ) : List (MasterOp × (Master × σ)) :=
  p.visits E.handler w

@[simp] theorem visits_ret (a : α) (w : Master × σ) : E.visits (.ret a) w = [] := rfl

@[simp] theorem visits_pure (a : α) (w : Master × σ) : E.visits (pure a) w = [] := rfl

@[simp] theorem visits_get (f : Master → Balancer α) :
    E.visits (Balancer.get >>= f) (m, s) = (.get, (m, s)) :: E.visits (f m) (m, s) := rfl

@[simp] theorem visits_modify (g : Master → Master) (f : Unit → Balancer α) :
    E.visits (Balancer.modify g >>= f) (m, s)
      = (.modify g, (m, s)) :: E.visits (f ()) (g m, s) := rfl

@[simp] theorem visits_isConnected (node : UInt32) (f : Bool → Balancer α) :
    E.visits (Balancer.isConnected node >>= f) (m, s)
      = (.isConnected node, (m, s)) :: E.visits (f (E.isConnected node s)) (m, s) := rfl

@[simp] theorem visits_send (node : UInt32) (data : Bytes) (f : Bool → Balancer α) :
    E.visits (Balancer.send node data >>= f) (m, s)
      = (.send node data, (m, s)) ::
          E.visits (f (E.send node data s).1) (m, (E.send node data s).2) := rfl

@[simp] theorem visits_recvFrame (node : UInt32) (t : ℤ) (f : Option Bytes → Balancer α) :
    E.visits (Balancer.recvFrame node t >>= f) (m, s)
      = (.recvFrame node t, (m, s)) ::
          E.visits (f (E.recvFrame node t s).1) (m, (E.recvFrame node t s).2) := rfl

@[simp] theorem visits_openTmp (f : Bool → Balancer α) :
    E.visits (Balancer.openTmp >>= f) (m, s)
      = (.openTmp, (m, s)) :: E.visits (f (E.openTmp s).1) (m, (E.openTmp s).2) := rfl

@[simp] theorem visits_writeTmp (text : SavedText) (f : Unit → Balancer α) :
    E.visits (Balancer.writeTmp text >>= f) (m, s)
      = (.writeTmp text, (m, s)) :: E.visits (f ()) (m, E.writeTmp text s) := rfl

@[simp] theorem visits_renameTmp (f : Bool → Balancer α) :
    E.visits (Balancer.renameTmp >>= f) (m, s)
      = (.renameTmp, (m, s)) :: E.visits (f (E.renameTmp s).1) (m, (E.renameTmp s).2) := rfl

@[simp] theorem visits_now (f : ℤ → Balancer α) :
    E.visits (Balancer.now >>= f) (m, s)
      = (.now, (m, s)) :: E.visits (f (E.now s).1) (m, (E.now s).2) := rfl

@[simp] theorem visits_terminate (w : Master × σ) :
    E.visits (Balancer.terminate : Balancer α) w = [(.terminate, w)] := rfl

theorem mem_visits_bind {β : Type} {p : Balancer α} {f : α → Balancer β} {w : Master × σ}
    {x : MasterOp × (Master × σ)} :
    x ∈ E.visits (p >>= f) w ↔
      x ∈ E.visits p w ∨ ∃ a w', E.run p w = (some a, w') ∧ x ∈ E.visits (f a) w' :=
  Prog.mem_visits_bind _

theorem visits_bind_some {β : Type} {p : Balancer α} {f : α → Balancer β} {w w' : Master × σ} {a : α}
    (hp : E.run p w = (some a, w')) : E.visits (p >>= f) w = E.visits p w ++ E.visits (f a) w' :=
  Prog.visits_bind_some _ hp

theorem mem_visits_bind_some {β : Type} {p : Balancer α} {f : α → Balancer β} {w w' : Master × σ}
    {a : α} (hp : E.run p w = (some a, w')) {x : MasterOp × (Master × σ)} :
    x ∈ E.visits (p >>= f) w ↔ x ∈ E.visits p w ∨ x ∈ E.visits (f a) w' := by
  rw [visits_bind_some hp, List.mem_append]

/-! ## All points of a run -/

variable (E) in
/-- `J` holds at every point of a run of the balancer. -/
def Always (p : Balancer α) (J : Master × σ → Prop) (w : Master × σ) : Prop :=
  p.Always E.handler J w

variable {J : Master × σ → Prop}

@[simp] theorem always_ret (a : α) (w : Master × σ) : E.Always (.ret a) J w ↔ J w :=
  Prog.always_ret a

@[simp] theorem always_pure (a : α) (w : Master × σ) : E.Always (pure a) J w ↔ J w :=
  Prog.always_ret a

@[simp] theorem always_get (f : Master → Balancer α) :
    E.Always (Balancer.get >>= f) J (m, s) ↔ J (m, s) ∧ E.Always (f m) J (m, s) :=
  Prog.always_op_some rfl _

@[simp] theorem always_modify (g : Master → Master) (f : Unit → Balancer α) :
    E.Always (Balancer.modify g >>= f) J (m, s) ↔ J (m, s) ∧ E.Always (f ()) J (g m, s) :=
  Prog.always_op_some rfl _

@[simp] theorem always_isConnected (node : UInt32) (f : Bool → Balancer α) :
    E.Always (Balancer.isConnected node >>= f) J (m, s)
      ↔ J (m, s) ∧ E.Always (f (E.isConnected node s)) J (m, s) :=
  Prog.always_op_some rfl _

@[simp] theorem always_send (node : UInt32) (data : Bytes) (f : Bool → Balancer α) :
    E.Always (Balancer.send node data >>= f) J (m, s)
      ↔ J (m, s) ∧ E.Always (f (E.send node data s).1) J (m, (E.send node data s).2) :=
  Prog.always_op_some rfl _

@[simp] theorem always_recvFrame (node : UInt32) (t : ℤ) (f : Option Bytes → Balancer α) :
    E.Always (Balancer.recvFrame node t >>= f) J (m, s)
      ↔ J (m, s) ∧ E.Always (f (E.recvFrame node t s).1) J (m, (E.recvFrame node t s).2) :=
  Prog.always_op_some rfl _

@[simp] theorem always_openTmp (f : Bool → Balancer α) :
    E.Always (Balancer.openTmp >>= f) J (m, s)
      ↔ J (m, s) ∧ E.Always (f (E.openTmp s).1) J (m, (E.openTmp s).2) :=
  Prog.always_op_some rfl _

@[simp] theorem always_writeTmp (text : SavedText) (f : Unit → Balancer α) :
    E.Always (Balancer.writeTmp text >>= f) J (m, s)
      ↔ J (m, s) ∧ E.Always (f ()) J (m, E.writeTmp text s) :=
  Prog.always_op_some rfl _

@[simp] theorem always_renameTmp (f : Bool → Balancer α) :
    E.Always (Balancer.renameTmp >>= f) J (m, s)
      ↔ J (m, s) ∧ E.Always (f (E.renameTmp s).1) J (m, (E.renameTmp s).2) :=
  Prog.always_op_some rfl _

@[simp] theorem always_terminate (w : Master × σ) :
    E.Always (Balancer.terminate : Balancer α) J w ↔ J w :=
  Prog.always_op_none rfl _

theorem Always.start {p : Balancer α} {w : Master × σ} (h : E.Always p J w) : J w :=
  Prog.Always.start h

theorem Always.last {p : Balancer α} {w w' : Master × σ} {r : Option α} (h : E.Always p J w)
    (hrun : E.run p w = (r, w')) : J w' := by
  have hend := Prog.Always.run h
  rwa [show Prog.run E.handler p w = _ from hrun] at hend

theorem always_bind_some {β : Type} {p : Balancer α} {f : α → Balancer β} {w w' : Master × σ} {a : α}
    (hp : E.run p w = (some a, w')) :
    E.Always (p >>= f) J w ↔ E.Always p J w ∧ E.Always (f a) J w' :=
  Prog.always_bind_some hp

theorem always_bind_none {β : Type} {p : Balancer α} {f : α → Balancer β} {w w' : Master × σ}
    (hp : E.run p w = (none, w')) : E.Always (p >>= f) J w ↔ E.Always p J w :=
  Prog.always_bind_none hp

end Environment

/-! ## Which operations a program performs -/

namespace Balancer

variable {α : Type}

/-- The operations on the `RpcClient`s. -/
def IsRpc : MasterOp → Prop
  | .isConnected _ => True
  | .send _ _ => True
  | .recvFrame _ _ => True
  | _ => False

/-- The program only calls `RpcClient`s. -/
abbrev RpcOnly (p : Balancer α) : Prop := Prog.Uses (S := masterSig) IsRpc p

theorem call_uses (node : UInt32) (timeoutMs : ℤ) (payload : Bytes) :
    RpcOnly (call node timeoutMs payload) := by
  refine Prog.Uses.bind ⟨trivial, fun _ => trivial⟩ fun sent => ?_
  cases sent with
  | false => exact trivial
  | true =>
    refine Prog.Uses.bind ⟨trivial, fun _ => trivial⟩ fun received => ?_
    rcases received with _ | frame
    · exact trivial
    · dsimp only [Prog.bind]
      split <;> exact trivial

theorem queryTabletStats_uses (node : UInt32) (start end_ : Bytes) :
    RpcOnly (queryTabletStats node start end_) := by
  refine Prog.Uses.bind ⟨trivial, fun _ => trivial⟩ fun connected => ?_
  cases connected with
  | false => exact trivial
  | true =>
    apply Prog.Uses.bind (call_uses _ _ _)
    intro resp
    cases resp <;> exact trivial

/-- The median a statistics query returns has a length of two bytes. -/
theorem parseStats_median {resp median : Bytes} {keyCount : UInt64}
    (h : parseStats resp = some (keyCount, median)) : median.length < 2 ^ 16 := by
  unfold parseStats at h
  simp only [Option.bind_eq_bind] at h
  by_cases hshort : resp.length < 11
  · rw [if_pos hshort] at h
    exact absurd h (by simp)
  rw [if_neg hshort] at h
  by_cases hstatus : resp.head? ≠ some ST_OK
  · rw [if_pos hstatus] at h
    exact absurd h (by simp)
  rw [if_neg hstatus] at h
  obtain ⟨count, -, h⟩ := Option.bind_eq_some_iff.mp h
  obtain ⟨medLen, hmed, h⟩ := Option.bind_eq_some_iff.mp h
  by_cases hlong : resp.length < 11 + medLen
  · rw [if_pos hlong] at h
    exact absurd h (by simp)
  rw [if_neg hlong] at h
  obtain ⟨b, hb, h⟩ := Option.bind_eq_some_iff.mp h
  obtain ⟨-, rfl⟩ := Prod.mk.inj (Option.some.inj h)
  rw [length_of_bytesAt hb]
  exact numAt_lt hmed

theorem queryTabletStats_returns (node : UInt32) (start end_ : Bytes) :
    (queryTabletStats node start end_).Returns fun r => ∀ e ∈ r, e.2.length < 2 ^ 16 := by
  have hnone : ∀ e ∈ (none : Option (UInt64 × Bytes)), e.2.length < 2 ^ 16 :=
    fun e he => absurd he (by simp)
  apply Prog.Returns.bind (Prog.returns_true (isConnected node))
  intro connected _
  cases connected with
  | false => exact hnone
  | true =>
    refine Prog.Returns.bind
      (Prog.returns_true (call node 3000 (rangePayload OP_TABLET_STATS start end_)))
      fun resp _ => ?_
    rcases resp with _ | resp
    · exact hnone
    · exact fun e he => parseStats_median he

theorem sendDeleteRange_uses (node : UInt32) (start end_ : Bytes) :
    RpcOnly (sendDeleteRange node start end_) := by
  refine Prog.Uses.bind ⟨trivial, fun _ => trivial⟩ fun connected => ?_
  cases connected with
  | false => exact trivial
  | true =>
    apply Prog.Uses.bind (call_uses _ _ _)
    intro resp
    cases resp <;> exact trivial

theorem transferLoop_uses (dst : UInt32) (resp : Bytes) (rounds i pos transferred : ℕ) :
    RpcOnly (transferLoop dst resp rounds i pos transferred) := by
  induction rounds generalizing i pos transferred with
  | zero => exact trivial
  | succ rounds ih =>
    rw [transferLoop]
    rcases pairAt resp pos with _ | ⟨pair, pos'⟩
    · exact trivial
    · refine Prog.Uses.bind ⟨trivial, fun _ => trivial⟩ fun sent => ?_
      cases sent with
      | false => exact ih _ _ _
      | true =>
        refine Prog.Uses.bind ⟨trivial, fun _ => trivial⟩ fun received => ?_
        cases received <;> exact ih _ _ _

theorem scanAndTransferData_uses (src dst : UInt32) (start end_ : Bytes) :
    RpcOnly (scanAndTransferData src dst start end_) := by
  refine Prog.Uses.bind ⟨trivial, fun _ => trivial⟩ fun connected => ?_
  cases connected with
  | false => exact trivial
  | true =>
    refine Prog.Uses.bind ⟨trivial, fun _ => trivial⟩ fun connected => ?_
    cases connected with
    | false => exact trivial
    | true =>
      apply Prog.Uses.bind (call_uses _ _ _)
      intro resp
      rcases resp with _ | resp
      · exact trivial
      · dsimp only [Prog.bind]
        rcases scanCount resp with _ | count
        · exact trivial
        · exact Prog.Uses.bind (transferLoop_uses _ _ _ _ _ _) fun _ => trivial

end Balancer

namespace Environment

variable {σ α : Type} {E : Environment σ} {m : Master} {s : σ}

/-- `I` survives every call on an `RpcClient`. -/
structure KeepsRpc (E : Environment σ) (I : σ → Prop) : Prop where
  send : ∀ node data s, I s → I (E.send node data s).2
  recvFrame : ∀ node t s, I s → I (E.recvFrame node t s).2

/-- `I` survives every file operation. -/
structure KeepsFiles (E : Environment σ) (I : σ → Prop) : Prop where
  openTmp : ∀ s, I s → I (E.openTmp s).2
  writeTmp : ∀ text s, I s → I (E.writeTmp text s)
  renameTmp : ∀ s, I s → I (E.renameTmp s).2

/-- What every operation on the outside keeps, every program keeps. -/
theorem run_keeps {I : σ → Prop} (hrpc : E.KeepsRpc I) (hfiles : E.KeepsFiles I)
    (hnow : ∀ s, I s → I (E.now s).2) (p : Balancer α) {w : Master × σ} (hs : I w.2) :
    I (E.run p w).2.2 := by
  refine (Prog.run_of_visits E.handler (p := p) (s := w) (J := fun x => I x.2)
    (fun x _ hJ r x' hx => ?_) hs).2
  obtain ⟨o, m, s⟩ := x
  cases o with
  | get =>
    obtain ⟨-, rfl⟩ := Prod.mk.inj (Option.some.inj hx)
    exact hJ
  | modify f =>
    obtain ⟨-, rfl⟩ := Prod.mk.inj (Option.some.inj hx)
    exact hJ
  | isConnected node =>
    obtain ⟨-, rfl⟩ := Prod.mk.inj (Option.some.inj hx)
    exact hJ
  | send node data =>
    obtain ⟨-, rfl⟩ := Prod.mk.inj (Option.some.inj hx)
    exact hrpc.send node data s hJ
  | recvFrame node t =>
    obtain ⟨-, rfl⟩ := Prod.mk.inj (Option.some.inj hx)
    exact hrpc.recvFrame node t s hJ
  | openTmp =>
    obtain ⟨-, rfl⟩ := Prod.mk.inj (Option.some.inj hx)
    exact hfiles.openTmp s hJ
  | writeTmp text =>
    obtain ⟨-, rfl⟩ := Prod.mk.inj (Option.some.inj hx)
    exact hfiles.writeTmp text s hJ
  | renameTmp =>
    obtain ⟨-, rfl⟩ := Prod.mk.inj (Option.some.inj hx)
    exact hfiles.renameTmp s hJ
  | now =>
    obtain ⟨-, rfl⟩ := Prod.mk.inj (Option.some.inj hx)
    exact hnow s hJ
  | terminate => exact r.elim

/-- A program that only calls `RpcClient`s ends with a result and leaves the members alone. -/
theorem run_of_uses {p : Balancer α} (hp : Balancer.RpcOnly p) {I : σ → Prop}
    (hI : E.KeepsRpc I) (m : Master) (hs : I s) :
    ∃ a s', E.run p (m, s) = (some a, (m, s')) ∧ I s' := by
  obtain ⟨a, ⟨m', s'⟩, hrun, rfl, hs'⟩ := hp.run (h := E.handler) (J := fun w => w.1 = m ∧ I w.2)
    (by
      rintro o ho ⟨m', s⟩ ⟨rfl, hs⟩
      cases o with
      | isConnected node => exact ⟨_, _, rfl, rfl, hs⟩
      | send node data => exact ⟨_, _, rfl, rfl, hI.send node data s hs⟩
      | recvFrame node t => exact ⟨_, _, rfl, rfl, hI.recvFrame node t s hs⟩
      | get => exact ho.elim
      | modify f => exact ho.elim
      | openTmp => exact ho.elim
      | writeTmp text => exact ho.elim
      | renameTmp => exact ho.elim
      | now => exact ho.elim
      | terminate => exact ho.elim) (s := (m, s)) ⟨rfl, hs⟩
  exact ⟨a, s', hrun, hs'⟩

/-- `SaveTablets` leaves the members alone; without a result, `dump` threw. -/
theorem run_saveTablets {I : σ → Prop} (hI : E.KeepsFiles I) (m : Master) (hs : I s) :
    ∃ r s', E.run Balancer.saveTablets (m, s) = (r, (m, s')) ∧ I s' := by
  unfold Balancer.saveTablets
  rw [run_get, run_openTmp]
  have hopen := hI.openTmp s hs
  generalize E.openTmp s = opened at hopen ⊢
  obtain ⟨ok, s₁⟩ := opened
  cases ok with
  | false => exact ⟨_, _, rfl, hopen⟩
  | true =>
    rw [if_neg (not_not.mpr rfl)]
    rcases dump (Balancer.document m) with _ | text
    · exact ⟨none, s₁, rfl, hopen⟩
    · exact ⟨_, _, rfl, hI.renameTmp _ (hI.writeTmp text s₁ hopen)⟩

/-- Wherever a program that only calls `RpcClient`s performs an operation, the members are as they
were. -/
theorem visits_of_uses {p : Balancer α} (hp : Balancer.RpcOnly p) {I : σ → Prop}
    (hI : E.KeepsRpc I) (hs : I s) {x : MasterOp × (Master × σ)} (hx : x ∈ E.visits p (m, s)) :
    Balancer.IsRpc x.1 ∧ x.2.1 = m ∧ I x.2.2 := by
  refine hp.visits (J := fun w => w.1 = m ∧ I w.2) ?_ ⟨rfl, hs⟩ x hx
  rintro o ho ⟨m', s⟩ ⟨rfl, hs⟩ r w' hw
  cases o with
  | isConnected node =>
    obtain ⟨-, rfl⟩ := Prod.mk.inj (Option.some.inj hw)
    exact ⟨rfl, hs⟩
  | send node data =>
    obtain ⟨-, rfl⟩ := Prod.mk.inj (Option.some.inj hw)
    exact ⟨rfl, hI.send node data s hs⟩
  | recvFrame node t =>
    obtain ⟨-, rfl⟩ := Prod.mk.inj (Option.some.inj hw)
    exact ⟨rfl, hI.recvFrame node t s hs⟩
  | get => exact ho.elim
  | modify f => exact ho.elim
  | openTmp => exact ho.elim
  | writeTmp text => exact ho.elim
  | renameTmp => exact ho.elim
  | now => exact ho.elim
  | terminate => exact ho.elim

/-- The operations of `SaveTablets`. -/
theorem visits_saveTablets :
    E.visits Balancer.saveTablets (m, s) = (.get, (m, s)) :: (.openTmp, (m, s)) ::
      if (E.openTmp s).1 then
        match dump (Balancer.document m) with
        | none => [(.terminate, (m, (E.openTmp s).2))]
        | some text => [(.writeTmp text, (m, (E.openTmp s).2)),
            (.renameTmp, (m, E.writeTmp text (E.openTmp s).2))]
      else [] := by
  unfold Balancer.saveTablets
  rw [visits_get, visits_openTmp]
  cases (E.openTmp s).1 with
  | false => rfl
  | true =>
    rw [if_neg (not_not.mpr rfl), if_pos rfl]
    rcases dump (Balancer.document m) with _ | text <;> rfl

/-- `SaveTablets` is cut off only where `dump` threw, with the file open. -/
theorem dump_of_run_saveTablets {w' : Master × σ}
    (h : E.run Balancer.saveTablets (m, s) = (none, w')) :
    (E.openTmp s).1 = true ∧ dump (Balancer.document m) = none := by
  unfold Balancer.saveTablets at h
  rw [run_get, run_openTmp] at h
  generalize E.openTmp s = opened at h ⊢
  obtain ⟨ok, s₁⟩ := opened
  cases ok with
  | false => exact absurd (congrArg Prod.fst h) (by simp)
  | true =>
    rw [if_neg (not_not.mpr rfl)] at h
    rcases hdump : dump (Balancer.document m) with _ | text
    · exact ⟨rfl, rfl⟩
    · rw [hdump] at h
      exact absurd (congrArg Prod.fst h) (by simp)

end Environment

/-- Where the environment's part of a run does not matter. -/
theorem keepsRpc_true {σ : Type} (E : Environment σ) : E.KeepsRpc fun _ => True :=
  ⟨fun _ _ _ _ => trivial, fun _ _ _ _ => trivial⟩

theorem keepsFiles_true {σ : Type} (E : Environment σ) : E.KeepsFiles fun _ => True :=
  ⟨fun _ _ => trivial, fun _ _ _ => trivial, fun _ _ => trivial⟩

end LeKV
