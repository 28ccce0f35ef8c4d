import LeKV.Lib.Descriptors
import Mathlib.Data.List.Count

/-!
# Who closes a connection (`rpc/rpc_server.cpp`)

The accept loop, one handler for each connection and `Stop` take steps in any order; other parts of
the process open and close descriptors of their own. A step is one `close`, one block under a mutex,
or one test of `running_`; an `accept` counts as one step with the block that records its descriptor.

`Stop` closes the recorded descriptors and every handler closes its own on the way out, so whatever
is still recorded when `Stop` runs its block is closed twice. `closed_once` is what holds of the runs
in which that block finds nothing recorded.
-/

namespace LeKV

namespace RpcServer

open Descriptors

/-- Whom the system hands a descriptor: `accept`, or another part of the process. -/
inductive Owner where
  | connection
  | other
deriving DecidableEq, Repr

/-- The two servers; only `BinaryRpcServer::HandleClient` erases its descriptor from `client_fds_`. -/
inductive Kind where
  | text
  | binary
deriving DecidableEq, Repr

/-- Where `AcceptLoop` stands: before the test of `running_`, in `accept`, before the start of the
worker of a descriptor, or behind the loop. -/
inductive AcceptPhase where
  | looping
  | accepting
  | starting (fd : ℕ)
  | exited
deriving DecidableEq, Repr

/-- Where `Stop` stands: not called, before its block on `client_fds_`, before the joins, between
them, or returned. -/
inductive StopPhase where
  | idle
  | stopping
  | cleared
  | joined
  | returned
deriving DecidableEq, Repr

/-- A server and the descriptors of its process. The handlers are known by their descriptors: those in
their loop, and those behind their `close` and before their block. -/
structure State where
  running : Bool
  table : Table Owner
  clientFds : List ℕ
  accept : AcceptPhase
  serving : List ℕ
  removing : List ℕ
  stop : StopPhase

/-- A server after `ServerStart`. -/
def State.started : State := ⟨true, .empty, [], .looping, [], [], .idle⟩

/-- A step of one of the threads. -/
inductive Act where
  | testRunning
  | acceptFails
  | accept (fd : ℕ)
  | startWorker
  | leave (fd : ℕ)
  | erase (fd : ℕ)
  | stop
  | closeClients
  | joinAccept
  | joinWorkers
  | openOther (fd : ℕ)
  | closeOther (fd : ℕ)
deriving DecidableEq, Repr

/-- One step; `none` where the thread is not at that point. -/
def step (kind : Kind) (s : State) : Act → Option State
  | .testRunning =>
    if s.accept = .looping then
      some { s with accept := if s.running then .accepting else .exited }
    else none
  | .acceptFails =>
    if s.accept = .accepting then
      some { s with accept := if s.running then .looping else .exited }
    else none
  | .accept fd =>
    if s.accept = .accepting ∧ s.table.Free fd then
      some { s with
        table := s.table.handOut .connection fd
        clientFds := s.clientFds ++ [fd]
        accept := .starting fd }
    else none
  | .startWorker =>
    match s.accept with
    | .starting fd => some { s with accept := .looping, serving := fd :: s.serving }
    | _ => none
  | .leave fd =>
    if fd ∈ s.serving then
      some { s with
        table := s.table.close fd
        serving := s.serving.erase fd
        -- only the worker of the binary server goes on to take the descriptor out of the list
        removing := if kind = .binary then fd :: s.removing else s.removing }
    else none
  | .erase fd =>
    if fd ∈ s.removing then
      some { s with clientFds := s.clientFds.erase fd, removing := s.removing.erase fd }
    else none
  | .stop =>
    if s.stop = .idle ∧ s.running = true then some { s with running := false, stop := .stopping }
    else none
  | .closeClients =>
    if s.stop = .stopping then
      some { s with table := s.table.closeAll s.clientFds, clientFds := [], stop := .cleared }
    else none
  | .joinAccept =>
    if s.stop = .cleared ∧ s.accept = .exited then some { s with stop := .joined } else none
  | .joinWorkers =>
    if s.stop = .joined ∧ s.serving = [] ∧ s.removing = [] then some { s with stop := .returned }
    else none
  | .openOther fd =>
    if s.table.Free fd then some { s with table := s.table.handOut .other fd } else none
  | .closeOther fd =>
    if s.table.HeldBy .other fd then some { s with table := s.table.close fd } else none

/-- Steps one after the other. -/
def run (kind : Kind) (s : State) (acts : List Act) : Option State := acts.foldlM (step kind) s

/-- A number that `accept` returned last and that is closed now was closed once. -/
def ClosedOnce (s : State) : Prop :=
  ∀ fd, s.table.holder fd = some .connection → ¬s.table.HeldBy .connection fd → s.table.closes fd = 1

/-- Outside the last step of a handler, `client_fds_` holds the open connections, each once. -/
def TracksOpen (s : State) : Prop :=
  s.removing = [] → ∀ fd, s.clientFds.count fd = if s.table.HeldBy .connection fd then 1 else 0

/-- The step does not reach the defect: `Stop` finds nothing recorded, and the handler that leaves its
loop is one that will erase its descriptor. -/
def StepOk (kind : Kind) (s : State) : Act → Prop
  | .closeClients => s.clientFds = []
  | .leave _ => kind = .binary
  | _ => True

instance (kind : Kind) (s : State) (a : Act) : Decidable (StepOk kind s a) := by
  cases a <;> unfold StepOk <;> infer_instance

/-- A run whose steps all stay clear of the defect. -/
def runOk (kind : Kind) (s : State) : List Act → Option State
  | [] => some s
  | a :: acts => if StepOk kind s a then (step kind s a).bind fun s => runOk kind s acts else none

/-! ## The invariant -/

/-- The descriptor that is recorded and has no handler yet. -/
def State.pending (s : State) : List ℕ :=
  match s.accept with
  | .starting fd => [fd]
  | _ => []

/-- What holds as long as nobody but its handler closes a connection. -/
structure Inv (s : State) : Prop where
  clients : ∀ fd, s.clientFds.count fd
    = s.pending.count fd + s.serving.count fd + s.removing.count fd
  live : ∀ fd, s.pending.count fd + s.serving.count fd
    = if s.table.HeldBy .connection fd then 1 else 0
  once : ∀ fd, s.table.holder fd = some .connection → s.table.closes fd ≤ 1

theorem Inv.closedOnce {s : State} (h : Inv s) : ClosedOnce s := by
  intro fd hholder hclosed
  have hle := h.once fd hholder
  have hne : s.table.closes fd ≠ 0 := fun hzero => hclosed ⟨hholder, hzero⟩
  omega

theorem Inv.tracksOpen {s : State} (h : Inv s) : TracksOpen s := by
  intro hremoving fd
  rw [h.clients, hremoving, List.count_nil, Nat.add_zero, h.live]

theorem inv_started : Inv .started where
  clients _ := rfl
  live _ := rfl
  once _ h := absurd h (by simp [State.started, Table.empty])

section Steps

variable {s : State} {fd : ℕ}

/-- Nobody has a number that the system may hand out. -/
theorem Inv.count_of_free (h : Inv s) (hfree : s.table.Free fd) :
    s.pending.count fd + s.serving.count fd = 0 := by
  rw [h.live, if_neg (Table.not_heldBy_of_free hfree)]

theorem Inv.accept (h : Inv s) (hphase : s.accept = .accepting) (hfree : s.table.Free fd) :
    Inv { s with
      table := s.table.handOut .connection fd
      clientFds := s.clientFds ++ [fd]
      accept := .starting fd } where
  clients m := by
    have hclients := h.clients m
    have hpending : s.pending = [] := by rw [State.pending, hphase]
    rw [hpending, List.count_nil] at hclients
    show (s.clientFds ++ [fd]).count m = [fd].count m + s.serving.count m + s.removing.count m
    rw [List.count_append]
    omega
  live m := by
    have hlive := h.live m
    have hpending : s.pending = [] := by rw [State.pending, hphase]
    rw [hpending, List.count_nil, Nat.zero_add] at hlive
    show [fd].count m + s.serving.count m = _
    by_cases hm : m = fd
    · subst hm
      have hnone := h.count_of_free hfree
      rw [if_pos Table.heldBy_handOut_self, List.count_singleton_self]
      omega
    · rw [List.count_singleton, if_neg (by simpa using Ne.symm hm), Nat.zero_add, hlive]
      simp only [Table.heldBy_handOut_of_ne hm]
  once m hholder := by
    by_cases hm : m = fd
    · subst hm
      rw [Table.heldBy_handOut_self.2]
      exact Nat.zero_le 1
    · simp only [Table.handOut, if_neg hm] at hholder ⊢
      exact h.once m hholder

theorem Inv.startWorker (h : Inv s) (hphase : s.accept = .starting fd) :
    Inv { s with accept := .looping, serving := fd :: s.serving } where
  clients m := by
    have hclients := h.clients m
    have hpending : s.pending = [fd] := by rw [State.pending, hphase]
    rw [hpending] at hclients
    show s.clientFds.count m = ([] : List ℕ).count m + (fd :: s.serving).count m + s.removing.count m
    rw [List.count_cons, List.count_nil]
    rw [List.count_singleton] at hclients
    omega
  live m := by
    have hlive := h.live m
    have hpending : s.pending = [fd] := by rw [State.pending, hphase]
    rw [hpending, List.count_singleton] at hlive
    show ([] : List ℕ).count m + (fd :: s.serving).count m
      = if s.table.HeldBy .connection m then 1 else 0
    rw [List.count_cons, List.count_nil]
    omega
  once := h.once

/-- A handler in its loop has an open descriptor, and no other handler has it. -/
theorem Inv.leave (h : Inv s) (hserving : fd ∈ s.serving) :
    Inv { s with
      table := s.table.close fd
      serving := s.serving.erase fd
      removing := fd :: s.removing } where
  clients m := by
    have hclients := h.clients m
    have hpos : 0 < s.serving.count fd := List.count_pos_iff.mpr hserving
    -- `fd` stays in the list: its worker now counts as one that removes it
    show s.clientFds.count m = s.pending.count m + (s.serving.erase fd).count m
      + (fd :: s.removing).count m
    rw [List.count_erase, List.count_cons]
    by_cases hm : m = fd
    · subst hm
      simp only [beq_self_eq_true, if_true]
      omega
    · simp only [beq_iff_eq, if_neg (Ne.symm hm)]
      omega
  live m := by
    have hlive := h.live m
    have hpos : 0 < s.serving.count fd := List.count_pos_iff.mpr hserving
    show s.pending.count m + (s.serving.erase fd).count m = _
    rw [List.count_erase]
    by_cases hm : m = fd
    · subst hm
      rw [if_neg Table.not_heldBy_close]
      simp only [beq_self_eq_true, if_true]
      split_ifs at hlive <;> omega
    · simp only [beq_iff_eq, if_neg (Ne.symm hm), Nat.sub_zero, Table.heldBy_close_of_ne hm]
      exact hlive
  once m hholder := by
    have hlive := h.live m
    by_cases hm : m = fd
    · subst hm
      have hpos : 0 < s.serving.count m := List.count_pos_iff.mpr hserving
      have hheld : s.table.HeldBy .connection m := by
        by_contra hnot
        rw [if_neg hnot] at hlive
        omega
      show (s.table.close m).closes m ≤ 1
      have hnone := hheld.2
      rw [Table.closes_close_self]
      omega
    · show (s.table.close fd).closes m ≤ 1
      rw [Table.closes_close_of_ne hm]
      exact h.once m hholder

theorem Inv.erase (h : Inv s) (hremoving : fd ∈ s.removing) :
    Inv { s with clientFds := s.clientFds.erase fd, removing := s.removing.erase fd } where
  clients m := by
    have hclients := h.clients m
    have hpos : 0 < s.removing.count fd := List.count_pos_iff.mpr hremoving
    show (s.clientFds.erase fd).count m
      = s.pending.count m + s.serving.count m + (s.removing.erase fd).count m
    rw [List.count_erase, List.count_erase]
    by_cases hm : m = fd
    · subst hm
      simp only [beq_self_eq_true, if_true]
      omega
    · simp only [beq_iff_eq, if_neg (Ne.symm hm)]
      omega
  live := h.live
  once := h.once

/-- What the rest of the process opens and closes is none of the connections. -/
theorem Inv.openOther (h : Inv s) (hfree : s.table.Free fd) :
    Inv { s with table := s.table.handOut .other fd } where
  clients := h.clients
  live m := by
    have hlive := h.live m
    show s.pending.count m + s.serving.count m = _
    by_cases hm : m = fd
    · subst hm
      have hother : ¬(s.table.handOut .other m).HeldBy .connection m := by
        rintro ⟨hholder, -⟩
        simp [Table.handOut] at hholder
      rw [h.count_of_free hfree, if_neg hother]
    · simp only [Table.heldBy_handOut_of_ne hm]
      exact hlive
  once m hholder := by
    by_cases hm : m = fd
    · subst hm
      simp [Table.handOut] at hholder
    · simp only [Table.handOut, if_neg hm] at hholder ⊢
      exact h.once m hholder

theorem Inv.closeOther (h : Inv s) (hheld : s.table.HeldBy .other fd) :
    Inv { s with table := s.table.close fd } where
  clients := h.clients
  live m := by
    have hlive := h.live m
    show s.pending.count m + s.serving.count m = _
    by_cases hm : m = fd
    · subst hm
      have hother : ¬s.table.HeldBy .connection m := fun hconn =>
        absurd (hheld.1.symm.trans hconn.1) (by simp)
      rw [if_neg hother] at hlive
      rw [hlive, if_neg Table.not_heldBy_close]
    · simp only [Table.heldBy_close_of_ne hm]
      exact hlive
  once m hholder := by
    have hother : m ≠ fd := by
      rintro rfl
      rw [Table.holder_close, hheld.1] at hholder
      exact absurd hholder (by simp)
    show (s.table.close fd).closes m ≤ 1
    rw [Table.closes_close_of_ne hother]
    exact h.once m hholder

/-- The phases of the accept loop without a descriptor do not matter. -/
theorem Inv.phase (h : Inv s) (hpending : s.pending = []) {phase : AcceptPhase}
    (hphase : ∀ fd, phase ≠ .starting fd) : Inv { s with accept := phase } := by
  have hnone : State.pending { s with accept := phase } = [] := by
    cases phase with
    | starting fd => exact absurd rfl (hphase fd)
    | looping => rfl
    | accepting => rfl
    | exited => rfl
  refine ⟨fun m => ?_, fun m => ?_, h.once⟩
  · rw [hnone, ← hpending]
    exact h.clients m
  · rw [hnone, ← hpending]
    exact h.live m

end Steps

/-- One step that stays clear of the defect keeps the invariant. -/
theorem Inv.of_step {kind : Kind} {s s' : State} {a : Act} (h : Inv s) (hok : StepOk kind s a)
    (hstep : step kind s a = some s') : Inv s' := by
  cases a with
  | testRunning =>
    simp only [step] at hstep
    split_ifs at hstep with hphase
    all_goals
      obtain rfl := Option.some.inj hstep
      exact h.phase (by rw [State.pending, hphase]) (by simp)
  | acceptFails =>
    simp only [step] at hstep
    split_ifs at hstep with hphase
    all_goals
      obtain rfl := Option.some.inj hstep
      exact h.phase (by rw [State.pending, hphase]) (by simp)
  | accept fd =>
    simp only [step] at hstep
    split_ifs at hstep with hguard
    obtain rfl := Option.some.inj hstep
    exact h.accept hguard.1 hguard.2
  | startWorker =>
    simp only [step] at hstep
    split at hstep
    · next fd hphase =>
      obtain rfl := Option.some.inj hstep
      exact h.startWorker hphase
    · exact absurd hstep (by simp)
  | leave fd =>
    obtain rfl : kind = .binary := hok
    simp only [step, if_true] at hstep
    split_ifs at hstep with hserving
    obtain rfl := Option.some.inj hstep
    exact h.leave hserving
  | erase fd =>
    simp only [step] at hstep
    split_ifs at hstep with hremoving
    obtain rfl := Option.some.inj hstep
    exact h.erase hremoving
  | stop =>
    simp only [step] at hstep
    split_ifs at hstep
    obtain rfl := Option.some.inj hstep
    exact ⟨h.clients, h.live, h.once⟩
  | closeClients =>
    -- no client is in the list, so nothing is closed
    have hnone : s.clientFds = [] := hok
    simp only [step, hnone] at hstep
    split_ifs at hstep
    obtain rfl := Option.some.inj hstep
    refine ⟨fun fd => ?_, h.live, h.once⟩
    rw [← hnone]
    exact h.clients fd
  | joinAccept =>
    simp only [step] at hstep
    split_ifs at hstep
    obtain rfl := Option.some.inj hstep
    exact ⟨h.clients, h.live, h.once⟩
  | joinWorkers =>
    simp only [step] at hstep
    split_ifs at hstep
    obtain rfl := Option.some.inj hstep
    exact ⟨h.clients, h.live, h.once⟩
  | openOther fd =>
    simp only [step] at hstep
    split_ifs at hstep with hfree
    obtain rfl := Option.some.inj hstep
    exact h.openOther hfree
  | closeOther fd =>
    simp only [step] at hstep
    split_ifs at hstep with hheld
    obtain rfl := Option.some.inj hstep
    exact h.closeOther hheld

theorem inv_of_runOk {kind : Kind} {s s' : State} {acts : List Act} (h : Inv s)
    (hrun : runOk kind s acts = some s') : Inv s' := by
  induction acts generalizing s with
  | nil =>
    obtain rfl : s = s' := Option.some.inj hrun
    exact h
  | cons a acts ih =>
    rw [runOk] at hrun
    split_ifs at hrun with hok
    obtain ⟨s₁, hstep, hrest⟩ := Option.bind_eq_some_iff.mp hrun
    exact ih (h.of_step hok hstep) hrest

/-! ## The defect -/

/-- `Stop` calls `close` on every connection that is open when it runs its block. -/
theorem Inv.closes_closeClients {s : State} (h : Inv s) {fd : ℕ}
    (hheld : s.table.HeldBy .connection fd) : 1 ≤ (s.table.closeAll s.clientFds).closes fd := by
  have hlive := h.live fd
  rw [if_pos hheld] at hlive
  rw [Table.closes_closeAll, h.clients]
  omega

/-- The `close` of a handler is the second one if the descriptor is closed already. -/
theorem closed_twice_of_leave (kind : Kind) {s : State} {fd : ℕ}
    (hholder : s.table.holder fd = some .connection) (hcloses : 1 ≤ s.table.closes fd)
    (hserving : fd ∈ s.serving) : ∃ s', step kind s (.leave fd) = some s' ∧ ¬ClosedOnce s' := by
  refine ⟨_, if_pos hserving, fun honce => ?_⟩
  have hone : (s.table.close fd).closes fd = 1 := honce fd hholder Table.not_heldBy_close
  rw [Table.closes_close_self] at hone
  omega

/-- After `Stop` ran its block on an open connection, the handler's own `close` is the second. -/
theorem Inv.closed_twice (kind : Kind) {s : State} (h : Inv s) (hstop : s.stop = .stopping) {fd : ℕ}
    (hheld : s.table.HeldBy .connection fd) :
    ∃ acts s', run kind s (.closeClients :: acts) = some s' ∧ ¬ClosedOnce s' := by
  have hlive := h.live fd
  rw [if_pos hheld] at hlive
  have hcloses := h.closes_closeClients hheld
  have hholder : (s.table.closeAll s.clientFds).holder fd = some .connection := by
    rw [Table.holder_closeAll, hheld.1]
  generalize hs₁ : { s with
    table := s.table.closeAll s.clientFds, clientFds := [], stop := .cleared } = s₁
  have hblock : step kind s .closeClients = some s₁ := hs₁ ▸ if_pos hstop
  by_cases hserving : fd ∈ s.serving
  · obtain ⟨s', hleave, htwice⟩ : ∃ s', step kind s₁ (.leave fd) = some s' ∧ ¬ClosedOnce s' := by
      subst hs₁
      exact closed_twice_of_leave kind hholder hcloses hserving
    refine ⟨[.leave fd], s', ?_, htwice⟩
    simp only [run, List.foldlM_cons, List.foldlM_nil, hblock, Option.bind_eq_bind, Option.bind_some,
      hleave, Option.pure_def]
  · -- the worker starts after the block, and closes what `Stop` has closed
    rw [List.count_eq_zero_of_not_mem hserving, Nat.add_zero] at hlive
    have hphase : s.accept = .starting fd := by
      have hmem : fd ∈ s.pending := List.count_pos_iff.mp (by omega)
      unfold State.pending at hmem
      split at hmem
      · next m hm => rw [hm, List.mem_singleton.mp hmem]
      · exact absurd hmem List.not_mem_nil
    have hstart : step kind s₁ .startWorker
        = some { s₁ with accept := .looping, serving := fd :: s₁.serving } := by
      subst hs₁
      simp only [step, hphase]
    obtain ⟨s', hleave, htwice⟩ : ∃ s', step kind
        { s₁ with accept := .looping, serving := fd :: s₁.serving } (.leave fd) = some s' ∧
          ¬ClosedOnce s' := by
      subst hs₁
      exact closed_twice_of_leave kind hholder hcloses List.mem_cons_self
    refine ⟨[.startWorker, .leave fd], s', ?_, htwice⟩
    simp only [run, List.foldlM_cons, List.foldlM_nil, hblock, Option.bind_eq_bind, Option.bind_some,
      hstart, hleave, Option.pure_def]

/-- In every run in which the block of `Stop` finds nothing recorded and only handlers that erase
their descriptor leave their loop, each connection is closed once and `client_fds_` holds the open
ones. If a connection is open when the block runs, the run goes on to a second `close` of it. -/
theorem closed_once {kind : Kind} {acts : List Act} {s : State}
    (hrun : runOk kind .started acts = some s) :
    (ClosedOnce s ∧ TracksOpen s) ∧
      (s.stop = .stopping → ∀ fd, s.table.HeldBy .connection fd →
        ∃ acts s', run kind s (.closeClients :: acts) = some s' ∧ ¬ClosedOnce s') := by
  have h := inv_of_runOk inv_started hrun
  exact ⟨⟨h.closedOnce, h.tracksOpen⟩, fun hstop fd hheld => h.closed_twice kind hstop hheld⟩

/-- A connection that ends before `Stop`, and a second one with the same number. -/
theorem closed_once_reused : ∃ s, runOk .binary .started [.testRunning, .accept 5, .startWorker,
      .leave 5, .testRunning, .accept 5, .erase 5, .startWorker, .leave 5, .erase 5, .stop,
      .closeClients] = some s ∧ ClosedOnce s ∧ TracksOpen s := by
  have hsome : (runOk .binary .started [.testRunning, .accept 5, .startWorker, .leave 5,
    .testRunning, .accept 5, .erase 5, .startWorker, .leave 5, .erase 5, .stop,
    .closeClients]).isSome = true := by decide
  obtain ⟨s, hs⟩ := Option.isSome_iff_exists.mp hsome
  exact ⟨s, hs, (closed_once hs).1⟩

/-- `Stop` with one client connected closes its descriptor, and so does the handler. A handler of the
text server that leaves its loop stays recorded. -/
theorem not_closed_once :
    (∃ s, run .binary .started [.testRunning, .accept 5, .startWorker, .stop, .closeClients, .leave 5]
      = some s ∧ ¬ClosedOnce s) ∧
    ∃ s, run .text .started [.testRunning, .accept 5, .startWorker, .leave 5] = some s ∧
      ¬TracksOpen s := by
  constructor
  · refine ⟨_, rfl, fun honce => ?_⟩
    exact absurd (honce 5 (by decide) (by decide)) (by decide)
  · refine ⟨_, rfl, fun htracks => ?_⟩
    exact absurd (htracks (by decide) 5) (by decide)

end RpcServer

end LeKV
