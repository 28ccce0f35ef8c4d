import Mathlib.Tactic.Common
import Mathlib.Algebra.BigOperators.Group.List.Basic
import Mathlib.Algebra.Order.Ring.Nat

/-!
# How a process of the store ends (`lekv.cpp`, `kv/raft_node.cpp`, `rpc/rpc_server.cpp`)

`main` runs the node and waits on a condition variable; a second thread polls for SIGINT and calls
`RaftNode::Stop`; the server has its accept loop and a worker for every connection; the Master has a
balancer. A step is one access to a flag, one call that may block, one block under a mutex, or one part
of a worker's or the balancer's round. The environment sends SIGINT, wakes a waiting thread without a
reason, lets an `accept` fail, ends the balancer's sleep, or lets a peer read again from a full socket.
The process may die at any time: nothing ignores SIGPIPE, which `::send` raises on a connection that the
client has closed or `Stop` has shut down, and nothing catches what `json::dump` throws in a round.

* `steps_bounded`: a run without spurious steps of the environment is finite.
* `handling_storage`: no handler ever runs on a storage that is closed.
* `shutdown_outcome`: how the process ends, by where `main` is when `Stop` tests `running_`. Unless it
  dies, a start-up that is complete ends in a clean exit, or in a wait for a round of the balancer whose
  `RpcClient::Send` does not return; a SIGINT that comes before `running_` is set is lost.
-/

namespace LeKV

namespace Lifecycle

/-! ## The threads -/

/-- Where `main` is: before `BinaryRpcServer::Start`, before `running_`, `balancer_running_` and
`balancer_thread_` are set, before the test of `cv_.wait` or asleep in it, before the join of
`stop_thread`, in `~RaftNode`; or the process has exited or called `std::terminate`. -/
inductive MainPhase where
  | starting
  | started
  | flagging
  | spawning
  | checking
  | asleep
  | joining
  | destroying
  | exited
  | aborted
deriving DecidableEq, Repr

/-- Where `stop_thread` is: in its loop on `g_stop`, or in `RaftNode::Stop` before the test of
`running_`, back from it at once, before `running_` is cleared, before `notify_all`, before
`balancer_running_` is cleared, in `RpcServer::Stop` before each of its parts, before the test of
`balancer_thread_`, in its join, before the storage is closed; or `Stop` has returned. -/
inductive StopPhase where
  | polling
  | testing
  | ignored
  | clearing
  | notifying
  | unflagging
  | shutting
  | unlistening
  | closing
  | joiningAccept
  | joiningWorkers
  | testingBalancer
  | joiningBalancer
  | releasing
  | returned
deriving DecidableEq, Repr

/-- `balancer_thread_`: not a thread, in its sleep or at a test of `balancer_running_`, in a round, in
`RpcClient::Send` to a DataNode that reads nothing, at its end but not joined, joined. -/
inductive BalancerPhase where
  | absent
  | sleeping
  | working
  | blocked
  | ended
  | joined
deriving DecidableEq, Repr

/-- `std::thread::joinable`. -/
def BalancerPhase.joinable : BalancerPhase → Bool
  | sleeping | working | blocked | ended => true
  | absent | joined => false

/-- Where a worker is: before the test of `running_`, in `recv`, in the handler or before the `send` of
its response, in a `send` to a client that reads nothing, or behind its loop. -/
inductive WorkerPhase where
  | looping
  | receiving
  | handling
  | sending
  | left
deriving DecidableEq, Repr

/-- A worker. Its client will send `frames` more requests, and closes the connection at some time if
`closes`; `shut` says that `Stop` has shut the connection down. -/
structure Worker where
  phase : WorkerPhase
  frames : ℕ
  closes : Bool
  shut : Bool
deriving DecidableEq, Repr

/-- Where `AcceptLoop` is: not started, before the test of `running_`, in `accept`, before the connection
is recorded in `client_fds_`, before the start of its worker, or behind the loop. -/
inductive AcceptPhase where
  | absent
  | looping
  | accepting
  | recording (w : Worker)
  | starting (w : Worker)
  | exited
deriving DecidableEq, Repr

/-- What ends a process at once: a SIGPIPE, or an exception that leaves a thread. -/
inductive Death where
  | sigpipe
  | terminate
deriving DecidableEq, Repr

/-- A process. `listening` is the state of the listening socket, `backlog` the connections that clients
will open, each with its requests; `storage` says that the storage is not closed. -/
structure Process where
  master : Bool
  main : MainPhase
  stop : StopPhase
  balancer : BalancerPhase
  accept : AcceptPhase
  workers : List Worker
  backlog : List (ℕ × Bool)
  signalled : Bool
  running : Bool
  balancerRunning : Bool
  serverRunning : Bool
  listening : Bool
  storage : Bool
  death : Option Death

/-- `main` before `node.Run()`. -/
def Process.init (master : Bool) (backlog : List (ℕ × Bool)) : Process where
  master := master
  main := .starting
  stop := .polling
  balancer := .absent
  accept := .absent
  workers := []
  backlog := backlog
  signalled := false
  running := false
  balancerRunning := false
  serverRunning := false
  listening := false
  storage := true
  death := none

/-- There is no process any more. -/
def Process.over (s : Process) : Bool :=
  s.death.isSome || s.main = .exited || s.main = .aborted

/-! ## The steps -/

/-- `main` and `RaftNode::Run`. -/
inductive MainStep (s : Process) : Process → Prop where
  | start (h : s.main = .starting) : MainStep s { s with
      main := .started, serverRunning := true, listening := true, accept := .looping }
  | startFails (h : s.main = .starting) : MainStep s { s with main := .joining }
  | setRunning (h : s.main = .started) : MainStep s { s with
      running := true, main := if s.master then .flagging else .checking }
  | setBalancer (h : s.main = .flagging) : MainStep s { s with
      balancerRunning := true, main := .spawning }
  | spawn (h : s.main = .spawning) : MainStep s { s with balancer := .sleeping, main := .checking }
  | check (h : s.main = .checking) : MainStep s { s with
      main := if s.running then .asleep else .joining }
  | join (h : s.main = .joining) (hstop : s.stop = .ignored ∨ s.stop = .returned) :
      MainStep s { s with main := .destroying }
  | destroy (h : s.main = .destroying) : MainStep s { s with
      storage := false, main := if s.balancer.joinable then .aborted else .exited }

/-- `Stop` shuts a connection down. -/
def Worker.shutDown (w : Worker) : Worker := { w with shut := true }

/-- `Stop` shuts down a connection that is recorded but has no worker yet. -/
def AcceptPhase.shutDown : AcceptPhase → AcceptPhase
  | starting w => starting w.shutDown
  | phase => phase

/-- `stop_thread` and `RaftNode::Stop`, less the call of `RpcServer::Stop`. -/
inductive StopStep (s : Process) : Process → Prop where
  | poll (h : s.stop = .polling) (hsignal : s.signalled = true) : StopStep s { s with stop := .testing }
  | test (h : s.stop = .testing) : StopStep s { s with
      stop := if s.running then .clearing else .ignored }
  | clear (h : s.stop = .clearing) : StopStep s { s with running := false, stop := .notifying }
  | notify (h : s.stop = .notifying) : StopStep s { s with
      stop := .unflagging, main := if s.main = .asleep then .checking else s.main }
  | unflag (h : s.stop = .unflagging) : StopStep s { s with balancerRunning := false, stop := .shutting }
  | testBalancer (h : s.stop = .testingBalancer) : StopStep s { s with
      stop := if s.balancer.joinable then .joiningBalancer else .releasing }
  | joinBalancer (h : s.stop = .joiningBalancer) (hended : s.balancer = .ended) :
      StopStep s { s with balancer := .joined, stop := .releasing }
  | release (h : s.stop = .releasing) : StopStep s { s with storage := false, stop := .returned }

/-- `RpcServer::Stop`. -/
inductive ServerStopStep (s : Process) : Process → Prop where
  | shut (h : s.stop = .shutting) : ServerStopStep s { s with
      serverRunning := false, stop := if s.serverRunning then .unlistening else .testingBalancer }
  | unlisten (h : s.stop = .unlistening) : ServerStopStep s { s with listening := false, stop := .closing }
  | close (h : s.stop = .closing) : ServerStopStep s { s with
      workers := s.workers.map Worker.shutDown, accept := s.accept.shutDown, stop := .joiningAccept }
  | joinAccept (h : s.stop = .joiningAccept) (hexited : s.accept = .exited) :
      ServerStopStep s { s with stop := .joiningWorkers }
  | joinWorkers (h : s.stop = .joiningWorkers) (hleft : ∀ w ∈ s.workers, w.phase = .left) :
      ServerStopStep s { s with stop := .testingBalancer }

/-- `BalancerLoop` leaves its loop, or its round ends; or `RpcClient::Send` goes round and round because
the socket stays full, `SaveTablets` throws, or a DataNode has closed its connection. -/
inductive BalancerStep (s : Process) : Process → Prop where
  | leave (h : s.balancer = .sleeping) (hflag : s.balancerRunning = false) :
      BalancerStep s { s with balancer := .ended }
  | finish (h : s.balancer = .working) : BalancerStep s { s with balancer := .sleeping }
  | block (h : s.balancer = .working) : BalancerStep s { s with balancer := .blocked }
  | throw (h : s.balancer = .working) : BalancerStep s { s with death := some .terminate }
  | pipe (h : s.balancer = .working) : BalancerStep s { s with death := some .sigpipe }

/-- `AcceptLoop`. -/
inductive AcceptStep (s : Process) : Process → Prop where
  | test (h : s.accept = .looping) : AcceptStep s { s with
      accept := if s.serverRunning then .accepting else .exited }
  | accept (h : s.accept = .accepting) (hlistening : s.listening = true) {client : ℕ × Bool}
      {rest : List (ℕ × Bool)} (hclient : s.backlog = client :: rest) : AcceptStep s { s with
      backlog := rest, accept := .recording ⟨.looping, client.1, client.2, false⟩ }
  | stopped (h : s.accept = .accepting) (hlistening : s.listening = false)
      (hrunning : s.serverRunning = false) : AcceptStep s { s with accept := .exited }
  | record {w : Worker} (h : s.accept = .recording w) : AcceptStep s { s with accept := .starting w }
  | start {w : Worker} (h : s.accept = .starting w) : AcceptStep s { s with
      accept := .looping, workers := s.workers ++ [w] }

/-- One worker of `BinaryRpcServer::HandleClient`. A frame that was sent may still be read after the
connection is shut down; no response goes out any more. -/
inductive WorkerStep (serverRunning : Bool) (w : Worker) : Worker → Prop where
  | test (h : w.phase = .looping) : WorkerStep serverRunning w
      { w with phase := if serverRunning then .receiving else .left }
  | receive (h : w.phase = .receiving) {n : ℕ} (hframes : w.frames = n + 1) :
      WorkerStep serverRunning w { w with phase := .handling, frames := n }
  | hangUp (h : w.phase = .receiving) (hend : w.shut = true ∨ w.frames = 0 ∧ w.closes = true) :
      WorkerStep serverRunning w { w with phase := .left }
  | reply (h : w.phase = .handling) (hopen : w.shut = false) :
      WorkerStep serverRunning w { w with phase := .looping }
  | block (h : w.phase = .handling) (hopen : w.shut = false) :
      WorkerStep serverRunning w { w with phase := .sending }
  | sendFails (h : w.phase = .handling) : WorkerStep serverRunning w { w with phase := .left }
  | breakOff (h : w.phase = .sending) (hend : w.shut = true ∨ w.closes = true) :
      WorkerStep serverRunning w { w with phase := .left }

/-- The worker's next `send` may raise SIGPIPE. -/
structure Worker.Pipes (w : Worker) : Prop where
  phase : w.phase = .handling ∨ w.phase = .sending
  gone : w.shut = true ∨ w.closes = true

/-- What comes from outside: SIGINT, a spurious wake-up of `cv_.wait`, an `accept` that fails, the end of
the balancer's sleep, a peer that reads again. -/
inductive OutsideStep (s : Process) : Process → Prop where
  | signal : OutsideStep s { s with signalled := true }
  | wake (h : s.main = .asleep) : OutsideStep s { s with main := .checking }
  | acceptFails (h : s.accept = .accepting) : OutsideStep s { s with
      accept := if s.serverRunning then .looping else .exited }
  | round (h : s.balancer = .sleeping) (hflag : s.balancerRunning = true) :
      OutsideStep s { s with balancer := .working }
  | unblock (h : s.balancer = .blocked) : OutsideStep s { s with balancer := .working }
  | takes {l₁ l₂ : List Worker} {w : Worker} (h : s.workers = l₁ ++ w :: l₂)
      (hphase : w.phase = .sending) (hopen : w.shut = false) :
      OutsideStep s { s with workers := l₁ ++ { w with phase := .looping } :: l₂ }

/-- A step of one of the process's own threads. -/
inductive OwnStep (s : Process) : Process → Prop where
  | main {s' : Process} (h : MainStep s s') : OwnStep s s'
  | stop {s' : Process} (h : StopStep s s') : OwnStep s s'
  | serverStop {s' : Process} (h : ServerStopStep s s') : OwnStep s s'
  | balancer {s' : Process} (h : BalancerStep s s') : OwnStep s s'
  | accept {s' : Process} (h : AcceptStep s s') : OwnStep s s'
  | worker {l₁ l₂ : List Worker} {w w' : Worker} (h : s.workers = l₁ ++ w :: l₂)
      (hstep : WorkerStep s.serverRunning w w') : OwnStep s { s with workers := l₁ ++ w' :: l₂ }
  | pipe {w : Worker} (hw : w ∈ s.workers) (h : w.Pipes) : OwnStep s { s with death := some .sigpipe }

/-- Any step. -/
inductive Step (s s' : Process) : Prop where
  | own (h : OwnStep s s')
  | outside (h : OutsideStep s s')

/-- A run: the states that it leads to, with the number of its own steps and of those from outside. -/
inductive Run (s : Process) : ℕ → ℕ → Process → Prop where
  | refl : Run s 0 0 s
  | own {own outside : ℕ} {s₁ s₂ : Process} (h : Run s own outside s₁) (halive : s₁.over = false)
      (hstep : OwnStep s₁ s₂) : Run s (own + 1) outside s₂
  | outside {own outside : ℕ} {s₁ s₂ : Process} (h : Run s own outside s₁) (halive : s₁.over = false)
      (hstep : OutsideStep s₁ s₂) : Run s own (outside + 1) s₂

/-- What every step of a live process keeps, a run keeps. -/
theorem Run.keeps_of_alive {P : Process → Prop} {s s' : Process} {own outside : ℕ}
    (h : Run s own outside s') (hs : P s)
    (hstep : ∀ s₁ s₂, P s₁ → s₁.over = false → Step s₁ s₂ → P s₂) : P s' := by
  induction h with
  | refl => exact hs
  | own _ halive h ih => exact hstep _ _ ih halive (.own h)
  | outside _ halive h ih => exact hstep _ _ ih halive (.outside h)

/-- What every step keeps, a run keeps. -/
theorem Run.keeps {P : Process → Prop} {s s' : Process} {own outside : ℕ} (h : Run s own outside s')
    (hs : P s) (hstep : ∀ s₁ s₂, P s₁ → Step s₁ s₂ → P s₂) : P s' :=
  h.keeps_of_alive hs fun s₁ s₂ h₁ _ => hstep s₁ s₂ h₁

/-! ## Every run comes to an end -/

/-- The steps that `main` may still take. -/
def MainPhase.weight : MainPhase → ℕ
  | starting => 20
  | started => 13
  | flagging => 12
  | spawning => 11
  | checking => 6
  | asleep => 5
  | joining => 3
  | destroying => 2
  | exited | aborted => 0

/-- Twice the steps that `stop_thread` may still take; `notify_all` may wake `main`. -/
def StopPhase.weight : StopPhase → ℕ
  | polling => 28
  | testing => 26
  | clearing => 24
  | notifying => 22
  | unflagging => 20
  | shutting => 18
  | unlistening => 16
  | closing => 14
  | joiningAccept => 12
  | joiningWorkers => 10
  | testingBalancer => 8
  | joiningBalancer => 6
  | releasing => 4
  | ignored | returned => 0

def BalancerPhase.weight : BalancerPhase → ℕ
  | working => 3
  | sleeping | blocked => 2
  | ended => 1
  | absent | joined => 0

def WorkerPhase.weight : WorkerPhase → ℕ
  | looping => 2
  | receiving => 1
  | handling => 4
  | sending => 3
  | left => 0

def Worker.weight (w : Worker) : ℕ := w.phase.weight + 4 * w.frames

def AcceptPhase.weight : AcceptPhase → ℕ
  | looping => 2
  | accepting => 1
  | recording w => 4 + w.weight
  | starting w => 3 + w.weight
  | absent | exited => 0

/-- A bound on the steps that a process may still take of its own; the last one may be its death. -/
def Process.weight (s : Process) : ℕ :=
  s.main.weight + s.stop.weight + s.balancer.weight + s.accept.weight + (s.workers.map Worker.weight).sum
    + (s.backlog.map fun client => 6 + 4 * client.1).sum + if s.death.isSome then 0 else 1

theorem WorkerStep.weight {serverRunning : Bool} {w w' : Worker} (h : WorkerStep serverRunning w w') :
    w'.weight < w.weight := by
  cases h with
  | test h => cases serverRunning <;> simp [Worker.weight, h, WorkerPhase.weight]
  | receive h hframes => simp [Worker.weight, h, hframes, WorkerPhase.weight]; omega
  | hangUp h _ | reply h _ | block h _ | sendFails h | breakOff h _ =>
    simp [Worker.weight, h, WorkerPhase.weight]

theorem AcceptPhase.weight_shutDown (phase : AcceptPhase) : phase.shutDown.weight = phase.weight := by
  cases phase <;> rfl

theorem sum_weight_shutDown (workers : List Worker) :
    ((workers.map Worker.shutDown).map Worker.weight).sum = (workers.map Worker.weight).sum := by
  rw [List.map_map]
  rfl

theorem MainStep.weight {s s' : Process} (h : MainStep s s') : s'.weight < s.weight := by
  cases h with
  | start h =>
    have haccept : AcceptPhase.looping.weight = 2 := rfl
    simp only [Process.weight, h, MainPhase.weight, haccept]
    omega
  | startFails h | setBalancer h | join h _ => simp [Process.weight, h, MainPhase.weight]
  | setRunning h => cases s.master <;> simp [Process.weight, h, MainPhase.weight]
  | spawn h =>
    simp only [Process.weight, h, MainPhase.weight, BalancerPhase.weight]
    omega
  | check h => cases s.running <;> simp [Process.weight, h, MainPhase.weight]
  | destroy h =>
    cases s.balancer.joinable <;> simp [Process.weight, h, MainPhase.weight]

theorem StopStep.weight {s s' : Process} (h : StopStep s s') : s'.weight < s.weight := by
  cases h with
  | poll h _ | clear h | unflag h | release h => simp [Process.weight, h, StopPhase.weight]
  | test h => cases s.running <;> simp [Process.weight, h, StopPhase.weight]
  | notify h =>
    by_cases hmain : s.main = .asleep
    · simp [Process.weight, h, hmain, StopPhase.weight, MainPhase.weight]
    · simp [Process.weight, h, hmain, StopPhase.weight]
  | testBalancer h =>
    cases s.balancer.joinable <;> simp [Process.weight, h, StopPhase.weight]
  | joinBalancer h hended =>
    simp [Process.weight, h, hended, StopPhase.weight, BalancerPhase.weight]

theorem ServerStopStep.weight {s s' : Process} (h : ServerStopStep s s') : s'.weight < s.weight := by
  cases h with
  | unlisten h | joinAccept h _ | joinWorkers h _ => simp [Process.weight, h, StopPhase.weight]
  | shut h => cases s.serverRunning <;> simp [Process.weight, h, StopPhase.weight]
  | close h =>
    simp only [Process.weight, h, StopPhase.weight, AcceptPhase.weight_shutDown, sum_weight_shutDown]
    omega

theorem AcceptStep.weight {s s' : Process} (h : AcceptStep s s') : s'.weight < s.weight := by
  cases h with
  | test h => cases s.serverRunning <;> simp [Process.weight, h, AcceptPhase.weight]
  | accept h _ hclient =>
    simp only [Process.weight, h, hclient, AcceptPhase.weight, Worker.weight, WorkerPhase.weight,
      List.map_cons, List.sum_cons]
    omega
  | stopped h _ _ | record h => simp [Process.weight, h, AcceptPhase.weight]
  | start h =>
    simp only [Process.weight, h, AcceptPhase.weight, List.map_append, List.map_cons, List.map_nil,
      List.sum_append, List.sum_cons, List.sum_nil]
    omega

theorem Process.death_of_alive {s : Process} (h : s.over = false) : s.death = none := by
  simp only [Process.over, Bool.or_eq_false_iff, Option.isSome_eq_false_iff, Option.isNone_iff_eq_none]
    at h
  exact h.1.1

/-- A process dies once. -/
theorem Process.weight_die {s : Process} (h : s.over = false) (death : Death) :
    ({ s with death := some death } : Process).weight < s.weight := by
  simp [Process.weight, Process.death_of_alive h]

theorem BalancerStep.weight {s s' : Process} (h : BalancerStep s s') (halive : s.over = false) :
    s'.weight < s.weight := by
  cases h with
  | leave h _ | finish h | block h => simp [Process.weight, h, BalancerPhase.weight]
  | throw h | pipe h => exact Process.weight_die halive _

/-- Every step of the process's own leaves fewer of them. -/
theorem OwnStep.weight {s s' : Process} (h : OwnStep s s') (halive : s.over = false) :
    s'.weight < s.weight := by
  cases h with
  | main h => exact h.weight
  | stop h => exact h.weight
  | serverStop h => exact h.weight
  | balancer h => exact h.weight halive
  | accept h => exact h.weight
  | worker h hstep =>
    have hless := hstep.weight
    simp only [Process.weight, h, List.map_append, List.map_cons, List.sum_append, List.sum_cons]
    omega
  | pipe _ _ => exact Process.weight_die halive _

theorem OutsideStep.weight {s s' : Process} (h : OutsideStep s s') : s'.weight ≤ s.weight + 1 := by
  cases h with
  | signal => exact Nat.le_succ _
  | wake h =>
    simp only [Process.weight, h, MainPhase.weight]
    omega
  | acceptFails h =>
    cases s.serverRunning <;> simp only [Process.weight, h, AcceptPhase.weight] <;> grind
  | round h _ | unblock h =>
    simp only [Process.weight, h, BalancerPhase.weight]
    omega
  | takes h hphase _ =>
    simp only [Process.weight, h, List.map_append, List.map_cons, List.sum_append, List.sum_cons,
      Worker.weight, hphase, WorkerPhase.weight]
    omega

/-- `running_` has been set by `Run`, which has not returned. -/
def MainPhase.up : MainPhase → Bool
  | flagging | spawning | checking | asleep => true
  | _ => false

/-- `Run` has returned. -/
def MainPhase.down : MainPhase → Bool
  | joining | destroying | exited | aborted => true
  | _ => false

theorem MainPhase.not_down_of_up (phase : MainPhase) (h : phase.up = true) : phase.down = false := by
  cases phase <;> first | rfl | cases h

/-- How far `Stop` is, zero where it has not passed its test of `running_`. -/
def StopPhase.rank : StopPhase → ℕ
  | polling | testing | ignored => 0
  | clearing => 1
  | notifying => 2
  | unflagging => 3
  | shutting => 4
  | unlistening => 5
  | closing => 6
  | joiningAccept => 7
  | joiningWorkers => 8
  | testingBalancer => 9
  | joiningBalancer => 10
  | releasing => 11
  | returned => 12

/-- How the flags and the storage go with `main` and `Stop`. -/
structure FlagInv (s : Process) : Prop where
  signalled : s.stop ≠ .polling → s.signalled = true
  running : s.running = true ↔ s.main.up = true ∧ s.stop.rank ≤ 1
  asleep : s.main = .asleep → s.running = true ∨ s.stop = .notifying
  called : 1 ≤ s.stop.rank → s.main.up = true ∨ s.main.down = true
  finished : s.main = .destroying ∨ s.main = .exited ∨ s.main = .aborted →
    s.stop = .ignored ∨ s.stop = .returned
  storage : s.storage = false ↔ s.stop = .returned ∨ s.main = .exited ∨ s.main = .aborted

/-- The worker is in no call that could block once the server has stopped. -/
def Worker.Unblocked (w : Worker) : Prop := w.phase = .looping ∨ w.phase = .left ∨ w.shut = true

/-- How far the server is. -/
structure ServerInv (s : Process) : Prop where
  starting : s.main = .starting → s.accept = .absent
  absent : s.accept = .absent → s.workers = [] ∧ (s.main = .starting ∨ s.main.down = true)
  pending : ∀ w, s.accept = .recording w ∨ s.accept = .starting w → w.phase = .looping
  down : s.main.down = true → s.accept = .absent ∨ 2 ≤ s.stop.rank
  present : 1 ≤ s.stop.rank → s.accept ≠ .absent
  server : s.serverRunning = true ↔ s.accept ≠ .absent ∧ s.stop.rank ≤ 4
  listening : 6 ≤ s.stop.rank → s.listening = false
  shut : 7 ≤ s.stop.rank → ∀ w ∈ s.workers, w.Unblocked
  accepted : 8 ≤ s.stop.rank → s.accept = .exited
  left : 9 ≤ s.stop.rank → ∀ w ∈ s.workers, w.phase = .left

/-- When the balancer is a thread that can be joined. -/
structure BalancerInv (s : Process) : Prop where
  joinable : s.stop = .joiningBalancer → s.balancer.joinable = true
  unstarted : s.accept = .absent → s.balancer = .absent
  exited : s.main = .exited → s.balancer.joinable = false
  aborted : s.main = .aborted → s.balancer.joinable = true
  master : s.main = .flagging ∨ s.main = .spawning ∨ s.balancer ≠ .absent → s.master = true

/-- What holds at every moment of a run. -/
structure Inv (s : Process) : Prop extends FlagInv s, ServerInv s, BalancerInv s

section Inv

variable {s s' : Process}

theorem inv_init (master : Bool) (backlog : List (ℕ × Bool)) : Inv (.init master backlog) := by
  refine ⟨?_, ?_, ?_⟩ <;> constructor <;>
    simp [Process.init, MainPhase.up, MainPhase.down, StopPhase.rank]

theorem FlagInv.main (h : FlagInv s) (hstep : MainStep s s') : FlagInv s' := by
  obtain ⟨hsignalled, hrunning, hasleep, hcalled, hfinished, hstorage⟩ := h
  cases hstep <;> constructor <;> grind [MainPhase.up, MainPhase.down, StopPhase.rank]

theorem FlagInv.stop (h : FlagInv s) (hstep : StopStep s s') : FlagInv s' := by
  obtain ⟨hsignalled, hrunning, hasleep, hcalled, hfinished, hstorage⟩ := h
  cases hstep <;> constructor <;> grind [MainPhase.up, StopPhase.rank]

theorem FlagInv.serverStop (h : FlagInv s) (hstep : ServerStopStep s s') : FlagInv s' := by
  obtain ⟨hsignalled, hrunning, hasleep, hcalled, hfinished, hstorage⟩ := h
  cases hstep <;> constructor <;> grind [StopPhase.rank]

theorem FlagInv.outside (h : FlagInv s) (hstep : OutsideStep s s') : FlagInv s' := by
  obtain ⟨hsignalled, hrunning, hasleep, hcalled, hfinished, hstorage⟩ := h
  cases hstep <;> constructor <;> grind [MainPhase.up, MainPhase.down]

theorem ServerInv.main (h : ServerInv s) (hflag : FlagInv s) (hstep : MainStep s s') :
    ServerInv s' := by
  -- past `Start`, and before the join of `stop_thread`, the accept loop is there
  have hpresent : s.main ≠ .starting → s.main.down = false → s.accept ≠ .absent := by
    intro hstarting hdown haccept
    rcases (h.absent haccept).2 with hmain | hmain
    · exact hstarting hmain
    · exact absurd (hdown.symm.trans hmain) Bool.false_ne_true
  cases hstep with
  | start hmain =>
    have hrank : s.stop.rank = 0 := by
      by_contra hrank
      exact h.present (by omega) (h.starting hmain)
    have hworkers := (h.absent (h.starting hmain)).1
    constructor <;> simp [hrank, hworkers, MainPhase.down]
  | startFails hmain =>
    exact { h with
      starting := fun _ => h.starting hmain, absent := fun haccept => ⟨(h.absent haccept).1, .inr rfl⟩
      down := fun _ => .inl (h.starting hmain) }
  | setRunning hmain =>
    have haccept := hpresent (by simp [hmain]) (by simp [hmain, MainPhase.down])
    refine { h with
      starting := ?_, absent := fun habsent => absurd habsent haccept, down := ?_ } <;>
      cases s.master <;> simp [MainPhase.down]
  | setBalancer hmain | spawn hmain =>
    have haccept := hpresent (by simp [hmain]) (by simp [hmain, MainPhase.down])
    exact { h with
      starting := by simp, absent := fun habsent => absurd habsent haccept
      down := by simp [MainPhase.down] }
  | check hmain =>
    have haccept := hpresent (by simp [hmain]) (by simp [hmain, MainPhase.down])
    have hlate : s.running = false → 2 ≤ s.stop.rank := fun hcleared => by
      by_contra hearly
      have hrunning := hflag.running.mpr ⟨by simp [hmain, MainPhase.up], by omega⟩
      exact absurd (hcleared.symm.trans hrunning) Bool.false_ne_true
    refine { h with
      starting := ?_, absent := fun habsent => absurd habsent haccept, down := ?_ }
    · cases s.running <;> simp
    · rcases hrunning : s.running with _ | _
      · exact fun _ => .inr (hlate hrunning)
      · simp [MainPhase.down]
  | join hmain _ | destroy hmain =>
    have hdown : s.main.down = true := by rw [hmain]; rfl
    refine { h with
      starting := ?_, absent := fun haccept => ⟨(h.absent haccept).1, .inr ?_⟩
      down := fun _ => h.down hdown } <;>
      cases s.balancer.joinable <;> simp [MainPhase.down]

theorem AcceptPhase.shutDown_cases (phase : AcceptPhase) : phase.shutDown = phase ∨
    ∃ w, phase = .starting w ∧ phase.shutDown = .starting w.shutDown := by
  cases phase with
  | starting w => exact .inr ⟨w, rfl, rfl⟩
  | absent | looping | accepting | recording _ | exited => exact .inl rfl

/-- `Stop` goes on before it stops the server, or after that. -/
theorem ServerInv.advance (h : ServerInv s) (haccept : s'.accept = s.accept)
    (hworkers : s'.workers = s.workers) (hserver : s'.serverRunning = s.serverRunning)
    (hlistening : s'.listening = s.listening) (hrank : s.stop.rank ≤ s'.stop.rank)
    (hwhere : s'.stop.rank ≤ 4 ∨ 9 ≤ s.stop.rank)
    (hpresent : 1 ≤ s'.stop.rank → s.accept ≠ .absent)
    (hmain : s'.main = s.main ∨ s.main = .asleep ∧ s'.main = .checking) : ServerInv s' := by
  have hstarting : s'.main = .starting ↔ s.main = .starting := by
    rcases hmain with hmain | ⟨hmain, hmain'⟩
    · rw [hmain]
    · simp [hmain, hmain']
  have hdown : s'.main.down = s.main.down := by
    rcases hmain with hmain | ⟨hmain, hmain'⟩
    · rw [hmain]
    · rw [hmain, hmain']
      rfl
  constructor
  · rw [haccept, hstarting]
    exact h.starting
  · rw [haccept, hworkers, hstarting, hdown]
    exact h.absent
  · rw [haccept]
    exact h.pending
  · rw [haccept, hdown]
    exact fun hd => (h.down hd).imp_right fun htwo => Nat.le_trans htwo hrank
  · rw [haccept]
    exact hpresent
  · rw [hserver, haccept, h.server]
    exact and_congr_right fun _ => by omega
  · rw [hlistening]
    exact fun hsix => h.listening (by omega)
  · rw [hworkers]
    exact fun hseven => h.shut (by omega)
  · rw [haccept]
    exact fun height => h.accepted (by omega)
  · rw [hworkers]
    exact fun hnine => h.left (by omega)

theorem ServerInv.stop (h : ServerInv s) (hflag : FlagInv s) (hstep : StopStep s s') :
    ServerInv s' := by
  cases hstep with
  | poll hstop _ =>
    exact h.advance rfl rfl rfl rfl (by simp [hstop, StopPhase.rank]) (.inl (by simp [StopPhase.rank]))
      (by simp [StopPhase.rank]) (.inl rfl)
  | test hstop =>
    by_cases hrunning : s.running = true
    · have hup := (hflag.running.mp hrunning).1
      have haccept : s.accept ≠ .absent := fun habsent => by
        rcases (h.absent habsent).2 with hmain | hmain
        · rw [hmain] at hup
          cases hup
        · rw [s.main.not_down_of_up hup] at hmain
          cases hmain
      exact h.advance rfl rfl rfl rfl (by simp [hstop, StopPhase.rank])
        (.inl (by simp [hrunning, StopPhase.rank])) (fun _ => haccept) (.inl rfl)
    · exact h.advance rfl rfl rfl rfl (by simp [hstop, StopPhase.rank])
        (.inl (by simp [hrunning, StopPhase.rank])) (by simp [hrunning, StopPhase.rank]) (.inl rfl)
  | clear hstop | unflag hstop =>
    exact h.advance rfl rfl rfl rfl (by simp [hstop, StopPhase.rank]) (.inl (by simp [StopPhase.rank]))
      (fun _ => h.present (by simp [hstop, StopPhase.rank])) (.inl rfl)
  | notify hstop =>
    refine h.advance rfl rfl rfl rfl (by simp [hstop, StopPhase.rank]) (.inl (by simp [StopPhase.rank]))
      (fun _ => h.present (by simp [hstop, StopPhase.rank])) ?_
    by_cases hmain : s.main = .asleep
    · exact .inr ⟨hmain, if_pos hmain⟩
    · exact .inl (if_neg hmain)
  | testBalancer hstop =>
    refine h.advance rfl rfl rfl rfl ?_ (.inr (by simp [hstop, StopPhase.rank]))
      (fun _ => h.present (by simp [hstop, StopPhase.rank])) (.inl rfl)
    cases s.balancer.joinable <;> simp [hstop, StopPhase.rank]
  | joinBalancer hstop _ | release hstop =>
    exact h.advance rfl rfl rfl rfl (by simp [hstop, StopPhase.rank])
      (.inr (by simp [hstop, StopPhase.rank])) (fun _ => h.present (by simp [hstop, StopPhase.rank]))
      (.inl rfl)

theorem ServerInv.serverStop (h : ServerInv s) (hstep : ServerStopStep s s') : ServerInv s' := by
  have hlate : ∀ phase : StopPhase, 2 ≤ phase.rank → s.main.down = true →
      s.accept = .absent ∨ 2 ≤ phase.rank := fun _ htwo _ => .inr htwo
  cases hstep with
  | shut hstop =>
    have hrank : s.stop.rank = 4 := by rw [hstop]; rfl
    have hpresent := h.present (by omega)
    rw [if_pos (h.server.mpr ⟨hpresent, Nat.le_of_eq hrank⟩)]
    exact { h with
      down := hlate .unlistening (by decide), present := fun _ => hpresent, server := by simp [StopPhase.rank]
      listening := by simp [StopPhase.rank], shut := by simp [StopPhase.rank]
      accepted := by simp [StopPhase.rank], left := by simp [StopPhase.rank] }
  | unlisten hstop =>
    have hrank : s.stop.rank = 5 := by rw [hstop]; rfl
    exact { h with
      down := hlate .closing (by decide), present := fun _ => h.present (by omega)
      server := h.server.trans (and_congr_right fun _ => by
        rw [hrank]
        exact (by decide : 5 ≤ 4 ↔ 6 ≤ 4))
      listening := fun _ => rfl, shut := by simp [StopPhase.rank]
      accepted := by simp [StopPhase.rank], left := by simp [StopPhase.rank] }
  | joinAccept hstop hexited =>
    have hrank : s.stop.rank = 7 := by rw [hstop]; rfl
    exact { h with
      down := hlate .joiningWorkers (by decide), present := fun _ => h.present (by omega)
      server := h.server.trans (and_congr_right fun _ => by
        rw [hrank]
        exact (by decide : 7 ≤ 4 ↔ 8 ≤ 4))
      listening := fun _ => h.listening (by omega), shut := fun _ => h.shut (by omega)
      accepted := fun _ => hexited, left := by simp [StopPhase.rank] }
  | joinWorkers hstop hgone =>
    have hrank : s.stop.rank = 8 := by rw [hstop]; rfl
    exact { h with
      down := hlate .testingBalancer (by decide), present := fun _ => h.present (by omega)
      server := h.server.trans (and_congr_right fun _ => by
        rw [hrank]
        exact (by decide : 8 ≤ 4 ↔ 9 ≤ 4))
      listening := fun _ => h.listening (by omega), shut := fun _ => h.shut (by omega)
      accepted := fun _ => h.accepted (by omega), left := fun _ => hgone }
  | close hstop =>
    have hrank : s.stop.rank = 6 := by rw [hstop]; rfl
    have habsent : s.accept ≠ .absent := h.present (by omega)
    have hshutDown := s.accept.shutDown_cases
    have hstarting := h.starting
    have hpending := h.pending
    have hserver := h.server
    have hlistening := h.listening
    constructor <;> grind [StopPhase.rank, Worker.shutDown, Worker.Unblocked]

/-- The accept loop goes on, and any worker that it starts is at the test of `running_`. -/
theorem ServerInv.goesOn (h : ServerInv s) {phase : AcceptPhase} {workers : List Worker}
    {backlog : List (ℕ × Bool)} (hpresent : s.accept ≠ .absent) (hrunning : s.accept ≠ .exited)
    (hphase : phase ≠ .absent)
    (hpending : ∀ w, phase = .recording w ∨ phase = .starting w → w.phase = .looping)
    (hworkers : ∀ w ∈ workers, w ∈ s.workers ∨ w.phase = .looping) :
    ServerInv { s with accept := phase, workers, backlog } := by
  have hrank : s.stop.rank ≤ 7 := by
    by_contra hrank
    exact hrunning (h.accepted (by omega))
  constructor
  · exact fun hmain => absurd (h.starting hmain) hpresent
  · exact fun habsent => absurd habsent hphase
  · exact hpending
  · exact fun hmain => .inr ((h.down hmain).resolve_left hpresent)
  · exact fun _ => hphase
  · exact h.server.trans (and_congr_left fun _ => iff_of_true hpresent hphase)
  · exact h.listening
  · exact fun hseven w hw => (hworkers w hw).elim (h.shut hseven w) .inl
  · exact fun height => absurd (Nat.le_trans height hrank) (by decide)
  · exact fun hnine => absurd (Nat.le_trans hnine hrank) (by decide)

theorem ServerInv.accept (h : ServerInv s) (hstep : AcceptStep s s') : ServerInv s' := by
  have hsame : ∀ w ∈ s.workers, w ∈ s.workers ∨ w.phase = .looping := fun _ => .inl
  cases hstep with
  | test haccept =>
    refine h.goesOn (by simp [haccept]) (by simp [haccept]) ?_ ?_ hsame <;> split_ifs <;> simp
  | accept haccept _ _ =>
    refine h.goesOn (by simp [haccept]) (by simp [haccept]) (by simp) ?_ hsame
    rintro w (hw | hw) <;> cases hw
    rfl
  | stopped haccept _ _ =>
    exact h.goesOn (by simp [haccept]) (by simp [haccept]) (by simp) (by simp) hsame
  | record haccept =>
    refine h.goesOn (by simp [haccept]) (by simp [haccept]) (by simp) ?_ hsame
    rintro w (hw | hw) <;> cases hw
    exact h.pending _ (.inl haccept)
  | start haccept =>
    refine h.goesOn (by simp [haccept]) (by simp [haccept]) (by simp) (by simp) fun w hw => ?_
    rcases List.mem_append.mp hw with hw | hw
    · exact .inl hw
    · rw [List.mem_singleton.mp hw]
      exact .inr (h.pending _ (.inr haccept))

/-- One worker goes on. -/
theorem ServerInv.replace (h : ServerInv s) {l₁ l₂ : List Worker} {w w' : Worker}
    (hworkers : s.workers = l₁ ++ w :: l₂) (hphase : w.phase ≠ .left)
    (hshut : 7 ≤ s.stop.rank → w.Unblocked → w'.Unblocked) :
    ServerInv { s with workers := l₁ ++ w' :: l₂ } := by
  have hmem : w ∈ s.workers := by simp [hworkers]
  have hother : ∀ w₁ ∈ l₁ ++ w' :: l₂, w₁ = w' ∨ w₁ ∈ s.workers := by
    intro w₁ h₁
    simp only [hworkers, List.mem_append, List.mem_cons] at h₁ ⊢
    tauto
  refine { h with absent := fun habsent => ?_, shut := fun hrank w₁ h₁ => ?_,
                  left := fun hrank => absurd (h.left hrank w hmem) hphase }
  · rw [(h.absent habsent).1] at hmem
    exact absurd hmem List.not_mem_nil
  · rcases hother w₁ h₁ with rfl | h₁
    · exact hshut hrank (h.shut hrank w hmem)
    · exact h.shut hrank w₁ h₁

theorem ServerInv.worker (h : ServerInv s) {l₁ l₂ : List Worker} {w w' : Worker}
    (hworkers : s.workers = l₁ ++ w :: l₂) (hstep : WorkerStep s.serverRunning w w') :
    ServerInv { s with workers := l₁ ++ w' :: l₂ } := by
  have hstopped : 7 ≤ s.stop.rank → s.serverRunning = false := fun hrank => by
    rw [← Bool.not_eq_true, h.server]
    omega
  have hphase : w.phase ≠ .left := by
    cases hstep with
    | test hphase | receive hphase _ | hangUp hphase _ | reply hphase _ | block hphase _
    | sendFails hphase | breakOff hphase _ => simp [hphase]
  refine h.replace hworkers hphase fun hrank hw => ?_
  unfold Worker.Unblocked at hw ⊢
  cases hstep with
  | test _ => simp [hstopped hrank]
  | receive hphase _ | block hphase _ => simpa [hphase] using hw
  | hangUp _ _ | sendFails _ | breakOff _ _ => exact .inr (.inl rfl)
  | reply _ _ => exact .inl rfl

theorem ServerInv.outside (h : ServerInv s) (hstep : OutsideStep s s') : ServerInv s' := by
  cases hstep with
  | takes hworkers hphase _ =>
    exact h.replace hworkers (by simp [hphase]) fun _ _ => .inl rfl
  | signal | round _ _ | unblock _ => exact { h with }
  | wake hasleep =>
    refine { h with starting := by simp, absent := fun haccept => ?_, down := by simp [MainPhase.down] }
    have hmain := (h.absent haccept).2
    simp [hasleep, MainPhase.down] at hmain
  | acceptFails haccept =>
    refine h.goesOn (by simp [haccept]) (by simp [haccept]) ?_ ?_ fun _ => .inl <;>
      split_ifs <;> simp

theorem BalancerInv.main (h : BalancerInv s) (hserver : ServerInv s) (hstep : MainStep s s') :
    BalancerInv s' := by
  have habsent := hserver.absent
  obtain ⟨hjoinable, hunstarted, hexited, haborted, hmaster⟩ := h
  cases hstep <;> constructor <;> grind [MainPhase.down, BalancerPhase.joinable]

theorem BalancerInv.stop (h : BalancerInv s) (hflag : FlagInv s) (hstep : StopStep s s') :
    BalancerInv s' := by
  have hfinished := hflag.finished
  obtain ⟨hjoinable, hunstarted, hexited, haborted, hmaster⟩ := h
  cases hstep <;> constructor <;> grind [BalancerPhase.joinable]

theorem BalancerInv.serverStop (h : BalancerInv s) (hstep : ServerStopStep s s') : BalancerInv s' := by
  have hshutDown := s.accept.shutDown_cases
  obtain ⟨hjoinable, hunstarted, hexited, haborted, hmaster⟩ := h
  cases hstep <;> constructor <;> grind

theorem BalancerInv.balancer (h : BalancerInv s) (hstep : BalancerStep s s') : BalancerInv s' := by
  obtain ⟨hjoinable, hunstarted, hexited, haborted, hmaster⟩ := h
  cases hstep <;> constructor <;> grind [BalancerPhase.joinable]

theorem BalancerInv.accept (h : BalancerInv s) (hstep : AcceptStep s s') : BalancerInv s' := by
  obtain ⟨hjoinable, hunstarted, hexited, haborted, hmaster⟩ := h
  cases hstep <;> constructor <;> grind

theorem BalancerInv.outside (h : BalancerInv s) (hstep : OutsideStep s s') : BalancerInv s' := by
  obtain ⟨hjoinable, hunstarted, hexited, haborted, hmaster⟩ := h
  cases hstep <;> constructor <;> grind [BalancerPhase.joinable]

/-- Every step of a run keeps the invariant. -/
theorem Inv.step (h : Inv s) (hstep : Step s s') : Inv s' := by
  obtain ⟨hflag, hserver, hbalancer⟩ := h
  cases hstep with
  | outside hstep => exact ⟨hflag.outside hstep, hserver.outside hstep, hbalancer.outside hstep⟩
  | own hstep =>
    cases hstep with
    | main hstep => exact ⟨hflag.main hstep, hserver.main hflag hstep, hbalancer.main hserver hstep⟩
    | stop hstep => exact ⟨hflag.stop hstep, hserver.stop hflag hstep, hbalancer.stop hflag hstep⟩
    | serverStop hstep =>
      exact ⟨hflag.serverStop hstep, hserver.serverStop hstep, hbalancer.serverStop hstep⟩
    | balancer hstep =>
      refine ⟨?_, ?_, hbalancer.balancer hstep⟩
      · cases hstep <;> exact { hflag with }
      · cases hstep <;> exact { hserver with }
    | accept hstep =>
      refine ⟨?_, hserver.accept hstep, hbalancer.accept hstep⟩
      cases hstep <;> exact { hflag with }
    | worker hworkers hstep =>
      exact ⟨{ hflag with }, hserver.worker hworkers hstep, { hbalancer with }⟩
    | pipe _ _ => exact ⟨{ hflag with }, { hserver with }, { hbalancer with }⟩

theorem Run.inv {master : Bool} {backlog : List (ℕ × Bool)} {own outside : ℕ}
    (h : Run (.init master backlog) own outside s) : Inv s :=
  h.keeps (inv_init master backlog) fun _ _ => Inv.step

/-- At every moment of every run: during the shutdown, after a lost SIGINT, and while the process exits.
A handler that runs finds the storage as it was opened. It is closed by `Stop` when the accept loop and
all workers have ended, or by the destructor, which waits for `Stop` to return. -/
theorem handling_storage {master : Bool} {backlog : List (ℕ × Bool)} {own outside : ℕ}
    (h : Run (.init master backlog) own outside s) :
    (∀ w ∈ s.workers, w.phase = .handling → s.storage = true) ∧
      (s.storage = false → (s.accept = .absent ∨ s.accept = .exited) ∧
        (∀ w ∈ s.workers, w.phase = .left) ∧ (s.stop = .ignored ∨ s.stop = .returned)) ∧
      (s.main = .destroying → s.stop = .ignored ∨ s.stop = .returned) := by
  have hinv := h.inv
  have hclosed : s.storage = false → (s.accept = .absent ∨ s.accept = .exited) ∧
      (∀ w ∈ s.workers, w.phase = .left) ∧ (s.stop = .ignored ∨ s.stop = .returned) := by
    intro hclosed
    by_cases hreturned : s.stop = .returned
    · have hrank : s.stop.rank = 12 := by rw [hreturned]; rfl
      exact ⟨.inr (hinv.accepted (by omega)), hinv.left (by omega), .inr hreturned⟩
    have hmain : s.main = .exited ∨ s.main = .aborted :=
      (hinv.storage.mp hclosed).resolve_left hreturned
    -- `Stop` was ignored and `Run` has returned, so `Start` had failed
    have hignored : s.stop = .ignored := (hinv.finished (.inr hmain)).resolve_right hreturned
    have hdown : s.main.down = true := by rcases hmain with hmain | hmain <;> rw [hmain] <;> rfl
    have habsent : s.accept = .absent := (hinv.down hdown).resolve_right (by rw [hignored]; decide)
    refine ⟨.inl habsent, ?_, .inl hignored⟩
    rw [(hinv.absent habsent).1]
    exact fun w hw => absurd hw List.not_mem_nil
  refine ⟨fun w hw hhandling => ?_, hclosed, fun hmain => hinv.finished (.inl hmain)⟩
  by_contra hstorage
  have hleft := (hclosed (by simpa using hstorage)).2.1 w hw
  cases hhandling.symm.trans hleft

/-- A worker serves a client before `Run` has set `running_`. -/
theorem handling_storage_serving : ∃ s : Process, s.main = .started ∧
    (∃ w ∈ s.workers, w.phase = .handling) ∧ s.storage = true := by
  have hstarted := Run.own (Run.refl (s := .init false [(1, false)])) rfl (.main (.start rfl))
  have haccepted := (((hstarted.own rfl (.accept (.test rfl))).own rfl
    (.accept (.accept rfl rfl rfl))).own rfl (.accept (.record rfl))).own rfl (.accept (.start rfl))
  have hreceiving := haccepted.own rfl (@OwnStep.worker _ [] [] _ _ rfl (.test rfl))
  have hhandling := hreceiving.own rfl (@OwnStep.worker _ [] [] _ _ rfl (.receive rfl rfl))
  exact ⟨_, rfl, ⟨_, List.mem_singleton_self _, rfl⟩,
    (handling_storage hhandling).1 _ (List.mem_singleton_self _) rfl⟩

/-! ## How a process dies -/

/-- SIGPIPE has killed the process: a response or a request of the balancer has met a connection that is
closed or shut down. -/
structure Killed (s : Process) : Prop where
  death : s.death = some .sigpipe
  cause : (∃ w ∈ s.workers, w.Pipes) ∨ s.balancer = .working ∧ s.master = true

/-- An exception has left a round of the balancer: `std::terminate`. -/
structure Terminated (s : Process) : Prop where
  death : s.death = some .terminate
  cause : s.balancer = .working
  master : s.master = true

/-- What the step was that a process has died of. -/
theorem Step.death (hinv : Inv s) (hdeath : s.death = none) (hstep : Step s s') :
    s'.death = none ∨ Killed s' ∨ Terminated s' := by
  have hmaster : s.balancer = .working → s.master = true :=
    fun hworking => hinv.master (.inr (.inr (by simp [hworking])))
  cases hstep with
  | outside hstep => cases hstep <;> exact .inl hdeath
  | own hstep =>
    cases hstep with
    | main hstep | stop hstep | serverStop hstep | accept hstep => cases hstep <;> exact .inl hdeath
    | worker _ _ => exact .inl hdeath
    | pipe hw hpipes => exact .inr (.inl ⟨rfl, .inl ⟨_, hw, hpipes⟩⟩)
    | balancer hstep =>
      cases hstep with
      | leave _ _ | finish _ | block _ => exact .inl hdeath
      | throw h => exact .inr (.inr ⟨rfl, h, hmaster h⟩)
      | pipe h => exact .inr (.inl ⟨rfl, .inr ⟨h, hmaster h⟩⟩)

theorem Run.death {master : Bool} {backlog : List (ℕ × Bool)} {own outside : ℕ}
    (h : Run (.init master backlog) own outside s) : s.death = none ∨ Killed s ∨ Terminated s :=
  (h.keeps_of_alive (P := fun s => Inv s ∧ (s.death = none ∨ Killed s ∨ Terminated s))
    ⟨inv_init master backlog, .inl rfl⟩ fun _ _ h₁ halive hstep =>
      ⟨h₁.1.step hstep, hstep.death h₁.1 (Process.death_of_alive halive)⟩).2

/-! ## Where a process stops -/

/-- The process is over, or none of its own threads can take a step. -/
def Stuck (s : Process) : Prop := s.over = true ∨ ∀ s', ¬OwnStep s s'

/-- A worker whose connection is shut down, after the server has stopped, can go on. -/
theorem WorkerStep.exists {w : Worker} (hleft : w.phase ≠ .left) (hshut : w.Unblocked)
    (serverRunning : Bool) : ∃ w', WorkerStep serverRunning w w' := by
  have hshut' : w.phase = .receiving ∨ w.phase = .sending → w.shut = true := fun hphase => by
    rcases hshut with hlooping | hgone | hshut
    · simp [hlooping] at hphase
    · exact absurd hgone hleft
    · exact hshut
  cases hphase : w.phase with
  | looping => exact ⟨_, .test hphase⟩
  | receiving => exact ⟨_, .hangUp hphase (.inl (hshut' (.inl hphase)))⟩
  | handling => exact ⟨_, .sendFails hphase⟩
  | sending => exact ⟨_, .breakOff hphase (.inl (hshut' (.inr hphase)))⟩
  | left => exact absurd hphase hleft

section Stuck

variable (hstuck : ∀ s', ¬OwnStep s s')

include hstuck

/-- Where `main` can stop. -/
theorem main_of_stuck : s.main = .asleep ∨
    (s.main = .joining ∧ s.stop ≠ .ignored ∧ s.stop ≠ .returned) ∨ s.main = .exited ∨
      s.main = .aborted := by
  have hno : ∀ s', ¬MainStep s s' := fun s' h => hstuck s' (.main h)
  cases hmain : s.main with
  | asleep | exited | aborted => simp
  | starting => exact absurd (.start hmain) (hno _)
  | started => exact absurd (.setRunning hmain) (hno _)
  | flagging => exact absurd (.setBalancer hmain) (hno _)
  | spawning => exact absurd (.spawn hmain) (hno _)
  | checking => exact absurd (.check hmain) (hno _)
  | destroying => exact absurd (.destroy hmain) (hno _)
  | joining =>
    refine .inr (.inl ⟨rfl, fun hstop => ?_, fun hstop => ?_⟩)
    · exact hno _ (.join hmain (.inl hstop))
    · exact hno _ (.join hmain (.inr hstop))

/-- Where `stop_thread` can stop once SIGINT has come: `Stop` returns from every part of
`RpcServer::Stop`, and waits for ever only for a balancer whose flag was set after it was cleared, or
whose `Send` does not return. -/
theorem stop_of_stuck (hinv : Inv s) (hsignal : s.signalled = true) :
    s.stop = .ignored ∨ s.stop = .returned ∨
      (s.stop = .joiningBalancer ∧ (s.balancer = .sleeping ∧ s.balancerRunning = true ∨
        s.balancer = .blocked)) := by
  have hno : ∀ s', ¬StopStep s s' := fun s' h => hstuck s' (.stop h)
  cases hstop : s.stop with
  | ignored | returned => simp
  | polling => exact absurd (.poll hstop hsignal) (hno _)
  | testing => exact absurd (.test hstop) (hno _)
  | clearing => exact absurd (.clear hstop) (hno _)
  | notifying => exact absurd (.notify hstop) (hno _)
  | unflagging => exact absurd (.unflag hstop) (hno _)
  | shutting => exact absurd (.serverStop (.shut hstop)) (hstuck _)
  | unlistening => exact absurd (.serverStop (.unlisten hstop)) (hstuck _)
  | closing => exact absurd (.serverStop (.close hstop)) (hstuck _)
  | testingBalancer => exact absurd (.testBalancer hstop) (hno _)
  | releasing => exact absurd (.release hstop) (hno _)
  | joiningAccept =>
    have hrank : s.stop.rank = 7 := by rw [hstop]; rfl
    have hserver : s.serverRunning = false := by
      rw [← Bool.not_eq_true, hinv.server]
      omega
    -- the listening socket is closed and the flag is off, so the accept thread can always go on
    cases haccept : s.accept with
    | absent => exact absurd haccept (hinv.present (by omega))
    | looping => exact absurd (.accept (.test haccept)) (hstuck _)
    | accepting =>
      exact absurd (.accept (.stopped haccept (hinv.listening (by omega)) hserver)) (hstuck _)
    | recording w => exact absurd (.accept (.record haccept)) (hstuck _)
    | starting w => exact absurd (.accept (.start haccept)) (hstuck _)
    | exited => exact absurd (.serverStop (.joinAccept hstop haccept)) (hstuck _)
  | joiningWorkers =>
    have hrank : s.stop.rank = 8 := by rw [hstop]; rfl
    by_cases hleft : ∀ w ∈ s.workers, w.phase = .left
    · exact absurd (.serverStop (.joinWorkers hstop hleft)) (hstuck _)
    · -- a worker that has not left has a socket that is shut, and no call blocks on it
      push Not at hleft
      obtain ⟨w, hw, hphase⟩ := hleft
      obtain ⟨l₁, l₂, hworkers⟩ := List.append_of_mem hw
      obtain ⟨w', hstep⟩ := WorkerStep.exists hphase (hinv.shut (by omega) w hw) s.serverRunning
      exact absurd (.worker hworkers hstep) (hstuck _)
  | joiningBalancer =>
    have hjoinable := hinv.joinable hstop
    cases hbalancer : s.balancer with
    | absent | joined => rw [hbalancer] at hjoinable; cases hjoinable
    | ended => exact absurd (.joinBalancer hstop hbalancer) (hno _)
    | working => exact absurd (.balancer (.finish hbalancer)) (hstuck _)
    | blocked => exact .inr (.inr ⟨rfl, .inr rfl⟩)
    | sleeping =>
      refine .inr (.inr ⟨rfl, .inl ⟨rfl, ?_⟩⟩)
      by_contra hflag
      exact hstuck _ (.balancer (.leave hbalancer (by simpa using hflag)))

end Stuck

/-- The process has exited, and nothing of it is left behind. -/
structure Clean (s : Process) : Prop where
  main : s.main = .exited
  balancer : s.balancer.joinable = false
  accept : s.accept = .absent ∨ s.accept = .exited
  workers : ∀ w ∈ s.workers, w.phase = .left
  storage : s.storage = false

/-- SIGINT is lost: `Stop` has returned at once, `main` sleeps, and the server goes on. -/
structure Lost (s : Process) : Prop where
  main : s.main = .asleep
  stop : s.stop = .ignored
  running : s.running = true
  server : s.serverRunning = true
  storage : s.storage = true

/-- `Stop` waits for a balancer that nobody will stop, and `main` for `Stop`. -/
structure Hung (s : Process) : Prop where
  main : s.main = .joining
  stop : s.stop = .joiningBalancer
  balancer : s.balancer = .sleeping
  flag : s.balancerRunning = true
  master : s.master = true

/-- `Stop` waits for a balancer that waits for a DataNode to read, and `main` for `Stop`. -/
structure Blocked (s : Process) : Prop where
  main : s.main = .joining
  stop : s.stop = .joiningBalancer
  balancer : s.balancer = .blocked
  master : s.master = true

/-- `~RaftNode` has destroyed a thread that was never joined: `std::terminate`. -/
structure Aborted (s : Process) : Prop where
  main : s.main = .aborted
  balancer : s.balancer.joinable = true
  master : s.master = true

theorem Inv.clean (h : Inv s) (hmain : s.main = .exited) : Clean s := by
  have hstorage : s.storage = false := h.storage.mpr (.inr (.inl hmain))
  rcases h.finished (.inr (.inl hmain)) with hstop | hstop
  · have habsent : s.accept = .absent :=
      (h.down (by rw [hmain]; rfl)).resolve_right (by rw [hstop]; decide)
    refine ⟨hmain, h.exited hmain, .inl habsent, ?_, hstorage⟩
    rw [(h.absent habsent).1]
    exact fun w hw => absurd hw List.not_mem_nil
  · have hrank : s.stop.rank = 12 := by rw [hstop]; rfl
    exact ⟨hmain, h.exited hmain, .inr (h.accepted (by omega)), h.left (by omega), hstorage⟩

theorem Inv.aborted' (h : Inv s) (hmain : s.main = .aborted) : Aborted s := by
  have hjoinable := h.aborted hmain
  refine ⟨hmain, hjoinable, h.master (.inr (.inr fun habsent => ?_))⟩
  rw [habsent] at hjoinable
  cases hjoinable

theorem Inv.lost (h : Inv s) (hmain : s.main = .asleep) (hstop : s.stop = .ignored) :
    Lost s ∧ s.accept ≠ .absent := by
  have haccept : s.accept ≠ .absent := fun habsent => by
    have hearly := (h.absent habsent).2
    rw [hmain] at hearly
    simp [MainPhase.down] at hearly
  have hrunning : s.running = true := by
    rw [h.running, hmain, hstop]
    decide
  have hserver : s.serverRunning = true := by
    rw [h.server, hstop]
    exact ⟨haccept, by decide⟩
  have hstorage : s.storage = true := by
    rw [← Bool.not_eq_false, h.storage, hmain, hstop]
    simp
  exact ⟨⟨hmain, hstop, hrunning, hserver, hstorage⟩, haccept⟩

/-- `main` does not sleep once `notify_all` has been called: the wake-up is never lost. -/
theorem Inv.not_asleep (h : Inv s) (hrank : 3 ≤ s.stop.rank) : s.main ≠ .asleep := fun hmain => by
  rcases h.asleep hmain with hrunning | hstop
  · have := (h.running.mp hrunning).2
    omega
  · rw [hstop] at hrank
    exact absurd hrank (by decide)

/-- A process that has been told to stop, has not died and cannot go on is at one of five ends. -/
theorem Stuck.outcome (hstuck : Stuck s) (h : Inv s) (hsignal : s.signalled = true)
    (hdeath : s.death = none) :
    Clean s ∨ (Lost s ∧ s.accept ≠ .absent) ∨ Blocked s ∨ Hung s ∨ Aborted s := by
  have hends : s.main = .exited ∨ s.main = .aborted ∨ ∀ s', ¬OwnStep s s' := by
    rcases hstuck with hover | hstuck
    · simp only [Process.over, hdeath, Option.isSome_none, Bool.false_or, Bool.or_eq_true,
        decide_eq_true_eq] at hover
      exact hover.imp_right .inl
    · exact .inr (.inr hstuck)
  rcases hends with hmain | hmain | hstuck
  · exact .inl (h.clean hmain)
  · exact .inr (.inr (.inr (.inr (h.aborted' hmain))))
  rcases main_of_stuck hstuck with hmain | ⟨hmain, hignored, hreturned⟩ | hmain | hmain
  · rcases stop_of_stuck hstuck h hsignal with hstop | hstop | ⟨hstop, -⟩
    · exact .inr (.inl (h.lost hmain hstop))
    · exact absurd hmain (h.not_asleep (by rw [hstop]; decide))
    · exact absurd hmain (h.not_asleep (by rw [hstop]; decide))
  · obtain ⟨hstop, hbalancer⟩ :=
      ((stop_of_stuck hstuck h hsignal).resolve_left hignored).resolve_left hreturned
    have hmaster : s.master = true := h.master (.inr (.inr fun habsent => by
      rw [habsent] at hbalancer
      simp at hbalancer))
    rcases hbalancer with ⟨hsleeping, hflag⟩ | hblocked
    · exact .inr (.inr (.inr (.inl ⟨hmain, hstop, hsleeping, hflag, hmaster⟩)))
    · exact .inr (.inr (.inl ⟨hmain, hstop, hblocked, hmaster⟩))
  · exact .inl (h.clean hmain)
  · exact .inr (.inr (.inr (.inr (h.aborted' hmain))))

/-! ## What the test of `running_` decides -/

/-- `Stop` has passed its test when the start-up was complete. -/
structure Stopping (s : Process) : Prop where
  main : s.main = .checking ∨ s.main = .asleep ∨ s.main = .joining ∨ s.main = .destroying ∨
    s.main = .exited
  stop : 1 ≤ s.stop.rank
  flag : 4 ≤ s.stop.rank → s.balancerRunning = false
  balancer : 11 ≤ s.stop.rank → s.balancer.joinable = false

theorem Stopping.step (h : Stopping s) (hinv : Inv s) (hstep : Step s s') : Stopping s' := by
  have hfinished := hinv.finished
  obtain ⟨hmain, hstop, hflag, hbalancer⟩ := h
  cases hstep with
  | outside hstep => cases hstep <;> constructor <;> grind [BalancerPhase.joinable]
  | own hstep =>
    cases hstep with
    | main hstep => cases hstep <;> constructor <;> grind [StopPhase.rank]
    | stop hstep => cases hstep <;> constructor <;> grind [StopPhase.rank, BalancerPhase.joinable]
    | serverStop hstep => cases hstep <;> constructor <;> grind [StopPhase.rank]
    | balancer hstep => cases hstep <;> constructor <;> grind [BalancerPhase.joinable]
    | accept hstep => cases hstep <;> exact ⟨hmain, hstop, hflag, hbalancer⟩
    | worker _ _ | pipe _ _ => exact ⟨hmain, hstop, hflag, hbalancer⟩

theorem Run.trans {s₁ : Process} {own outside own' outside' : ℕ} (h : Run s own outside s₁)
    (h' : Run s₁ own' outside' s') : Run s (own + own') (outside + outside') s' := by
  induction h' with
  | refl => exact h
  | own _ halive hstep ih => exact .own ih halive hstep
  | outside _ halive hstep ih => exact .outside ih halive hstep

/-- Every process can go on until it is stuck. -/
theorem exists_stuck (s : Process) : ∃ own s', Run s own 0 s' ∧ Stuck s' := by
  generalize hweight : s.weight = n
  induction n using Nat.strongRecOn generalizing s with
  | _ n ih =>
    by_cases hstuck : Stuck s
    · exact ⟨0, s, .refl, hstuck⟩
    · unfold Stuck at hstuck
      push Not at hstuck
      obtain ⟨hover, s₁, hstep⟩ := hstuck
      have halive : s.over = false := by simpa using hover
      obtain ⟨own, s', hrun, hstuck'⟩ := ih _ (hweight ▸ hstep.weight halive) s₁ rfl
      exact ⟨_, s', (Run.own .refl halive hstep).trans hrun, hstuck'⟩

end Inv

/-! ## Runs to each end -/

/-- A Master that SIGINT has reached between `running_` and `balancer_running_`, when `Stop` has cleared
both. -/
def overtakenMaster (backlog : List (ℕ × Bool)) : Process := { Process.init true backlog with
  main := .flagging, stop := .shutting, accept := .looping, signalled := true, serverRunning := true
  listening := true }

theorem run_overtakenMaster (backlog : List (ℕ × Bool)) :
    Run (.init true backlog) 7 1 (overtakenMaster backlog) := by
  have hstarted := ((Run.refl (s := .init true backlog)).own rfl (.main (.start rfl))).own rfl
    (.main (.setRunning rfl))
  have hcalled := ((hstarted.outside rfl .signal).own rfl (.stop (.poll rfl rfl))).own rfl
    (.stop (.test rfl))
  exact ((hcalled.own rfl (.stop (.clear rfl))).own rfl (.stop (.notify rfl))).own rfl
    (.stop (.unflag rfl))

/-- Both failures of the Master's start-up do happen: SIGINT comes before `balancer_running_` is set, and
the balancer starts before or after `Stop` looks for it. -/
theorem startup_race (backlog : List (ℕ × Bool)) :
    (∃ own outside s, Run (.init true backlog) own outside s ∧ Hung s) ∧
      ∃ own outside s, Run (.init true backlog) own outside s ∧ Aborted s := by
  have hstopped : Run (.init true backlog) 13 1 { overtakenMaster backlog with
      stop := .testingBalancer, accept := .exited, serverRunning := false, listening := false } := by
    have hclosed := (((run_overtakenMaster backlog).own rfl (.serverStop (.shut rfl))).own rfl
      (.serverStop (.unlisten rfl))).own rfl (.serverStop (.close rfl))
    exact ((hclosed.own rfl (.accept (.test rfl))).own rfl (.serverStop (.joinAccept rfl rfl))).own rfl
      (.serverStop (.joinWorkers rfl (by simp [overtakenMaster, Process.init])))
  constructor
  · have hspawned := ((hstopped.own rfl (.main (.setBalancer rfl))).own rfl
      (.main (.spawn rfl))).own rfl (.main (.check rfl))
    exact ⟨_, _, _, hspawned.own rfl (.stop (.testBalancer rfl)), rfl, rfl, rfl, rfl, rfl⟩
  · have hreturned := (hstopped.own rfl (.stop (.testBalancer rfl))).own rfl (.stop (.release rfl))
    have hspawned := ((hreturned.own rfl (.main (.setBalancer rfl))).own rfl
      (.main (.spawn rfl))).own rfl (.main (.check rfl))
    exact ⟨_, _, _, (hspawned.own rfl (.main (.join rfl (.inr rfl)))).own rfl (.main (.destroy rfl)),
      rfl, rfl, rfl⟩

/-- A Master whose start-up is complete, when SIGINT has come. -/
def startedMaster : Process := { Process.init true [(1, false)] with
  main := .asleep, stop := .testing, balancer := .sleeping, accept := .looping, signalled := true
  running := true, balancerRunning := true, serverRunning := true, listening := true }

theorem run_startedMaster : Run (.init true [(1, false)]) 6 1 startedMaster := by
  have hstarted := (((Run.refl (s := .init true [(1, false)])).own rfl (.main (.start rfl))).own rfl
    (.main (.setRunning rfl))).own rfl (.main (.setBalancer rfl))
  have hasleep := (hstarted.own rfl (.main (.spawn rfl))).own rfl (.main (.check rfl))
  exact (hasleep.outside rfl .signal).own rfl (.stop (.poll rfl rfl))

/-- It can still be killed: `Stop` shuts a connection down before its last response is sent. -/
theorem killed_startedMaster :
    ∃ own outside s, Run (.init true [(1, false)]) own outside s ∧ Killed s := by
  have hhandling : Run startedMaster 6 0 { startedMaster with
      accept := .looping, backlog := [], workers := [⟨.handling, 0, false, false⟩] } := by
    have haccepted := ((((Run.refl (s := startedMaster)).own rfl (.accept (.test rfl))).own rfl
      (.accept (.accept rfl rfl rfl))).own rfl (.accept (.record rfl))).own rfl (.accept (.start rfl))
    exact (haccepted.own rfl (@OwnStep.worker _ [] [] _ _ rfl (.test rfl))).own rfl
      (@OwnStep.worker _ [] [] _ _ rfl (.receive rfl rfl))
  have hunflagged := (((hhandling.own rfl (.stop (.test rfl))).own rfl (.stop (.clear rfl))).own rfl
    (.stop (.notify rfl))).own rfl (.stop (.unflag rfl))
  have hclosed := ((hunflagged.own rfl (.serverStop (.shut rfl))).own rfl
    (.serverStop (.unlisten rfl))).own rfl (.serverStop (.close rfl))
  have hpipes : Worker.Pipes ⟨.handling, 0, false, true⟩ := ⟨.inl rfl, .inl rfl⟩
  exact ⟨_, _, _,
    run_startedMaster.trans (hclosed.own rfl (.pipe (List.mem_singleton_self _) hpipes)), rfl,
    .inl ⟨_, List.mem_singleton_self _, hpipes⟩⟩

/-- Its balancer can throw. -/
theorem terminated_startedMaster :
    ∃ own outside s, Run (.init true [(1, false)]) own outside s ∧ Terminated s :=
  ⟨_, _, _, (run_startedMaster.outside rfl (.round rfl rfl)).own rfl (.balancer (.throw rfl)),
    rfl, rfl, rfl⟩

/-- And its balancer can wait for a DataNode when `Stop` joins it. -/
theorem blocked_startedMaster :
    ∃ own outside s, Run (.init true [(1, false)]) own outside s ∧ Stuck s ∧ Blocked s := by
  have hcleared : Run startedMaster 6 1 { startedMaster with
      main := .joining, stop := .shutting, balancer := .blocked, running := false
      balancerRunning := false } := by
    have hblocked := ((Run.refl (s := startedMaster)).outside rfl (.round rfl rfl)).own rfl
      (.balancer (.block rfl))
    exact ((((hblocked.own rfl (.stop (.test rfl))).own rfl (.stop (.clear rfl))).own rfl
      (.stop (.notify rfl))).own rfl (.main (.check rfl))).own rfl (.stop (.unflag rfl))
  have hjoining : Run startedMaster 13 1 { startedMaster with
      main := .joining, stop := .joiningBalancer, balancer := .blocked, accept := .exited
      running := false, balancerRunning := false, serverRunning := false, listening := false } := by
    have hclosed := ((hcleared.own rfl (.serverStop (.shut rfl))).own rfl
      (.serverStop (.unlisten rfl))).own rfl (.serverStop (.close rfl))
    exact (((hclosed.own rfl (.accept (.test rfl))).own rfl (.serverStop (.joinAccept rfl rfl))).own rfl
      (.serverStop (.joinWorkers rfl (by simp [startedMaster, Process.init])))).own rfl
      (.stop (.testBalancer rfl))
  refine ⟨_, _, _, run_startedMaster.trans hjoining, .inr fun s' hstep => ?_, rfl, rfl, rfl, rfl⟩
  cases hstep with
  | main h => cases h <;> simp_all
  | stop h | serverStop h | balancer h | accept h => cases h <;> simp_all
  | worker h _ | pipe h _ => exact absurd h (by simp [startedMaster, Process.init])

end Lifecycle

end LeKV
