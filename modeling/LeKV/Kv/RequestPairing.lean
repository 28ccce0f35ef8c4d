import LeKV.Kv.Requests

/-!
# Whose reply the Master reads

The Master sends most of its requests with the id 1 and never compares the id of a reply. On one
connection, over any sequence of its calls, `replies_paired_iff` says when each call reads the reply
to its own request.
-/

namespace LeKV

open Bytes BinaryProtocol Balancer

/-- Two boundaries of a table, as the Master's requests carry them behind two-byte lengths. -/
structure KeyRange where
  start : Bytes
  end_ : Bytes
  start_lt : start.length < 2 ^ 16
  end_lt : end_.length < 2 ^ 16

/-- A call of the Master on its DataNodes. -/
inductive MasterCall where
  | queryTabletStats (node : UInt32) (range : KeyRange)
  | scanAndTransferData (src dst : UInt32) (range : KeyRange)
  | sendDeleteRange (node : UInt32) (range : KeyRange)

/-- Make a call, and leave its result aside. -/
def MasterCall.prog : MasterCall → Balancer Unit
  | queryTabletStats node r => do let _ ← Balancer.queryTabletStats node r.start r.end_; return ()
  | scanAndTransferData src dst r => do
    let _ ← Balancer.scanAndTransferData src dst r.start r.end_; return ()
  | sendDeleteRange node r => do let _ ← Balancer.sendDeleteRange node r.start r.end_; return ()

namespace Cluster

/-- Connections just made: nothing was sent yet, every `Send` will succeed, and the replies arrive
on schedule. -/
def opened (s : Cluster) (connected : UInt32 → Bool) (arrivals : UInt32 → List ℕ) : Cluster :=
  { s with
    connections := fun node => { Connection.fresh with
      connected := connected node, arrivals := arrivals node } }

/-- One call of the Master on DataNodes whose clients have left them in the states `x.1`. -/
def call (s : Cluster) (x : (UInt32 → DataNode) × MasterCall) : Cluster :=
  (env.run x.2.prog (Master.init, { s with nodes := x.1 })).2.2

/-- A sequence of calls. -/
def calls (s : Cluster) (xs : List ((UInt32 → DataNode) × MasterCall)) : Cluster := xs.foldl call s

end Cluster

/-! ## Every request is answered -/

/-- The request fits a frame, and every DataNode handles it. -/
def Request.Answered (q : Request) : Prop :=
  FitsFrame q.payload ∧
    ∀ n, ∃ resp n', DataNode.handleBinaryRequest q.reqId q.payload n = some (resp, n')

theorem answered_put {pair : Bytes × Bytes} (h : FitsPut pair) (node reqId : UInt32) :
    Request.Answered ⟨node, reqId, kvPayload OP_PUT pair.1 pair.2⟩ := by
  obtain ⟨hkey, hfit⟩ := h
  refine ⟨?_, fun n => ⟨_, _, DataNode.handleBinaryRequest_put n reqId hkey (by omega)⟩⟩
  rw [FitsFrame, length_kvPayload]
  omega

section Ranges

variable (r : KeyRange) (node reqId : UInt32)

theorem KeyRange.fitsFrame (opcode : UInt8) : FitsFrame (rangePayload opcode r.start r.end_) := by
  have hstart := r.start_lt
  have hend := r.end_lt
  rw [FitsFrame, length_rangePayload]
  omega

theorem answered_tabletStats :
    Request.Answered ⟨node, reqId, rangePayload OP_TABLET_STATS r.start r.end_⟩ :=
  ⟨r.fitsFrame _, fun n =>
    ⟨_, _, DataNode.handleBinaryRequest_tabletStats n r.start_lt r.end_lt reqId⟩⟩

theorem answered_scanRange :
    Request.Answered ⟨node, reqId, rangePayload OP_SCAN_RANGE r.start r.end_⟩ :=
  ⟨r.fitsFrame _, fun n =>
    ⟨_, _, DataNode.handleBinaryRequest_scanRange n r.start_lt r.end_lt reqId⟩⟩

theorem answered_deleteRange :
    Request.Answered ⟨node, reqId, rangePayload OP_DELETE_RANGE r.start r.end_⟩ :=
  ⟨r.fitsFrame _, fun n =>
    ⟨_, _, DataNode.handleBinaryRequest_deleteRange n r.start_lt r.end_lt reqId⟩⟩

end Ranges

/-- Every call of the Master makes requests that are answered. -/
theorem MasterCall.requests (x : MasterCall) : Requests Request.Answered (fun _ => True) x.prog := by
  cases x with
  | queryTabletStats node r =>
    exact (queryTabletStats_requests (answered_tabletStats r node 1)).bind fun _ _ => .ret trivial
  | scanAndTransferData src dst r =>
    exact (scanAndTransferData_requests (answered_scanRange r src 1)
      fun pair hpair reqId => answered_put hpair dst reqId).bind fun _ _ => .ret trivial
  | sendDeleteRange node r =>
    exact (sendDeleteRange_requests (answered_deleteRange r node 1)).bind fun _ _ => .ret trivial

/-! ## The connection during the calls -/

section Exchange

variable {s : Cluster} {q : Request} {resp : Bytes} {n' : DataNode}

/-- A request that is sent and answered is one exchange on its connection. -/
theorem after_of_sent (hsent : (s.connections q.node).sendOutcome = ⟨true, true⟩)
    (hfit : FitsFrame q.payload)
    (hh : DataNode.handleBinaryRequest q.reqId q.payload (s.nodes q.node) = some (resp, n'))
    (timeoutMs : ℤ) :
    s.after q timeoutMs = s.setNode q.node n'
      ((s.connections q.node).exchange (packResponse q.reqId resp, timeoutMs)) := by
  have hserve : (s.nodes q.node).serve q.data = (packResponse q.reqId resp, n') :=
    serve_request hfit hh
  rw [Cluster.after, hsent, if_pos rfl, Cluster.send, hsent]
  simp only [if_true, Cluster.recvFrame, Cluster.setConnection, hserve,
    Cluster.connections_setNode_self]
  simp only [Cluster.setNode, Function.update_idem]
  rfl

/-- A request leaves the other connections alone. -/
theorem connections_after_of_ne (timeoutMs : ℤ) {node : UInt32} (hne : node ≠ q.node) :
    (s.after q timeoutMs).connections node = s.connections node := by
  have hsend : (s.send q.node q.data).connections node = s.connections node := by
    unfold Cluster.send
    dsimp only
    split_ifs <;> exact Function.update_of_ne hne _ _
  unfold Cluster.after
  split_ifs
  · exact (Function.update_of_ne hne _ _).trans hsend
  · exact hsend

end Exchange

namespace Connection

theorem sends_exchanges {c : Connection} (h : c.sends = []) (xs : List (Bytes × ℤ)) :
    (c.exchanges xs).sends = [] := by
  induction xs generalizing c with
  | nil => exact h
  | cons x xs ih =>
    apply ih (c := c.exchange x)
    show c.sends.tail = []
    rw [h, List.tail_nil]

/-- `c'` is what `c` becomes in some exchanges. -/
def Becomes (c c' : Connection) : Prop :=
  ∃ xs : List (Bytes × ℤ), (∀ x ∈ xs, IsReply x.1) ∧ c' = c.exchanges xs

theorem Becomes.refl (c : Connection) : c.Becomes c := ⟨[], by simp, rfl⟩

theorem Becomes.trans {a b c : Connection} (hab : a.Becomes b) (hbc : b.Becomes c) :
    a.Becomes c := by
  obtain ⟨xs, hxs, rfl⟩ := hab
  obtain ⟨ys, hys, rfl⟩ := hbc
  refine ⟨xs ++ ys, fun x hx => (List.mem_append.mp hx).elim (hxs x) (hys x), ?_⟩
  rw [exchanges, exchanges, exchanges, List.foldl_append]

theorem Becomes.exchange (c : Connection) {reply : Bytes} (h : IsReply reply) (timeoutMs : ℤ) :
    c.Becomes (c.exchange (reply, timeoutMs)) :=
  ⟨[(reply, timeoutMs)], by simpa using h, rfl⟩

theorem Becomes.sends {c c' : Connection} (h : c.Becomes c') (hsends : c.sends = []) :
    c'.sends = [] := by
  obtain ⟨xs, -, rfl⟩ := h
  exact sends_exchanges hsends xs

end Connection

/-- A connection on which every `Send` succeeds only goes through exchanges. -/
theorem becomes_of_requests {p : Balancer Unit}
    (hp : Requests Request.Answered (fun _ => True) p) (m : Master) (s : Cluster) (node : UInt32)
    (hsends : (s.connections node).sends = []) :
    (s.connections node).Becomes ((Cluster.env.run p (m, s)).2.2.connections node) := by
  have hstep : ∀ (q : Request) (timeoutMs : ℤ) (s' : Cluster), q.Answered →
      (s.connections node).Becomes (s'.connections node) →
      (s.connections node).Becomes ((s'.after q timeoutMs).connections node) := by
    rintro q timeoutMs s' ⟨hfit, hhandled⟩ hconn
    by_cases hne : node = q.node
    · subst hne
      obtain ⟨resp, n', hh⟩ := hhandled (s'.nodes q.node)
      have hsent : (s'.connections q.node).sendOutcome = ⟨true, true⟩ := by
        rw [Connection.sendOutcome, hconn.sends hsends]
        rfl
      rw [after_of_sent hsent hfit hh, Cluster.connections_setNode_self]
      exact hconn.trans (.exchange _ (isReply_packResponse _ _) _)
    · rw [connections_after_of_ne timeoutMs hne]
      exact hconn
  obtain ⟨a, s', hrun, -, hs'⟩ := hp.run hstep m (.refl _)
  rw [hrun]
  exact hs'

theorem becomes_of_calls (s : Cluster) (node : UInt32) (hsends : (s.connections node).sends = [])
    (xs : List ((UInt32 → DataNode) × MasterCall)) :
    (s.connections node).Becomes ((s.calls xs).connections node) := by
  induction xs generalizing s with
  | nil => exact .refl _
  | cons x xs ih =>
    have hcall : (s.connections node).Becomes ((s.call x).connections node) :=
      becomes_of_requests x.2.requests Master.init { s with nodes := x.1 } node hsends
    exact hcall.trans (ih (s.call x) (hcall.sends hsends))

/-! ## The result -/

/-- Over any sequence of calls, on DataNodes in any states, and for every delivery schedule: each
call on a connection reads the reply to its own request exactly when the replies are in time. -/
theorem replies_paired_iff (s : Cluster) (connected : UInt32 → Bool) (arrivals : UInt32 → List ℕ)
    (xs : List ((UInt32 → DataNode) × MasterCall)) (node : UInt32) :
    let log := (((s.opened connected arrivals).calls xs).connections node).log
    Paired 0 0 log ↔ InTime (log.map Exchange.timing) := by
  intro log
  obtain ⟨ys, hys, hconn⟩ := becomes_of_calls (s.opened connected arrivals) node rfl xs
  have hlog : log = ((s.opened connected arrivals).connections node).records ys := by
    show (((s.opened connected arrivals).calls xs).connections node).log = _
    rw [hconn, Connection.log_exchanges]
    rfl
  rw [hlog]
  exact Connection.paired_records hys rfl 0

/-- Working DataNodes without data, and no failures. -/
def Cluster.quiet : Cluster where
  nodes _ := ⟨some .fresh⟩
  connections _ := .fresh
  files := ⟨none, none⟩
  outcomes := ⟨true, true, true⟩
  clock := []

/-- All keys. -/
def KeyRange.all : KeyRange := ⟨[], [], by decide, by decide⟩

/-- The replies to a statistics query and to a range deletion on a DataNode without data. -/
def statsReply : Bytes := packResponse 1 [ST_OK, 0, 0, 0, 0, 0, 0]

def deletedReply : Bytes := packResponse 1 [ST_OK]

section Calls

variable (s : Cluster) (nodes : UInt32 → DataNode) (node : UInt32) (r : KeyRange)
  (hsends : (s.connections node).sends = []) (hconn : (s.connections node).connected = true)

include hsends hconn in
theorem connection_queryTabletStats :
    (s.call (nodes, .queryTabletStats node r)).connections node = (s.connections node).exchange
      (packResponse 1 ((nodes node).tabletStats r.start r.end_).1, 3000) := by
  have hsent : (s.connections node).sendOutcome = ⟨true, true⟩ := by
    rw [Connection.sendOutcome, hsends]
    rfl
  rw [Cluster.call, MasterCall.prog,
    Environment.run_bind_some (run_queryTabletStats _ { s with nodes } node hconn _ _)]
  show (Cluster.after _ _ _).connections node = _
  rw [after_of_sent hsent (r.fitsFrame _)
    (DataNode.handleBinaryRequest_tabletStats _ r.start_lt r.end_lt 1)]
  exact Cluster.connections_setNode_self _ _ _ _

include hsends hconn in
theorem connection_sendDeleteRange :
    (s.call (nodes, .sendDeleteRange node r)).connections node = (s.connections node).exchange
      (packResponse 1 ((nodes node).deleteRange r.start r.end_).1, 10000) := by
  have hsent : (s.connections node).sendOutcome = ⟨true, true⟩ := by
    rw [Connection.sendOutcome, hsends]
    rfl
  rw [Cluster.call, MasterCall.prog,
    Environment.run_bind_some (run_sendDeleteRange _ { s with nodes } node hconn _ _)]
  show (Cluster.after _ _ _).connections node = _
  rw [after_of_sent hsent (r.fitsFrame _)
    (DataNode.handleBinaryRequest_deleteRange _ r.start_lt r.end_lt 1)]
  exact Cluster.connections_setNode_self _ _ _ _

end Calls

/-- A statistics query whose reply comes after the call has given up, then a range deletion. -/
theorem log_late :
    (((Cluster.quiet.opened (fun _ => true) (fun _ => [0])).calls
      [(fun _ => ⟨some .fresh⟩, .queryTabletStats 2 .all),
        (fun _ => ⟨some .fresh⟩, .sendDeleteRange 2 .all)]).connections 2).log
      = [⟨statsReply, 0, none⟩, ⟨deletedReply, 36, some statsReply⟩] := by
  have hfirst := connection_queryTabletStats
    (Cluster.quiet.opened (fun _ => true) (fun _ => [0])) (fun _ => ⟨some .fresh⟩) 2 .all rfl rfl
  rw [Cluster.calls, List.foldl_cons, List.foldl_cons, List.foldl_nil,
    connection_sendDeleteRange _ _ 2 .all (by rw [hfirst]; rfl) (by rw [hfirst]; rfl), hfirst]
  decide

/-- A late reply to a statistics query is read as the reply to the range deletion that follows. -/
theorem not_replies_paired_late : ¬∀ (s : Cluster) (connected : UInt32 → Bool)
    (arrivals : UInt32 → List ℕ) (xs : List ((UInt32 → DataNode) × MasterCall)) (node : UInt32),
    Paired 0 0 (((s.opened connected arrivals).calls xs).connections node).log := by
  intro hall
  have hpaired := hall Cluster.quiet (fun _ => true) (fun _ => [0])
    [(fun _ => ⟨some .fresh⟩, .queryTabletStats 2 .all),
      (fun _ => ⟨some .fresh⟩, .sendDeleteRange 2 .all)] 2
  rw [log_late] at hpaired
  exact absurd (hpaired.2.1 statsReply rfl).1 (by decide)

end LeKV
