import LeKV.Kv.Stores

/-!
# Transfers, whatever is pending

`RecvFrame` takes the frame in front of a connection, which need not answer the request it follows.
So the scan of a transfer is read from the first pending frame, and a `PUT` counts as soon as one more
frame is complete. `run_scanAndTransferData_scanned` and `run_scanAndTransferData_iff` say for
arbitrary pending bytes what a transfer stores and when it reports success.
-/

namespace LeKV

open Bytes BinaryProtocol Balancer

namespace Connection

/-- The connection after a request that is answered `reply` if it gets there. -/
def requested (c : Connection) (reply : Bytes) : Connection :=
  if c.sendOutcome.executed then c.send.answer reply else c.send

/-- A request is sent, and by the end of the wait for its reply there is a complete frame. -/
def Acknowledged (c : Connection) (reply : Bytes) : Prop :=
  c.sendOutcome.ok = true ∧ (c.requested reply).Ready

/-- The connection after the wait for a frame, if the request was sent. -/
def waited (c : Connection) (reply : Bytes) (timeoutMs : ℤ) : Connection :=
  if c.sendOutcome.ok then ((c.requested reply).recvFrame timeoutMs).2 else c.requested reply

theorem sends_requested (c : Connection) (reply : Bytes) : (c.requested reply).sends = c.sends.tail := by
  unfold requested
  split_ifs <;> rfl

theorem sends_waited (c : Connection) (reply : Bytes) (timeoutMs : ℤ) :
    (c.waited reply timeoutMs).sends = c.sends.tail := by
  unfold waited
  split_ifs
  · exact (sends_recvFrame _ _).trans (c.sends_requested reply)
  · exact c.sends_requested reply

theorem connected_waited (c : Connection) (reply : Bytes) (timeoutMs : ℤ) :
    (c.waited reply timeoutMs).connected = c.connected := by
  have hrequested : (c.requested reply).connected = c.connected := by
    unfold requested
    split_ifs <;> rfl
  unfold waited
  split_ifs
  · exact (connected_recvFrame _ _).trans hrequested
  · exact hrequested

end Connection

/-- The pairs whose `PUT`s are executed, when one pair after the other is sent. -/
def executedPairs : List SendOutcome → List (Bytes × Bytes) → List (Bytes × Bytes)
  | _, [] => []
  | sends, e :: pairs =>
    if (sends.headD ⟨true, true⟩).executed then e :: executedPairs sends.tail pairs
    else executedPairs sends.tail pairs

/-- The DataNode behind a connection after a `PUT` of `e`. -/
def Connection.putTo (c : Connection) (n : DataNode) (e : Bytes × Bytes) : DataNode :=
  if c.sendOutcome.executed then (n.put e.1 e.2).2 else n

theorem Connection.putAll_putTo (c : Connection) (n : DataNode) (e : Bytes × Bytes)
    (pairs : List (Bytes × Bytes)) : (c.putTo n e).putAll (executedPairs c.sends.tail pairs)
      = n.putAll (executedPairs c.sends (e :: pairs)) := by
  rw [executedPairs, Connection.putTo, Connection.sendOutcome]
  split_ifs <;> rfl

/-- Each `PUT` of the transfer loop is acknowledged. -/
def AllAcknowledged : Connection → DataNode → ℕ → List (Bytes × Bytes) → Prop
  | _, _, _, [] => True
  | c, n, i, e :: pairs =>
    let reply := packResponse (UInt32.ofNat (i + 2)) (n.put e.1 e.2).1
    c.Acknowledged reply ∧ AllAcknowledged (c.waited reply 5000) (c.putTo n e) (i + 1) pairs

/-! ## One request -/

section OneRequest

/-- A wait for a frame only changes its connection. -/
theorem Cluster.recvFrame_setNode (s : Cluster) (node : UInt32) (n : DataNode) (c : Connection)
    (timeoutMs : ℤ) :
    (s.setNode node n c).recvFrame node timeoutMs = s.setNode node n (c.recvFrame timeoutMs).2 := by
  unfold Cluster.recvFrame Cluster.setConnection
  rw [Cluster.connections_setNode_self]
  unfold Cluster.setNode
  rw [Function.update_idem]

variable (s : Cluster) {q : Request} {resp : Bytes} {n' : DataNode}

/-- What a request does to its node and to its connection. -/
theorem after_request (hfit : FitsFrame q.payload)
    (hh : DataNode.handleBinaryRequest q.reqId q.payload (s.nodes q.node) = some (resp, n'))
    (timeoutMs : ℤ) : s.after q timeoutMs = s.setNode q.node
      (if (s.connections q.node).sendOutcome.executed then n' else s.nodes q.node)
      ((s.connections q.node).waited (packResponse q.reqId resp) timeoutMs) := by
  have hserve : (s.nodes q.node).serve q.data = (packResponse q.reqId resp, n') :=
    serve_request hfit hh
  have hsend : s.send q.node q.data = s.setNode q.node
      (if (s.connections q.node).sendOutcome.executed then n' else s.nodes q.node)
      ((s.connections q.node).requested (packResponse q.reqId resp)) := by
    unfold Cluster.send Connection.requested
    rw [hserve]
    dsimp only
    split_ifs
    · rfl
    · unfold Cluster.setConnection Cluster.setNode
      rw [Function.update_eq_self]
  unfold Cluster.after Connection.waited
  rw [hsend]
  by_cases hok : (s.connections q.node).sendOutcome.ok = true
  · rw [if_pos hok, if_pos hok, Cluster.recvFrame_setNode]
  · rw [if_neg hok, if_neg hok]

/-- When a frame is received after a request. -/
theorem received_isSome_iff (hfit : FitsFrame q.payload)
    (hh : DataNode.handleBinaryRequest q.reqId q.payload (s.nodes q.node) = some (resp, n'))
    (timeoutMs : ℤ) : (s.received q timeoutMs).isSome = true ↔
      (s.connections q.node).Acknowledged (packResponse q.reqId resp) := by
  have hserve : (s.nodes q.node).serve q.data = (packResponse q.reqId resp, n') :=
    serve_request hfit hh
  rw [Cluster.received, Cluster.connections_send, hserve, Connection.Acknowledged]
  change (if (s.connections q.node).sendOutcome.ok = true then
    (((s.connections q.node).requested (packResponse q.reqId resp)).recvFrame timeoutMs).1
      else none).isSome = true ↔ _
  rw [(Connection.recvFrame_spec _ timeoutMs).1]
  by_cases hok : (s.connections q.node).sendOutcome.ok = true
  · rw [if_pos hok, and_iff_right hok]
    split_ifs with hready <;> simp [hready]
  · rw [if_neg hok]
    exact iff_of_false (by simp) fun h => hok h.1

end OneRequest

/-- The payload of a received frame is shorter than the frame. -/
theorem fitsFrame_of_reply {s : Cluster} {q : Request} {timeoutMs : ℤ} {resp : Bytes}
    (h : s.reply q timeoutMs = some resp) : FitsFrame resp := by
  unfold Cluster.reply at h
  rcases hreceived : s.received q timeoutMs with _ | f
  · rw [hreceived] at h
    exact absurd h (by simp [decodeReply])
  have hframe : IsFrame f := by
    unfold Cluster.received at hreceived
    split_ifs at hreceived
    exact isFrame_of_recvFrame hreceived
  rw [hreceived, decodeReply] at h
  rcases hdec : tryDecode f with _ | ⟨c⟩ | ⟨c, reqId, payload⟩
  · rw [hdec] at h
    exact absurd h (by simp)
  · rw [hdec] at h
    exact absurd h (by simp)
  · rw [hdec] at h
    obtain rfl := Option.some.inj h
    have hlen := hframe.length_payload hdec
    have hlt := hframe.length_eq ▸ frameLength_lt f
    unfold FitsFrame
    omega

/-! ## The transfer loop -/

/-- A round of the transfer loop, seen from the destination. -/
theorem after_put (s : Cluster) {e : Bytes × Bytes} (hfit : FitsPut e) (dst reqId : UInt32) :
    let q : Request := ⟨dst, reqId, kvPayload OP_PUT e.1 e.2⟩
    let reply := packResponse reqId ((s.nodes dst).put e.1 e.2).1
    s.after q 5000 = s.setNode dst ((s.connections dst).putTo (s.nodes dst) e)
        ((s.connections dst).waited reply 5000) ∧
      ((s.received q 5000).isSome = true ↔ (s.connections dst).Acknowledged reply) := by
  intro q reply
  have hpayload : FitsFrame q.payload := (answered_put hfit dst reqId).1
  have hh : DataNode.handleBinaryRequest q.reqId q.payload (s.nodes q.node)
      = some (((s.nodes dst).put e.1 e.2).1, ((s.nodes dst).put e.1 e.2).2) :=
    DataNode.handleBinaryRequest_put _ _ hfit.1 (by have := hfit.2; omega)
  exact ⟨after_request s hpayload hh 5000, received_isSome_iff s hpayload hh 5000⟩

/-- The loop stores the pairs whose `PUT`s are executed, and counts every round exactly when it finds
that many pairs and each `PUT` is acknowledged. -/
theorem run_transferLoop_iff (m : Master) (s : Cluster) (dst : UInt32) {resp : Bytes}
    (hresp : FitsFrame resp) (rounds i : ℕ) {pos : ℕ} (hpos : 9 ≤ pos) (transferred : ℕ) :
    let pairs := pairsFrom resp rounds pos
    ∃ r c, Cluster.env.run (transferLoop dst resp rounds i pos transferred) (m, s)
        = (some r, (m, s.setNode dst
            ((s.nodes dst).putAll (executedPairs (s.connections dst).sends pairs)) c)) ∧
      r ≤ transferred + rounds ∧
      (r = transferred + rounds ↔ pairs.length = rounds ∧
        AllAcknowledged (s.connections dst) (s.nodes dst) i pairs) := by
  induction rounds generalizing s i pos transferred with
  | zero =>
    refine ⟨transferred, s.connections dst, ?_, le_rfl, iff_of_true rfl ⟨rfl, trivial⟩⟩
    show (some transferred, (m, s)) = (some transferred, (m, s.setNode dst (s.nodes dst) _))
    rw [Cluster.setNode_self]
  | succ rounds ih =>
    rcases hat : pairAt resp pos with _ | ⟨pair, pos'⟩
    · -- no further pair is found
      have hnil : pairsFrom resp (rounds + 1) pos = [] := by rw [pairsFrom, hat]
      have hrun : Cluster.env.run (transferLoop dst resp (rounds + 1) i pos transferred) (m, s)
          = (some transferred, (m, s)) := by
        rw [transferLoop, hat]
        rfl
      rw [hnil]
      refine ⟨transferred, s.connections dst, ?_, Nat.le_add_right _ _, iff_of_false (by omega) ?_⟩
      · rw [hrun]
        show _ = (some transferred, (m, s.setNode dst (s.nodes dst) _))
        rw [Cluster.setNode_self]
      · rintro ⟨hlen, -⟩
        exact absurd hlen (Nat.succ_ne_zero rounds).symm
    have hpair := fitsPut_of_pairAt hresp hpos hat
    have hpos' : 9 ≤ pos' := hpos.trans (by have := pairAt_spec hat; omega)
    have hpairs : pairsFrom resp (rounds + 1) pos = pair :: pairsFrom resp rounds pos' := by
      rw [pairsFrom, hat]
    let c := s.connections dst
    let reply := packResponse (UInt32.ofNat (i + 2)) ((s.nodes dst).put pair.1 pair.2).1
    obtain ⟨hafter, hreceived⟩ := after_put s hpair dst (UInt32.ofNat (i + 2))
    have hround := @run_transferLoop_succ m s dst resp pos pos' pair hat hpair rounds i transferred
    dsimp only at hround hafter hreceived
    rw [hafter] at hround
    -- the remaining rounds, from the state after this one
    obtain ⟨r, c', hrun, hle, hall⟩ := ih (s.setNode dst (c.putTo (s.nodes dst) pair)
      (c.waited reply 5000)) (i + 1) hpos' (transferred + if (s.received
        ⟨dst, UInt32.ofNat (i + 2), kvPayload OP_PUT pair.1 pair.2⟩ 5000).isSome then 1 else 0)
    rw [Cluster.setNode_setNode, Cluster.nodes_setNode_self, Cluster.connections_setNode_self,
      Connection.sends_waited, Connection.putAll_putTo] at hrun
    rw [Cluster.nodes_setNode_self, Cluster.connections_setNode_self] at hall
    rw [hpairs]
    refine ⟨r, c', hround.trans hrun, ?_, ?_⟩
    · split_ifs at hle <;> omega
    rw [List.length_cons, AllAcknowledged, ← hreceived]
    by_cases hsome : (s.received ⟨dst, UInt32.ofNat (i + 2), kvPayload OP_PUT pair.1 pair.2⟩
        5000).isSome = true
    · rw [if_pos hsome] at hall
      rw [and_iff_right hsome, Nat.succ_inj, ← hall]
      omega
    · rw [if_neg hsome] at hle
      exact iff_of_false (by omega) fun h => hsome h.2.1

/-! ## The whole transfer -/

section Transfer

variable {m : Master} {s : Cluster} {src dst : UInt32} {r : KeyRange} {count : ℕ}
  {pairs : List (Bytes × Bytes)}

/-- What the Master takes for the reply to its scan announces `count` pairs, and `pairs` are read from
it. -/
structure Scanned (s : Cluster) (src dst : UInt32) (r : KeyRange) (count : ℕ)
    (pairs : List (Bytes × Bytes)) : Prop where
  connected_src : (s.connections src).connected = true
  connected_dst : (s.connections dst).connected = true
  reply : ∃ resp, s.reply (scanRequest src r) 30000 = some resp ∧ scanCount resp = some count ∧
    pairsFrom resp count 9 = pairs

/-- As many pairs are read as are announced, and each `PUT` is acknowledged. -/
structure Reported (s : Cluster) (src dst : UInt32) (r : KeyRange) (pairs : List (Bytes × Bytes)) :
    Prop where
  scanned : Scanned s src dst r pairs.length pairs
  acknowledged : AllAcknowledged (s.connections dst) (s.nodes dst) 0 pairs

theorem Scanned.unique {count' : ℕ} {pairs' : List (Bytes × Bytes)}
    (h : Scanned s src dst r count pairs) (h' : Scanned s src dst r count' pairs') :
    count = count' ∧ pairs = pairs' := by
  obtain ⟨resp, hreply, hcount, rfl⟩ := h.reply
  obtain ⟨resp', hreply', hcount', rfl⟩ := h'.reply
  obtain rfl := Option.some.inj (hreply.symm.trans hreply')
  obtain rfl := Option.some.inj (hcount.symm.trans hcount')
  exact ⟨rfl, rfl⟩

/-- The stores after the `PUT`s that are executed at `dst`. -/
def Cluster.transferred (s : Cluster) (dst : UInt32) (pairs : List (Bytes × Bytes)) :
    UInt32 → DataNode :=
  Function.update s.nodes dst
    ((s.nodes dst).putAll (executedPairs (s.connections dst).sends pairs))

/-- The cluster after the scan. -/
theorem after_scan (s : Cluster) (src : UInt32) (r : KeyRange) :
    ∃ c : Connection, s.after (scanRequest src r) 30000 = s.setNode src (s.nodes src) c ∧
      c.sends = (s.connections src).sends.tail ∧ c.connected = (s.connections src).connected := by
  let c := (s.connections src).waited
    (packResponse 1 ((s.nodes src).scanRange r.start r.end_).1) 30000
  have hafter : s.after (scanRequest src r) 30000 = s.setNode src
      (if (s.connections src).sendOutcome.executed then s.nodes src else s.nodes src) c :=
    after_request s (q := scanRequest src r) (r.fitsFrame _)
      (DataNode.handleBinaryRequest_scanRange' (s.nodes src) r.start_lt r.end_lt 1) 30000
  rw [ite_self] at hafter
  exact ⟨c, hafter, Connection.sends_waited _ _ _, Connection.connected_waited _ _ _⟩

/-- A transfer that reads pairs stores those whose `PUT`s are executed. It changes nothing else but
the two connections, and it reports success exactly if as many pairs are read as are announced and
each `PUT` is acknowledged. -/
theorem run_scanAndTransferData_scanned (m : Master) (hne : src ≠ dst)
    (h : Scanned s src dst r count pairs) :
    ∃ ok s', Cluster.env.run (scanAndTransferData src dst r.start r.end_) (m, s)
        = (some ok, (m, s')) ∧
      (ok = true ↔ Reported s src dst r pairs) ∧ s'.nodes = s.transferred dst pairs ∧
      (s'.connections src).sends = (s.connections src).sends.tail ∧
      (s'.connections src).connected = true ∧ s'.files = s.files ∧ s'.outcomes = s.outcomes := by
  obtain ⟨resp, hreply, hcount, hpairs⟩ := h.reply
  have hrun := run_scanAndTransferData_reply (m := m) h.connected_src h.connected_dst hreply hcount
  obtain ⟨c₁, hafter, hsends, hconn⟩ := after_scan s src r
  rw [hafter] at hrun
  obtain ⟨n, c₂, hloop, hle, hall⟩ := run_transferLoop_iff m (s.setNode src (s.nodes src) c₁) dst
    (fitsFrame_of_reply hreply) count 0 le_rfl 0
  rw [hpairs, Cluster.nodes_setNode_of_ne _ _ _ hne.symm,
    Cluster.connections_setNode_of_ne _ _ _ hne.symm] at hloop hall
  refine ⟨_, _, hrun.trans ((Environment.run_bind_some hloop _).trans rfl), ?_, ?_, ?_, ?_, rfl, rfl⟩
  · rw [decide_eq_true_iff, ← Nat.zero_add count, hall]
    constructor
    · rintro ⟨hlen, hacknowledged⟩
      exact ⟨hlen ▸ h, hacknowledged⟩
    · rintro ⟨hscanned, hacknowledged⟩
      exact ⟨(h.unique hscanned).1.symm, hacknowledged⟩
  · show Function.update (Function.update s.nodes src (s.nodes src)) dst _ = _
    rw [Function.update_eq_self]
    rfl
  · rw [Cluster.connections_setNode_of_ne _ _ _ hne, Cluster.connections_setNode_self]
    exact hsends
  · rw [Cluster.connections_setNode_of_ne _ _ _ hne, Cluster.connections_setNode_self]
    exact hconn.trans h.connected_src

/-- A transfer that reads no pairs fails. -/
theorem run_scanAndTransferData_unscanned (m : Master)
    (h : ¬∃ count pairs, Scanned s src dst r count pairs) :
    ∃ s', Cluster.env.run (scanAndTransferData src dst r.start r.end_) (m, s)
      = (some false, (m, s')) := by
  by_cases hconn : (s.connections src).connected = true ∧ (s.connections dst).connected = true
  swap
  · exact ⟨s, run_scanAndTransferData_disconnected m s hconn _ _⟩
  have hrun := run_scanAndTransferData m s hconn.1 hconn.2 r.start r.end_
  dsimp only at hrun
  rw [hrun]
  rcases hreply : s.reply ⟨src, 1, rangePayload OP_SCAN_RANGE r.start r.end_⟩ 30000 with _ | resp
  · exact ⟨_, rfl⟩
  dsimp only
  rcases hcount : scanCount resp with _ | count
  · exact ⟨_, rfl⟩
  · exact absurd ⟨count, _, hconn.1, hconn.2, resp, hreply, hcount, rfl⟩ h

/-- When a transfer reports success, and what it then has stored. -/
theorem run_scanAndTransferData_iff (m : Master) (s : Cluster) (hne : src ≠ dst) (r : KeyRange) :
    ∃ ok s', Cluster.env.run (scanAndTransferData src dst r.start r.end_) (m, s)
        = (some ok, (m, s')) ∧
      (ok = true ↔ ∃ pairs, Reported s src dst r pairs) ∧
      ∀ pairs, Reported s src dst r pairs → s'.nodes = s.transferred dst pairs := by
  by_cases h : ∃ count pairs, Scanned s src dst r count pairs
  · obtain ⟨count, pairs, h⟩ := h
    obtain ⟨ok, s', hrun, hok, hnodes, -⟩ := run_scanAndTransferData_scanned m hne h
    refine ⟨ok, s', hrun, hok.trans ⟨fun hreported => ⟨pairs, hreported⟩, ?_⟩, ?_⟩
    · rintro ⟨pairs', hreported⟩
      obtain ⟨-, rfl⟩ := h.unique hreported.scanned
      exact hreported
    · intro pairs' hreported
      obtain ⟨-, rfl⟩ := h.unique hreported.scanned
      exact hnodes
  · obtain ⟨s', hrun⟩ := run_scanAndTransferData_unscanned m h
    refine ⟨false, s', hrun, iff_of_false Bool.false_ne_true ?_, ?_⟩
    · rintro ⟨pairs, hreported⟩
      exact h ⟨_, _, hreported.scanned⟩
    · intro pairs hreported
      exact absurd ⟨_, _, hreported.scanned⟩ h

/-- On connections with nothing pending, the pairs are those that the source announces. -/
theorem TransferSucceeds.reported {st : StorageEngine} (h : TransferSucceeds s src dst r st)
    (hne : src ≠ dst) (hsrc : (s.connections src).pending = [])
    (hdst : (s.connections dst).pending = []) (hstored : (s.nodes src).Storables) :
    Reported s src dst r
      ((st.rangeQuery r.start r.end_).take (announced (st.rangeQuery r.start r.end_))) := by
  have hpairs : ∀ e ∈ st.rangeQuery r.start r.end_, Storable e :=
    storable_of_mem_rangeQuery hstored h.storage
  obtain ⟨hreply, hcount⟩ := h.reply hsrc
  have hscanned : Scanned s src dst r _ _ :=
    ⟨h.connected_src, h.connected_dst, _, hreply, hcount, h.readable.pairsFrom hpairs⟩
  -- the run of the transfer is known
  obtain ⟨c, -, hrun⟩ := run_scanAndTransferData_succeeds .init hne hsrc hdst hstored h
  obtain ⟨ok, s', hrun', hok, -⟩ := run_scanAndTransferData_scanned .init hne hscanned
  obtain ⟨hresult, -⟩ := Prod.mk.inj (hrun'.symm.trans hrun)
  exact hok.mp (Option.some.inj hresult)

end Transfer

end LeKV
