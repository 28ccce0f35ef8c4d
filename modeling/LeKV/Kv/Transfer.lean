import LeKV.Kv.RequestPairing
import LeKV.Kv.ScanReply

/-!
# Transferring a range

On a connection with nothing pending, a request that is delivered is followed by its own reply. Where
every request of a transfer is delivered, the transfer reports success, and
`run_scanAndTransferData_succeeds` says what the destination holds afterwards.
-/

namespace LeKV

open Bytes BinaryProtocol Balancer

namespace Connection

/-- The next request is executed, and its reply, as long as its length field makes it, arrives before
`RecvFrame` gives up. -/
def Delivers (c : Connection) (reply : Bytes) : Prop :=
  c.sendOutcome = ⟨true, true⟩ ∧ 10 ≤ frameLength reply ∧
    frameLength reply ≤ c.arrivals.headD reply.length

instance (c : Connection) (reply : Bytes) : Decidable (c.Delivers reply) :=
  inferInstanceAs (Decidable (_ ∧ _ ∧ _))

/-- The next `n` requests are executed, and their replies of 15 bytes arrive in time. -/
def DeliversPuts (c : Connection) (n : ℕ) : Prop :=
  ∀ i < n, c.sends.getD i ⟨true, true⟩ = ⟨true, true⟩ ∧ 15 ≤ c.arrivals.getD i 15

/-- What is left of a connection after an exchange that went well: nothing pending, and the schedules
one entry further. -/
structure Advanced (c c' : Connection) (n : ℕ) : Prop where
  pending : c'.pending = []
  connected : c'.connected = c.connected
  sends : c'.sends = c.sends.drop n
  arrivals : c'.arrivals = c.arrivals.drop n

theorem Advanced.refl {c : Connection} (h : c.pending = []) : c.Advanced c 0 := ⟨h, rfl, rfl, rfl⟩

theorem Advanced.trans {a b c : Connection} {m n : ℕ} (hab : a.Advanced b m) (hbc : b.Advanced c n) :
    a.Advanced c (m + n) where
  pending := hbc.pending
  connected := hbc.connected.trans hab.connected
  sends := by rw [hbc.sends, hab.sends, List.drop_drop]
  arrivals := by rw [hbc.arrivals, hab.arrivals, List.drop_drop]

theorem DeliversPuts.head {c : Connection} {n : ℕ} (h : c.DeliversPuts (n + 1)) :
    c.sendOutcome = ⟨true, true⟩ ∧ 15 ≤ c.arrivals.headD 15 := by
  have hfirst := h 0 (Nat.succ_pos n)
  revert hfirst
  rw [Connection.sendOutcome]
  cases c.sends <;> cases c.arrivals <;> exact id

theorem DeliversPuts.tail {c c' : Connection} {n : ℕ} (h : c.DeliversPuts (n + 1))
    (hc : c.Advanced c' 1) : c'.DeliversPuts n := by
  have htail : ∀ {α : Type} (l : List α) (i : ℕ) (d : α), (l.drop 1).getD i d = l.getD (i + 1) d := by
    intro α l i d
    cases l <;> simp
  intro i hi
  rw [hc.sends, hc.arrivals, htail, htail]
  exact h (i + 1) (Nat.succ_lt_succ hi)

end Connection

section OneRequest

variable {c : Connection} {s : Cluster} {q : Request} {resp reply : Bytes} {n' : DataNode}

/-- With nothing else pending, the reply is what is pending. -/
theorem pending_reply (hclean : c.pending = []) (reply : Bytes) :
    (c.send.answer reply).pending = reply := by
  rw [Connection.pending_answer, Connection.pending_send, hclean, List.nil_append]

/-- With nothing pending and no new answer, `RecvFrame` returns nothing. -/
theorem recvFrame_of_clean (hclean : c.pending = []) (timeoutMs : ℤ) :
    (c.recvFrame timeoutMs).1 = none := by
  refine (Connection.recvFrame_of_not_ready fun h => ?_).1
  have hten := h.1
  rw [hclean] at hten
  exact absurd hten (by decide)

/-- With nothing else pending, a reply is ready in time exactly when it is delivered. -/
theorem ready_iff_delivers (hclean : c.pending = []) (hreply : IsReply reply)
    (hout : c.sendOutcome = ⟨true, true⟩) : (c.send.answer reply).Ready ↔ c.Delivers reply := by
  obtain ⟨hhere, hwire⟩ := List.append_eq_nil_iff.mp hclean
  have hpending := pending_reply hclean reply
  have harriving : (c.send.answer reply).arriving
      = min (c.arrivals.headD reply.length) reply.length := by
    show min (c.arrivals.headD (c.wire ++ reply).length) (c.wire ++ reply).length = _
    rw [hwire, List.nil_append]
  have hhere' : (c.send.answer reply).here.length = 0 := congrArg List.length hhere
  have hle : frameLength reply ≤ reply.length :=
    hreply.frameLength_eq.trans_le (Nat.mod_le _ _)
  unfold Connection.Ready Connection.Delivers
  rw [hpending, harriving, hhere', Nat.zero_add, le_min_iff]
  tauto

/-- On a clean connection, the frame received is the answer to the request, if it is delivered. -/
theorem received_of_clean (hclean : (s.connections q.node).pending = [])
    (hfit : FitsFrame q.payload)
    (hh : DataNode.handleBinaryRequest q.reqId q.payload (s.nodes q.node) = some (resp, n'))
    (timeoutMs : ℤ) :
    s.received q timeoutMs = if (s.connections q.node).Delivers (packResponse q.reqId resp) then
        some ((packResponse q.reqId resp).take (frameLength (packResponse q.reqId resp)))
      else none := by
  have hserve : (s.nodes q.node).serve q.data = (packResponse q.reqId resp, n') :=
    serve_request hfit hh
  have hreply := isReply_packResponse q.reqId resp
  generalize packResponse q.reqId resp = reply at hserve hreply ⊢
  rw [Cluster.received, Cluster.connections_send, hserve]
  by_cases hout : (s.connections q.node).sendOutcome = ⟨true, true⟩
  · have hready := ready_iff_delivers hclean hreply hout
    have hpending := pending_reply hclean reply
    have hspec := (((s.connections q.node).send.answer reply).recvFrame_spec timeoutMs).1
    rw [hpending] at hspec
    simp only [hout, if_true, hspec, hready]
  · have hnot : ¬(s.connections q.node).Delivers reply := fun h => hout h.1
    rw [if_neg hnot]
    -- the request failed to be sent, or to be executed
    rcases hcases : (s.connections q.node).sendOutcome with ⟨_ | _, _ | _⟩
    · rfl
    · rfl
    · exact recvFrame_of_clean hclean timeoutMs
    · exact absurd hcases hout

/-- A delivered reply is received as a whole. -/
theorem received_exchange (hclean : c.pending = []) (hdel : c.Delivers reply)
    (hreply : IsReply reply) (hwhole : frameLength reply = reply.length) (timeoutMs : ℤ) :
    ((c.send.answer reply).recvFrame timeoutMs).1 = some reply := by
  have hready := (ready_iff_delivers hclean hreply hdel.1).mpr hdel
  have hfront := (@Connection.recvFrame_of_ready _ timeoutMs hready).1
  rwa [pending_reply hclean reply, hwhole, List.take_length] at hfront

/-- After a delivered reply that was taken as a whole, the connection is clean again. -/
theorem advanced_exchange (hclean : c.pending = []) (hdel : c.Delivers reply)
    (hreply : IsReply reply) (hwhole : frameLength reply = reply.length) (timeoutMs : ℤ) :
    c.Advanced (c.exchange (reply, timeoutMs)) 1 := by
  have hready := (ready_iff_delivers hclean hreply hdel.1).mpr hdel
  have hpending := pending_reply hclean reply
  have hrest := (@Connection.recvFrame_of_ready _ timeoutMs hready).2
  rw [hpending, hwhole, List.drop_length] at hrest
  exact ⟨hrest, rfl, List.drop_one.symm, List.drop_one.symm⟩

end OneRequest

/-! ## The transfer loop -/

/-- The answer to a `PUT` is a frame of 15 bytes. -/
theorem put_reply (n : DataNode) (key value : Bytes) (reqId : UInt32) :
    frameLength (packResponse reqId (n.put key value).1) = 15 ∧
      (packResponse reqId (n.put key value).1).length = 15 := by
  have hreply := isReply_packResponse reqId (n.put key value).1
  have hlen : (packResponse reqId (n.put key value).1).length = 15 := by
    obtain ⟨_ | _⟩ := n
    · rfl
    · rfl
  exact ⟨by rw [hreply.frameLength_eq, hlen]; rfl, hlen⟩

/-- A `PUT` on a clean connection that is sent and executed, and whose 15 bytes of a reply arrive in
time: its pair is stored, the reply is received, and the connection is clean again. -/
theorem put_exchange {s : Cluster} {dst : UInt32} (hclean : (s.connections dst).pending = [])
    {pair : Bytes × Bytes} (hpair : FitsPut pair) (reqId : UInt32)
    (hdel : (s.connections dst).sendOutcome = ⟨true, true⟩ ∧
      15 ≤ (s.connections dst).arrivals.headD 15) :
    let q : Request := ⟨dst, reqId, kvPayload OP_PUT pair.1 pair.2⟩
    ∃ f c, s.received q 5000 = some f ∧ (s.connections dst).Advanced c 1 ∧
      s.after q 5000 = s.setNode dst ((s.nodes dst).put pair.1 pair.2).2 c := by
  intro q
  have hfit : FitsFrame q.payload := (answered_put hpair dst reqId).1
  have hh : DataNode.handleBinaryRequest q.reqId q.payload (s.nodes q.node)
      = some (((s.nodes dst).put pair.1 pair.2).1, ((s.nodes dst).put pair.1 pair.2).2) :=
    DataNode.handleBinaryRequest_put _ _ hpair.1 (by have := hpair.2; omega)
  obtain ⟨hF, hlen⟩ := put_reply (s.nodes dst) pair.1 pair.2 reqId
  have hdelivers : (s.connections dst).Delivers
      (packResponse reqId ((s.nodes dst).put pair.1 pair.2).1) := by
    rw [Connection.Delivers, hF, hlen]
    exact ⟨hdel.1, by omega, hdel.2⟩
  have hreceived := received_of_clean (q := q) hclean hfit hh 5000
  rw [if_pos hdelivers] at hreceived
  exact ⟨_, _, hreceived, advanced_exchange hclean hdelivers (isReply_packResponse _ _)
    (hF.trans hlen.symm) 5000, after_of_sent (q := q) hdel.1 hfit hh 5000⟩

/-- From a clean connection that delivers the `PUT`s of all rounds, the loop counts every round, and
the destination has executed a `PUT` of each pair. -/
theorem run_transferLoop (m : Master) {s : Cluster} {dst : UInt32} {resp : Bytes}
    (hclean : (s.connections dst).pending = []) (hresp : FitsFrame resp) {rounds : ℕ} (i : ℕ)
    {pos : ℕ} (hpos : 9 ≤ pos) (transferred : ℕ)
    (hfound : (pairsFrom resp rounds pos).length = rounds)
    (hputs : (s.connections dst).DeliversPuts rounds) :
    ∃ c, (s.connections dst).Advanced c rounds ∧
      Cluster.env.run (transferLoop dst resp rounds i pos transferred) (m, s)
        = (some (transferred + rounds), (m, s.setNode dst
            ((s.nodes dst).putAll (pairsFrom resp rounds pos)) c)) := by
  induction rounds generalizing s i pos transferred with
  | zero =>
    refine ⟨s.connections dst, .refl hclean, ?_⟩
    show _ = (some transferred, (m, s.setNode dst (s.nodes dst) (s.connections dst)))
    rw [Cluster.setNode_self]
    rfl
  | succ rounds ih =>
    rcases hat : pairAt resp pos with _ | ⟨pair, pos'⟩
    · rw [pairsFrom, hat] at hfound
      exact absurd hfound (Nat.succ_ne_zero rounds).symm
    have hpair := fitsPut_of_pairAt hresp hpos hat
    have hpos' : 9 ≤ pos' := hpos.trans (by have := pairAt_spec hat; omega)
    have hpairs : pairsFrom resp (rounds + 1) pos = pair :: pairsFrom resp rounds pos' := by
      rw [pairsFrom, hat]
    let q : Request := ⟨dst, UInt32.ofNat (i + 2), kvPayload OP_PUT pair.1 pair.2⟩
    have hfirst := hputs.head
    obtain ⟨f, c₁, hreceived, hadvanced, hafter⟩ :=
      put_exchange hclean hpair (UInt32.ofNat (i + 2)) hfirst
    have hconn : (s.after q 5000).connections dst = c₁ := by
      rw [hafter]
      exact s.connections_setNode_self dst _ _
    rw [hpairs, List.length_cons, Nat.succ_inj] at hfound
    obtain ⟨c, hc, hrun⟩ := ih (s := s.after q 5000) (hconn ▸ hadvanced.pending) (i + 1) hpos'
      (transferred + 1) hfound (hconn ▸ hputs.tail hadvanced)
    rw [hconn] at hc
    refine ⟨c, Nat.add_comm 1 rounds ▸ hadvanced.trans hc, ?_⟩
    have hround := @run_transferLoop_succ m s dst resp pos pos' pair hat hpair rounds i transferred
    dsimp only at hround
    rw [hround, hreceived]
    refine hrun.trans ?_
    rw [hafter, hpairs, Cluster.setNode_setNode, Cluster.nodes_setNode_self, Nat.add_assoc,
      Nat.add_comm 1 rounds]
    rfl

/-! ## The whole transfer -/

/-- When the transfer of a range from `src`, whose storage is `st`, to `dst` reports success. -/
structure TransferSucceeds (s : Cluster) (src dst : UInt32) (r : KeyRange) (st : StorageEngine) :
    Prop where
  storage : (s.nodes src).storage = some st
  connected_src : (s.connections src).connected = true
  connected_dst : (s.connections dst).connected = true
  scan : (s.connections src).Delivers
    (packResponse 1 (ST_OK :: DataNode.scanBody (st.rangeQuery r.start r.end_)))
  readable : ScanReadable (st.rangeQuery r.start r.end_)
  puts : (s.connections dst).DeliversPuts (announced (st.rangeQuery r.start r.end_))

/-- A store that holds only pairs which fit their length fields, as the handlers store them. -/
def DataNode.Storables (n : DataNode) : Prop := ∀ st, n.storage = some st → ∀ e ∈ st.db.entries, Storable e

theorem storable_of_mem_rangeQuery {n : DataNode} (hn : n.Storables) {st : StorageEngine}
    (hst : n.storage = some st) {start end_ : Bytes} :
    ∀ e ∈ st.rangeQuery start end_, Storable e := by
  intro e he
  have hfind := (StorageEngine.mem_rangeQuery.mp he).1
  exact hn st hst e (SortedMap.find?_eq_some.mp hfind)

/-- A reply payload below five bytes announces nothing. -/
theorem scanCount_short {resp : Bytes} (h : resp.length < 5) : scanCount resp = none := by
  unfold scanCount
  simp only [Option.bind_eq_bind]
  by_cases hstatus : resp.head? ≠ some ST_OK
  · rw [if_pos hstatus]
    rfl
  · rw [if_neg hstatus, if_pos h]
    rfl

/-- What the Master makes of the response to a scan: the announced pairs, if the length field did not
wrap to less than the header of a response. -/
theorem scanCount_received (pairs : List (Bytes × Bytes)) :
    let reply := packResponse 1 (ST_OK :: DataNode.scanBody pairs)
    if 15 + bodyRoom pairs < 2 ^ 32 then
      decodeReply (some (reply.take (frameLength reply))) = some (scanPayload pairs)
    else 10 ≤ frameLength reply → ∀ resp,
      decodeReply (some (reply.take (frameLength reply))) = some resp → scanCount resp = none := by
  intro reply
  split_ifs with hfits
  · exact (decodeReply_response 1 ST_OK (DataNode.scanBody pairs) hfits).2
  · intro hten resp hresp
    have hreply : IsReply reply := isReply_packResponse 1 _
    have hlen : reply.length = 15 + (DataNode.scanBody pairs).length := by
      simp only [reply, packResponse, encodeResponse, statusValue, length_frame, List.length_cons,
        List.length_append, length_be]
      omega
    have hF : frameLength reply < 15 := by
      rw [hreply.frameLength_eq, hlen]
      unfold bodyRoom at hfits
      omega
    have hframe := isFrame_take hten (hreply.frameLength_eq.trans_le (Nat.mod_le _ _))
    have hle : frameLength reply ≤ reply.length :=
      hreply.frameLength_eq.trans_le (Nat.mod_le _ _)
    rw [decodeReply] at hresp
    rcases hdec : tryDecode (reply.take (frameLength reply)) with _ | ⟨c⟩ | ⟨c, reqId, payload⟩
    · rw [hdec] at hresp
      exact absurd hresp (by simp)
    · rw [hdec] at hresp
      exact absurd hresp (by simp)
    · rw [hdec] at hresp
      obtain rfl := Option.some.inj hresp
      have hpay := hframe.length_payload hdec
      rw [List.length_take_of_le hle] at hpay
      exact scanCount_short (by omega)

/-- Without both connections there is no transfer. -/
theorem run_scanAndTransferData_disconnected (m : Master) (s : Cluster) {src dst : UInt32}
    (h : ¬((s.connections src).connected = true ∧ (s.connections dst).connected = true))
    (start end_ : Bytes) :
    Cluster.env.run (scanAndTransferData src dst start end_) (m, s) = (some false, (m, s)) := by
  unfold scanAndTransferData
  rw [Environment.run_isConnected]
  show Cluster.env.run (if ¬(s.connections src).connected = true then _ else _) _ = _
  by_cases hsrc : (s.connections src).connected = true
  · rw [if_neg (not_not.mpr hsrc), Environment.run_isConnected]
    show Cluster.env.run (if ¬(s.connections dst).connected = true then _ else _) _ = _
    rw [if_pos fun hdst => h ⟨hsrc, hdst⟩]
    rfl
  · rw [if_pos hsrc]
    rfl

section Clean

variable {s : Cluster} {src dst : UInt32} (r : KeyRange)
  (hsrc : (s.connections src).pending = [])

/-- The request a transfer starts with. -/
def scanRequest (src : UInt32) (r : KeyRange) : Request :=
  ⟨src, 1, rangePayload OP_SCAN_RANGE r.start r.end_⟩

include hsrc in
/-- On a clean connection the Master takes the source's response for the reply, or has none. -/
theorem reply_scanRequest :
    s.reply (scanRequest src r) 30000 =
      if (s.connections src).Delivers (packResponse 1 ((s.nodes src).scanRange r.start r.end_).1) then
        decodeReply (some ((packResponse 1 ((s.nodes src).scanRange r.start r.end_).1).take
          (frameLength (packResponse 1 ((s.nodes src).scanRange r.start r.end_).1))))
      else none := by
  have hreceived : s.received (scanRequest src r) 30000 = _ :=
    received_of_clean (q := scanRequest src r) hsrc (r.fitsFrame _)
      (DataNode.handleBinaryRequest_scanRange' (s.nodes src) r.start_lt r.end_lt 1) 30000
  rw [Cluster.reply, hreceived, apply_ite decodeReply]
  rfl

variable {st : StorageEngine} (hst : (s.nodes src).storage = some st)

include hst in
theorem scanRange_of_storage : ((s.nodes src).scanRange r.start r.end_).1
    = ST_OK :: DataNode.scanBody (st.rangeQuery r.start r.end_) := by
  rw [DataNode.scanRange, hst]

include hsrc in
/-- Where the transfer succeeds, the Master reads the announced pairs. -/
theorem TransferSucceeds.reply {r : KeyRange} (h : TransferSucceeds s src dst r st) :
    let pairs := st.rangeQuery r.start r.end_
    s.reply (scanRequest src r) 30000 = some (scanPayload pairs) ∧
      scanCount (scanPayload pairs) = some (announced pairs) := by
  intro pairs
  have hreply := reply_scanRequest (s := s) r hsrc
  have hread := scanCount_received pairs
  have hfits : 15 + bodyRoom pairs < 2 ^ 32 := h.readable.fits
  simp only [if_pos hfits] at hread
  rw [scanRange_of_storage r h.storage, if_pos h.scan] at hreply
  refine ⟨hreply.trans hread, ?_⟩
  rw [scanCount_scanPayload h.readable.fits, if_pos h.readable.four_le]

end Clean

/-- What the Master finds in the reply on a clean connection, the source holds. -/
theorem pairs_of_reply {s : Cluster} {src : UInt32} (r : KeyRange)
    (hsrc : (s.connections src).pending = []) (hstored : (s.nodes src).Storables) {resp : Bytes}
    {count : ℕ} (hreply : s.reply (scanRequest src r) 30000 = some resp)
    (hcount : scanCount resp = some count) :
    FitsFrame resp ∧ ∃ st, (s.nodes src).storage = some st ∧
      ∀ e ∈ pairsFrom resp count 9, e ∈ st.rangeQuery r.start r.end_ := by
  rw [reply_scanRequest r hsrc] at hreply
  split_ifs at hreply with hdel
  rcases hst : (s.nodes src).storage with _ | st
  · -- a source without storage sends no count
    have hresp : ((s.nodes src).scanRange r.start r.end_).1 = [ST_TIMEOUT] := by
      rw [DataNode.scanRange, hst]
    have hdecode : decodeReply (some ((packResponse 1 [ST_TIMEOUT]).take
        (frameLength (packResponse 1 [ST_TIMEOUT])))) = some [ST_TIMEOUT, 0, 0, 0, 0] := by decide
    rw [hresp, hdecode] at hreply
    obtain rfl := Option.some.inj hreply
    have hnone : scanCount [ST_TIMEOUT, 0, 0, 0, 0] = none := by decide
    exact absurd (hnone.symm.trans hcount) (by simp)
  have hread := scanCount_received (st.rangeQuery r.start r.end_)
  rw [scanRange_of_storage r hst] at hreply hdel
  generalize hp : st.rangeQuery r.start r.end_ = pairs at hread hreply hdel
  have hpairs : ∀ e ∈ pairs, Storable e := hp ▸ storable_of_mem_rangeQuery hstored hst
  by_cases hfits : 15 + bodyRoom pairs < 2 ^ 32
  · simp only [if_pos hfits] at hread
    obtain rfl := Option.some.inj (hread.symm.trans hreply)
    rw [scanCount_scanPayload hfits] at hcount
    split_ifs at hcount
    obtain rfl := Option.some.inj hcount
    exact ⟨fitsFrame_scanPayload hfits, st, rfl, fun e he => hp ▸ mem_of_mem_pairsFrom hpairs he⟩
  · simp only [if_neg hfits] at hread
    have hnone := hread hdel.2.1 resp hreply
    exact absurd (hnone.symm.trans hcount) (by simp)

section Outcome

variable (m : Master) {s : Cluster} {src dst : UInt32} (hne : src ≠ dst)
  (hsrc : (s.connections src).pending = []) (hdst : (s.connections dst).pending = [])
  (hstored : (s.nodes src).Storables) {r : KeyRange}

/-- The cluster after a scan of a storage with the pairs `pairs` in the range. -/
def Cluster.scanned (s : Cluster) (src : UInt32) (pairs : List (Bytes × Bytes)) : Cluster :=
  s.setNode src (s.nodes src) ((s.connections src).exchange
    (packResponse 1 (ST_OK :: DataNode.scanBody pairs), 30000))

theorem after_scanRequest (r : KeyRange) {st : StorageEngine} (hst : (s.nodes src).storage = some st)
    (hout : (s.connections src).sendOutcome = ⟨true, true⟩) :
    s.after (scanRequest src r) 30000 = s.scanned src (st.rangeQuery r.start r.end_) := by
  rw [after_of_sent (q := scanRequest src r) hout (r.fitsFrame _)
    (DataNode.handleBinaryRequest_scanRange' (s.nodes src) r.start_lt r.end_lt 1),
    Cluster.scanned, ← scanRange_of_storage r hst]
  rfl

/-- `ScanAndTransferData` goes on with the pairs that what it takes for the reply announces. -/
theorem run_scanAndTransferData_reply {r : KeyRange} {resp : Bytes} {count : ℕ}
    (hconnSrc : (s.connections src).connected = true) (hconnDst : (s.connections dst).connected = true)
    (hreply : s.reply (scanRequest src r) 30000 = some resp) (hcount : scanCount resp = some count) :
    Cluster.env.run (scanAndTransferData src dst r.start r.end_) (m, s)
      = Cluster.env.run (do
          let transferred ← transferLoop dst resp count 0 9 0
          return decide (transferred = count)) (m, s.after (scanRequest src r) 30000) := by
  have hrun := run_scanAndTransferData m s hconnSrc hconnDst r.start r.end_
  dsimp only at hrun
  change s.reply ⟨src, 1, rangePayload OP_SCAN_RANGE r.start r.end_⟩ 30000 = some resp at hreply
  rw [hreply] at hrun
  dsimp only at hrun
  rwa [hcount] at hrun

include hne hsrc hdst hstored in
/-- Under the conditions of `TransferSucceeds` the transfer reports success, and the destination has
executed a `PUT` of each announced pair. -/
theorem run_scanAndTransferData_succeeds {st : StorageEngine}
    (h : TransferSucceeds s src dst r st) :
    let pairs := st.rangeQuery r.start r.end_
    ∃ c, (s.connections dst).Advanced c (announced pairs) ∧
      Cluster.env.run (scanAndTransferData src dst r.start r.end_) (m, s)
        = (some true, (m, (s.scanned src pairs).setNode dst
            ((s.nodes dst).putAll (pairs.take (announced pairs))) c)) := by
  intro pairs
  have hpairs : ∀ e ∈ pairs, Storable e := storable_of_mem_rangeQuery hstored h.storage
  have hfound := h.readable.pairsFrom hpairs
  have hconn : (s.scanned src pairs).connections dst = s.connections dst :=
    s.connections_setNode_of_ne _ _ hne.symm
  have hnode : (s.scanned src pairs).nodes dst = s.nodes dst := s.nodes_setNode_of_ne _ _ hne.symm
  obtain ⟨hreply, hcount⟩ := h.reply hsrc
  have hrun := run_scanAndTransferData_reply (m := m) h.connected_src h.connected_dst hreply hcount
  rw [after_scanRequest r h.storage h.scan.1] at hrun
  obtain ⟨c, hc, hloop⟩ := run_transferLoop m (s := s.scanned src pairs) (hconn ▸ hdst)
    (fitsFrame_scanPayload h.readable.fits) 0 le_rfl 0
    (hfound ▸ List.length_take_of_le (announced_le pairs)) (hconn ▸ h.puts)
  rw [hfound, hnode, Nat.zero_add] at hloop
  refine ⟨c, hconn ▸ hc, hrun.trans ((Environment.run_bind_some hloop _).trans ?_)⟩
  rw [decide_eq_true rfl]
  rfl

end Outcome

end LeKV
