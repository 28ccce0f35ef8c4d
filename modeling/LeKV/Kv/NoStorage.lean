import LeKV.Kv.Counts
import LeKV.Kv.Loads
import LeKV.Kv.RangeRequests

/-!
# A DataNode without storage

Of the six handlers of a DataNode whose LevelDB did not open, five answer a well-formed request with
`ST_TIMEOUT`. `HandleDataNodeTabletStats` does not look at what `DataNodeGetTabletStats` returns and
answers `ST_OK` with the count zero, which the Master then takes for the truth.
-/

namespace LeKV

open Bytes BinaryProtocol Balancer

namespace DataNode

/-- The first length field of a range request. -/
def startLen (payload : Bytes) : ℕ := readBE ((payload.drop 1).take 2)

/-- The second length field of a range request. -/
def endLen (payload : Bytes) : ℕ := readBE ((payload.drop (3 + startLen payload)).take 2)

/-- A statistics request that is long enough for its two keys. -/
def IsStatsRequest (payload : Bytes) : Prop :=
  payload.head? = some OP_TABLET_STATS ∧
    5 + startLen payload + endLen payload ≤ payload.length

/-- What a DataNode without storage answers to it: no keys, and no median. -/
def emptyStats : Bytes := ST_OK :: (be 4 0 ++ be 2 0)

/-- No response to the payload is a success. -/
def NoSuccess (reqId : UInt32) (payload : Bytes) (n : DataNode) : Prop :=
  ∀ resp n', handleBinaryRequest reqId payload n = some (resp, n') → resp.head? ≠ some ST_OK

section Empty

variable {payload resp : Bytes} {n' : DataNode}

/-- The checks of a range request, whole or not, keep all reads inside the payload. -/
theorem parseRange_spec (payload : Bytes) :
    ∃ range, parseRange payload = some range ∧
      (range.isSome ↔ 5 + startLen payload + endLen payload ≤ payload.length) := by
  have hfields : startLen payload = readBE ((payload.drop 1).take 2) := rfl
  unfold parseRange
  by_cases hfive : payload.length < 5
  · exact ⟨none, if_pos hfive, iff_of_false (by simp) (by omega)⟩
  rw [if_neg hfive, numAt_of_le (by omega), ← hfields]
  simp only [Option.bind_eq_bind, Option.bind_some]
  by_cases hstart : payload.length < 1 + 2 + startLen payload + 2
  · exact ⟨none, if_pos hstart, iff_of_false (by simp) (by omega)⟩
  have hend : endLen payload = readBE ((payload.drop (3 + startLen payload)).take 2) := rfl
  rw [if_neg hstart, bytesAt_of_le (by omega), Option.bind_some, numAt_of_le (by omega), ← hend,
    Option.bind_some]
  by_cases hwhole : payload.length < 1 + 2 + startLen payload + 2 + endLen payload
  · exact ⟨none, if_pos hwhole, iff_of_false (by simp) (by omega)⟩
  rw [if_neg hwhole, bytesAt_of_le (by omega), Option.bind_some]
  exact ⟨some _, rfl, iff_of_true rfl (by omega)⟩

/-- A refusal: one of the two statuses that a DataNode without storage has for anything else. -/
def IsRefusal (resp : Bytes) : Prop := resp = [ST_TIMEOUT] ∨ resp = [ST_BAD_REQUEST]

theorem IsRefusal.head?_ne (h : IsRefusal resp) : resp.head? ≠ some ST_OK := by
  rcases h with rfl | rfl <;> decide

/-- Whole statistics requests are handled. -/
theorem handleBinaryRequest_statsRequest (reqId : UInt32) (h : IsStatsRequest payload) :
    handleBinaryRequest reqId payload ⟨none⟩ = some (emptyStats, ⟨none⟩) := by
  obtain ⟨hhead, hwhole⟩ := h
  obtain ⟨range, hparse, hsome⟩ := parseRange_spec payload
  rcases payload with _ | ⟨opcode, rest⟩
  · exact absurd hhead (by simp)
  obtain rfl : opcode = OP_TABLET_STATS := Option.some.inj hhead
  obtain ⟨⟨start, end_⟩, rfl⟩ := Option.isSome_iff_exists.mp (hsome.mpr hwhole)
  show handleRange tabletStats (OP_TABLET_STATS :: rest) ⟨none⟩ = _
  unfold handleRange
  rw [hparse]
  rfl

/-- A DataNode without storage answers whole statistics requests, and refuses all others. -/
theorem handleBinaryRequest_empty {reqId : UInt32}
    (h : handleBinaryRequest reqId payload ⟨none⟩ = some (resp, n')) :
    n' = ⟨none⟩ ∧ (IsStatsRequest payload ∧ resp = emptyStats ∨
      ¬IsStatsRequest payload ∧ IsRefusal resp) := by
  by_cases hstats : IsStatsRequest payload
  · obtain ⟨rfl, rfl⟩ := Prod.mk.inj
      (Option.some.inj ((handleBinaryRequest_statsRequest reqId hstats).symm.trans h))
    exact ⟨rfl, .inl ⟨hstats, rfl⟩⟩
  have hhandled := handled_of_handleBinaryRequest h
  generalize hr : (resp, n') = r at hhandled
  obtain ⟨rfl, rfl⟩ : resp = r.1 ∧ n' = r.2 := ⟨congrArg Prod.fst hr, congrArg Prod.snd hr⟩
  cases hhandled with
  | refused => exact ⟨rfl, .inr ⟨hstats, .inr rfl⟩⟩
  | tabletStats hop hrange =>
    obtain ⟨range, hparse, hwhole⟩ := parseRange_spec payload
    obtain rfl := Option.some.inj (hparse.symm.trans hrange)
    exact absurd ⟨hop, hwhole.mp rfl⟩ hstats
  | put | get | delete | scanRange | deleteRange => exact ⟨rfl, .inr ⟨hstats, .inl rfl⟩⟩

/-- A DataNode without storage reports success for whole statistics requests, and for nothing else. -/
theorem noSuccess_iff_not_statsRequest (reqId : UInt32) (payload : Bytes) :
    NoSuccess reqId payload ⟨none⟩ ↔ ¬IsStatsRequest payload := by
  constructor
  · intro h hstats
    exact h _ _ (handleBinaryRequest_statsRequest reqId hstats) rfl
  · intro hnot resp n' h
    rcases (handleBinaryRequest_empty h).2 with ⟨hstats, -⟩ | ⟨-, hrefused⟩
    · exact absurd hstats hnot
    · exact hrefused.head?_ne

end Empty

end DataNode

/-! ## Statistics queries to such a node -/

open DataNode

/-- Responses of a DataNode without storage, one after another. -/
def AreResponses (bytes : Bytes) : Prop :=
  ∃ calls : List (UInt32 × Bytes), (∀ c ∈ calls, ∃ payload,
    handleBinaryRequest c.1 payload ⟨none⟩ = some (c.2, ⟨none⟩)) ∧
      bytes = (calls.map fun c => packResponse c.1 c.2).flatten

/-- The bytes begin with the response to a statistics request. -/
def StatsInFront (bytes : Bytes) : Prop := ∃ reqId, packResponse reqId emptyStats <+: bytes

namespace Connection

/-- A statistics request is sent to a DataNode without storage. -/
def ask (c : Connection) : Connection :=
  if c.sendOutcome.executed then c.send.answer (packResponse 1 emptyStats) else c.send

/-- A statistics query to a DataNode without storage. -/
def query (c : Connection) : Connection :=
  if c.connected then if c.sendOutcome.ok then (c.ask.recvFrame 3000).2 else c.ask else c

/-- The query gets statistics: it is sent, and a frame is there in time, which holds some. -/
def GetsStats (c : Connection) : Prop :=
  c.connected = true ∧ c.sendOutcome.ok = true ∧ c.ask.Ready ∧ StatsInFront c.ask.pending

end Connection

/-- A response of such a node, in front of other bytes. -/
theorem front_packResponse (reqId : UInt32) {resp : Bytes}
    (h : resp = emptyStats ∨ IsRefusal resp) (rest : Bytes) :
    frameLength (packResponse reqId resp ++ rest) = (packResponse reqId resp).length ∧
      (StatsInFront (packResponse reqId resp ++ rest) ↔ resp = emptyStats) ∧
      (decodeReply (some (packResponse reqId resp))).bind parseStats
        = if resp = emptyStats then some (0, []) else none := by
  obtain ⟨status, value, rfl⟩ : ∃ status value, resp = status :: value := by
    rcases h with rfl | rfl | rfl
    · exact ⟨_, _, rfl⟩
    · exact ⟨_, _, rfl⟩
    · exact ⟨_, _, rfl⟩
  have hshort : value.length ≤ 6 := by
    rcases h with h | h | h
    · rw [(List.cons.inj h).2]
      decide
    · rw [(List.cons.inj h).2]
      decide
    · rw [(List.cons.inj h).2]
      decide
  obtain ⟨hlen, hwhole⟩ := packResponse_whole reqId status (by omega : 15 + value.length < 2 ^ 32)
  have hfront : frameLength (packResponse reqId (status :: value) ++ rest) = 15 + value.length := by
    rw [frameLength_append _ (by omega), hwhole, hlen]
  refine ⟨by rw [hfront, hlen], ⟨?_, fun heq => ⟨reqId, ?_⟩⟩, ?_⟩
  · rintro ⟨other, rest', hbytes⟩
    have hsix : 15 + (be 4 0 ++ be 2 0).length < 2 ^ 32 := by decide
    have hstats := packResponse_whole other ST_OK hsix
    have hlen' : (packResponse other emptyStats).length = 15 + 6 := hstats.1
    have hfront' : frameLength (packResponse other emptyStats ++ rest') = 15 + 6 := by
      rw [frameLength_append _ (by omega)]
      exact hstats.2.trans hlen'
    -- the lengths tell the responses apart
    rw [hbytes, hfront] at hfront'
    rcases h with h | h | h
    · exact h
    · obtain ⟨-, rfl⟩ := List.cons.inj h
      exact absurd hfront' (by decide)
    · obtain ⟨-, rfl⟩ := List.cons.inj h
      exact absurd hfront' (by decide)
  · rw [heq]
    exact List.prefix_append _ _
  · rw [decodeReply_whole reqId status (by omega), Option.bind_some]
    rcases h with h | h | h
    · rw [if_pos h]
      obtain ⟨rfl, rfl⟩ := List.cons.inj h
      exact parseStats_response 0 (by decide : ([] : Bytes).length < 2 ^ 16) 6
    · obtain ⟨rfl, rfl⟩ := List.cons.inj h
      rw [if_neg (by decide : [ST_TIMEOUT] ≠ emptyStats)]
      exact (by decide : parseStats [ST_TIMEOUT, 0, 0, 0, 0] = none)
    · obtain ⟨rfl, rfl⟩ := List.cons.inj h
      rw [if_neg (by decide : [ST_BAD_REQUEST] ≠ emptyStats)]
      exact (by decide : parseStats [ST_BAD_REQUEST, 0, 0, 0, 0] = none)

/-- The request of a statistics query. -/
theorem isStatsRequest_rangePayload {start end_ : Bytes} (hstart : Short start) (hend : Short end_) :
    IsStatsRequest (rangePayload OP_TABLET_STATS start end_) := by
  by_contra hnot
  exact (noSuccess_iff_not_statsRequest 1 _).mpr hnot _ _
    (handleBinaryRequest_tabletStats ⟨none⟩ hstart hend 1) rfl

theorem AreResponses.append {a b : Bytes} (ha : AreResponses a) (hb : AreResponses b) :
    AreResponses (a ++ b) := by
  obtain ⟨calls, hcalls, rfl⟩ := ha
  obtain ⟨calls', hcalls', rfl⟩ := hb
  refine ⟨calls ++ calls', fun c hc => ?_, by rw [List.map_append, List.flatten_append]⟩
  exact (List.mem_append.mp hc).elim (hcalls c) (hcalls' c)

theorem areResponses_emptyStats : AreResponses (packResponse 1 emptyStats) := by
  have hnil : Short [] := Nat.two_pow_pos 16
  refine ⟨[(1, emptyStats)], fun c hc => ?_, (List.append_nil _).symm⟩
  obtain rfl := List.mem_singleton.mp hc
  exact ⟨_, handleBinaryRequest_statsRequest 1 (isStatsRequest_rangePayload hnil hnil)⟩

namespace Connection

variable {c : Connection}

theorem areResponses_ask (h : AreResponses c.pending) : AreResponses c.ask.pending := by
  unfold ask
  split_ifs
  · rw [pending_answer, pending_send]
    exact h.append areResponses_emptyStats
  · exact h

/-- A frame that is there in time is a whole response, and the others stay. -/
theorem recvFrame_responses (h : AreResponses c.pending) (timeoutMs : ℤ) :
    AreResponses (c.recvFrame timeoutMs).2.pending ∧
      (c.Ready ∧ StatsInFront c.pending →
        (decodeReply (c.recvFrame timeoutMs).1).bind parseStats = some (0, [])) ∧
      (¬(c.Ready ∧ StatsInFront c.pending) →
        (decodeReply (c.recvFrame timeoutMs).1).bind parseStats = none) := by
  by_cases hready : c.Ready
  · obtain ⟨hframe, hrest⟩ := @recvFrame_of_ready c timeoutMs hready
    obtain ⟨_ | ⟨⟨reqId, resp⟩, calls⟩, hcalls, hpending⟩ := h
    · have hten := hready.1
      rw [hpending] at hten
      exact absurd hten (by decide)
    obtain ⟨payload, hcall⟩ := hcalls _ List.mem_cons_self
    have hresp : resp = emptyStats ∨ IsRefusal resp :=
      (handleBinaryRequest_empty hcall).2.imp And.right And.right
    rw [List.map_cons, List.flatten_cons] at hpending
    obtain ⟨hlen, hfront, hparse⟩ := front_packResponse reqId hresp
      (calls.map fun c => packResponse c.1 c.2).flatten
    rw [hpending, hlen, List.take_left] at hframe
    rw [hpending, hlen, List.drop_left] at hrest
    rw [hframe, hrest, hparse, hpending, hfront]
    refine ⟨⟨calls, fun c hc => hcalls c (List.mem_cons_of_mem _ hc), rfl⟩, fun hs => if_pos hs.2,
      fun hs => if_neg fun heq => hs ⟨hready, heq⟩⟩
  · obtain ⟨hframe, hrest⟩ := @recvFrame_of_not_ready c timeoutMs hready
    rw [hframe, hrest]
    exact ⟨h, fun hs => absurd hs.1 hready, fun _ => rfl⟩

theorem areResponses_query (h : AreResponses c.pending) : AreResponses c.query.pending := by
  unfold query
  split_ifs
  · exact (recvFrame_responses (areResponses_ask h) 3000).1
  · exact areResponses_ask h
  · exact h

end Connection

section Queries

variable {m : Master} {s : Cluster} {node : UInt32} {t : Tablet}

/-- A statistics query to a DataNode without storage: the count is zero if it gets statistics. -/
theorem run_queryTabletStats_empty (m : Master) (hnode : s.nodes node = ⟨none⟩)
    (hconn : AreResponses (s.connections node).pending) (hbounded : t.Bounded) :
    ∃ r s', Cluster.env.run (queryTabletStats node t.startKey t.endKey) (m, s)
        = (some r, (m, s')) ∧
      s'.nodes node = ⟨none⟩ ∧ s'.connections node = (s.connections node).query ∧
      ((s.connections node).GetsStats → r = some (0, [])) ∧
      (¬(s.connections node).GetsStats → r = none) := by
  by_cases hopen : (s.connections node).connected = true
  · let q : Request := ⟨node, 1, rangePayload OP_TABLET_STATS t.startKey t.endKey⟩
    have hserve : (s.nodes node).serve q.data = (packResponse 1 emptyStats, ⟨none⟩) := by
      rw [hnode]
      exact serve_request ((t.range hbounded).fitsFrame _)
        (handleBinaryRequest_statsRequest 1 (isStatsRequest_rangePayload hbounded.1 hbounded.2))
    have hask : (s.send node q.data).connections node = (s.connections node).ask := by
      rw [Cluster.connections_send, hserve]
      rfl
    have hrest : (s.after q 3000).connections node = (s.connections node).query := by
      unfold Cluster.after Connection.query
      rw [if_pos hopen]
      split_ifs
      · rw [← hask]
        exact Function.update_self _ _ _
      · exact hask
    have hkept : (s.after q 3000).nodes node = ⟨none⟩ := by
      rw [Cluster.nodes_after, Cluster.nodes_send, hserve]
      split_ifs
      · exact Function.update_self _ _ _
      · exact hnode
    refine ⟨_, _, run_queryTabletStats m s node hopen _ _, hkept, hrest, ?_⟩
    show (_ → (s.reply q 3000).bind parseStats = _) ∧ (_ → (s.reply q 3000).bind parseStats = _)
    obtain ⟨-, hstats, hnone⟩ :=
      Connection.recvFrame_responses (Connection.areResponses_ask hconn) 3000
    rw [Cluster.reply, Cluster.received, hask]
    by_cases hok : (s.connections node).sendOutcome.ok = true
    · rw [if_pos hok]
      exact ⟨fun h => hstats h.2.2, fun h => hnone fun hs => h ⟨hopen, hok, hs⟩⟩
    · rw [if_neg hok]
      exact ⟨fun h => absurd h.2.1 hok, fun _ => rfl⟩
  · have hrun := run_queryTabletStats_closed m s node hopen t.startKey t.endKey
    exact ⟨_, s, hrun, hnode, (if_neg hopen).symm, fun h => absurd h.1 hopen, fun _ => rfl⟩

/-- A statistics query to another node leaves this one and its connection alone. -/
theorem run_queryTabletStats_other (m : Master) (s : Cluster) (hne : t.nodeId ≠ node) :
    ∃ r s', Cluster.env.run (queryTabletStats t.nodeId t.startKey t.endKey) (m, s)
        = (some r, (m, s')) ∧
      s'.nodes node = s.nodes node ∧ s'.connections node = s.connections node := by
  by_cases hopen : (s.connections t.nodeId).connected = true
  · refine ⟨_, _, run_queryTabletStats m s t.nodeId hopen _ _, ?_, connections_after_of_ne 3000 hne.symm⟩
    rw [Cluster.nodes_after, Cluster.nodes_send]
    split_ifs
    · exact Function.update_of_ne hne.symm _ _
    · rfl
  · exact ⟨_, s, run_queryTabletStats_closed m s t.nodeId hopen _ _, rfl, rfl⟩

/-! ## All statistics, and the loads -/

/-- The tablets on a node. -/
def tabletsOn (node : UInt32) (tablets : List Tablet) : List Tablet :=
  tablets.filter fun t => t.nodeId = node

theorem tabletsOn_concat {t : Tablet} (h : t.nodeId = node) (l : List Tablet) :
    tabletsOn node (l ++ [t]) = tabletsOn node l ++ [t] := by
  simp [tabletsOn, h]

theorem tabletsOn_concat_of_ne {t : Tablet} (h : t.nodeId ≠ node) (l : List Tablet) :
    tabletsOn node (l ++ [t]) = tabletsOn node l := by
  simp [tabletsOn, h]

/-- The statistics leave the key counts on a node as they were, and its load does not drop. -/
def KeepsCounts (m : Master) (s : Cluster) (node : UInt32) : Prop :=
  ∀ r m' s', Cluster.env.run syncAllTabletStats (m, s) = (r, (m', s')) →
    tabletsOn node m'.tablets = tabletsOn node m.tablets ∧
      ¬((nodeLoad m'.tablets).find? node.toNat).getD 0 < ((nodeLoad m.tablets).find? node.toNat).getD 0

open Classical in
/-- What the statistics make of a tablet whose query finds the connection as `c`. -/
noncomputable def zeroed (c : Connection) (t : Tablet) : Tablet :=
  if c.GetsStats then { t with keyCount := 0 } else t

theorem nodeId_zeroed (c : Connection) (t : Tablet) : (zeroed c t).nodeId = t.nodeId := by
  unfold zeroed
  split_ifs <;> rfl

theorem zeroed_eq_self {c : Connection} {t : Tablet} :
    zeroed c t = t ↔ t.keyCount = 0 ∨ ¬c.GetsStats := by
  unfold zeroed
  split_ifs with hgets
  · constructor
    · exact fun h => .inl (congrArg Tablet.keyCount h).symm
    · intro h
      rw [← h.resolve_right (not_not.mpr hgets)]
  · exact iff_of_true rfl (.inr hgets)

/-- The statistics of `done` were asked for, with `done'` for a result. The DataNode `node` has no
storage, and its connection was `c`. -/
structure Asked (node : UInt32) (c : Connection) (done done' : List Tablet) (s : Cluster) : Prop where
  storage : s.nodes node = ⟨none⟩
  pending : AreResponses (s.connections node).pending
  connection : s.connections node = Connection.query^[(tabletsOn node done).length] c
  tablets : tabletsOn node done'
    = (tabletsOn node done).mapIdx fun i t => zeroed (Connection.query^[i] c) t

section Asked

variable {c : Connection} {done done' : List Tablet} (h : Asked node c done done' s)

include h

/-- The next tablet is on the node. -/
theorem Asked.same (m : Master) (hon : t.nodeId = node) (hbounded : t.Bounded) :
    ∃ r s', Cluster.env.run (queryTabletStats t.nodeId t.startKey t.endKey) (m, s)
        = (some r, (m, s')) ∧
      Asked node c (done ++ [t]) (done' ++ [r.elim t fun a => { t with keyCount := a.1 }]) s' := by
  obtain ⟨r, s', hrun, hnode, hconn, hstats, hnone⟩ :=
    run_queryTabletStats_empty m h.storage h.pending hbounded
  have hresult : (r.elim t fun a => { t with keyCount := a.1 }) = zeroed (s.connections node) t := by
    unfold zeroed
    split_ifs with hgets
    · rw [hstats hgets]
      rfl
    · rw [hnone hgets]
      rfl
  have hlast := tabletsOn_concat hon done
  refine ⟨r, s', hon.symm ▸ hrun, hnode, ?_, ?_, ?_⟩
  · rw [hconn]
    exact Connection.areResponses_query h.pending
  · rw [hconn, h.connection, hlast, List.length_append, List.length_singleton,
      Function.iterate_succ_apply']
  · rw [hresult, tabletsOn_concat ((nodeId_zeroed _ t).trans hon), hlast, List.mapIdx_concat,
      h.tablets, h.connection]

/-- The next tablet is on another node. -/
theorem Asked.other (m : Master) (hoff : t.nodeId ≠ node) :
    ∃ r s', Cluster.env.run (queryTabletStats t.nodeId t.startKey t.endKey) (m, s)
        = (some r, (m, s')) ∧
      Asked node c (done ++ [t]) (done' ++ [r.elim t fun a => { t with keyCount := a.1 }]) s' := by
  obtain ⟨r, s', hrun, hnode, hconn⟩ := run_queryTabletStats_other m s hoff
  have hresult : ((r.elim t fun a => { t with keyCount := a.1 }) : Tablet).nodeId ≠ node := by
    cases r <;> exact hoff
  have hsame := tabletsOn_concat_of_ne hoff done
  refine ⟨r, s', hrun, hnode.trans h.storage, hconn.symm ▸ h.pending, ?_, ?_⟩
  · rw [hconn, h.connection, hsame]
  · rw [hsame, ← h.tablets, tabletsOn_concat_of_ne hresult]

end Asked

/-- The statistics set the count of each tablet on the node to zero whose query gets an answer. -/
theorem run_syncAllTabletStats_empty (hnode : s.nodes node = ⟨none⟩)
    (hconn : AreResponses (s.connections node).pending)
    (hbounded : ∀ t ∈ tabletsOn node m.tablets, t.Bounded) :
    ∃ tablets s', Cluster.env.run syncAllTabletStats (m, s) = (some (), ({ m with tablets }, s')) ∧
      Asked node (s.connections node) m.tablets tablets s' := by
  refine run_syncAllTabletStats_of (fun done t todo hm done' m s hasked => ?_)
    ⟨hnode, hconn, rfl, rfl⟩
  by_cases hon : t.nodeId = node
  · refine hasked.same m hon (hbounded t (List.mem_filter.mpr ⟨?_, by simpa using hon⟩))
    rw [hm]
    exact List.mem_append_right done List.mem_cons_self
  · exact hasked.other m hon

/-- The counts on a node without storage stay exactly when none of its queries gets statistics that
matter. -/
theorem keepsCounts_iff (hnode : s.nodes node = ⟨none⟩)
    (hconn : AreResponses (s.connections node).pending)
    (hbounded : ∀ t ∈ tabletsOn node m.tablets, t.Bounded) :
    KeepsCounts m s node ↔ ∀ i t, (tabletsOn node m.tablets)[i]? = some t →
      t.keyCount = 0 ∨ ¬(Connection.query^[i] (s.connections node)).GetsStats := by
  obtain ⟨tablets, s', hrun, hasked⟩ := run_syncAllTabletStats_empty hnode hconn hbounded
  have hsame : tabletsOn node tablets = tabletsOn node m.tablets ↔
      ∀ i t, (tabletsOn node m.tablets)[i]? = some t →
        t.keyCount = 0 ∨ ¬(Connection.query^[i] (s.connections node)).GetsStats := by
    rw [hasked.tablets, List.ext_getElem?_iff]
    refine forall_congr' fun i => ?_
    rw [List.getElem?_mapIdx]
    rcases hi : (tabletsOn node m.tablets)[i]? with _ | t
    · exact iff_of_true rfl fun t ht => absurd ht (by simp)
    · simp only [Option.map_some, Option.some_inj, zeroed_eq_self, forall_eq']
  rw [← hsame]
  constructor
  · exact fun h => (h _ _ _ hrun).1
  · intro hkept r m' s₁ hrun'
    obtain ⟨rfl, rfl, rfl⟩ : some () = r ∧ { m with tablets } = m' ∧ s' = s₁ := by
      rw [hrun] at hrun'
      obtain ⟨hr, hw⟩ := Prod.mk.inj hrun'
      exact ⟨hr, Prod.mk.inj hw⟩
    refine ⟨hkept, ?_⟩
    have hload : loadOf tablets node = loadOf m.tablets node :=
      congrArg (fun l => (l.map Tablet.keyCount).sum) hkept
    rw [nodeLoad_find?, nodeLoad_find?, hload]
    exact UInt64.lt_irrefl _

end Queries

/-- A DataNode without storage reports no success exactly where it is not asked for the statistics of
a range. When the Master does ask, whatever is lost or late, it keeps the counts and the load of the
node exactly when no query about a tablet with keys gets an answer. -/
theorem noStorage_iff (m : Master) (s : Cluster) (node : UInt32)
    (hstorage : (s.nodes node).storage = none) (hconn : AreResponses (s.connections node).pending)
    (hbounded : ∀ t ∈ tabletsOn node m.tablets, t.Bounded) :
    (∀ reqId payload, NoSuccess reqId payload (s.nodes node) ↔ ¬IsStatsRequest payload) ∧
    (KeepsCounts m s node ↔ ∀ i t, (tabletsOn node m.tablets)[i]? = some t →
      t.keyCount = 0 ∨ ¬(Connection.query^[i] (s.connections node)).GetsStats) := by
  have hnode : s.nodes node = ⟨none⟩ := by rw [← hstorage]
  refine ⟨fun reqId payload => ?_, keepsCounts_iff hnode hconn hbounded⟩
  rw [hnode]
  exact noSuccess_iff_not_statsRequest reqId payload

/-- DataNodes that come back without storage, on connections where nothing fails. -/
def noStorages : Cluster := { Cluster.quiet with nodes := fun _ => ⟨none⟩ }

theorem bounded_counted (count : ℕ) :
    ∀ t ∈ tabletsOn 2 (counted twoNodes fun _ => count).tablets, t.Bounded := by
  have hreach : Reachable twoNodes (counted twoNodes fun _ => count) :=
    reachable_counted (by decide) (by decide) _
  exact fun t ht => hreach.short t (List.mem_of_mem_filter ht)

/-- The same, where the next request to each node is lost on its way. -/
def lostRequests : Cluster := { noStorages with
  connections := fun _ => { Connection.fresh with sends := [⟨true, false⟩] } }

/-- Nine keys were counted, and the query gets no answer. -/
theorem noStorage_keepsNine : KeepsCounts (counted twoNodes fun _ => 9) lostRequests 2 := by
  refine (noStorage_iff _ lostRequests 2 rfl ⟨[], by simp, rfl⟩ (bounded_counted 9)).2.mpr ?_
  intro i t ht
  have hone : (tabletsOn 2 (counted twoNodes fun _ => 9).tablets).length = 1 := by decide
  obtain rfl : i = 0 := Nat.lt_one_iff.mp (hone ▸ (List.getElem?_eq_some_iff.mp ht).1)
  -- nothing is pending, and nothing comes
  have hempty : ¬10 ≤ frameLength (lostRequests.connections 2).ask.pending := by decide
  exact .inr fun hgets => hempty hgets.2.2.1.1

/-- The statistics of all keys, and the counts of a table that had nine keys on each node. -/
theorem not_noSuccess : (¬∀ reqId payload, NoSuccess reqId payload ⟨none⟩) ∧
    ¬∀ m, Reachable twoNodes m → KeepsCounts m noStorages 2 := by
  have hnil : Short [] := Nat.two_pow_pos 16
  constructor
  · intro h
    exact h 1 _ _ _ (handleBinaryRequest_tabletStats ⟨none⟩ hnil hnil 1) rfl
  · intro h
    have hreach : Reachable twoNodes (counted twoNodes fun _ => 9) :=
      reachable_counted (by decide) (by decide) _
    have hkeeps := (keepsCounts_iff rfl ⟨[], by simp, rfl⟩ (bounded_counted 9)).mp (h _ hreach)
    have hgets : (noStorages.connections 2).GetsStats :=
      ⟨rfl, rfl, by decide, 1, List.prefix_refl _⟩
    rcases hkeeps 0 ⟨1, [], [0x6D], 2, 9⟩ (by decide) with hzero | hnot
    · exact absurd hzero (by decide)
    · exact hnot hgets

end LeKV
