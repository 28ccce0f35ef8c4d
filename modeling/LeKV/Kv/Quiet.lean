import LeKV.Kv.Ownership
import LeKV.Kv.Stores

/-!
# The balancer when nothing fails

On quiet connections every request is answered in time, and the connections are quiet again
afterwards. Statistics queries then change nothing, and a migration between DataNodes whose storage
works ends with the state that `run_migrateTablet_quiet` names.
-/

namespace LeKV

open Bytes BinaryProtocol Balancer

/-! ## Quiet connections -/

/-- Nothing is pending, and nothing will fail or be late. -/
structure Connection.Quiet (c : Connection) : Prop where
  pending : c.pending = []
  sends : c.sends = []
  arrivals : c.arrivals = []

namespace Connection

variable {c c' : Connection}

theorem quiet_fresh : fresh.Quiet := ⟨rfl, rfl, rfl⟩

theorem Quiet.sendOutcome (h : c.Quiet) : c.sendOutcome = ⟨true, true⟩ := by
  rw [Connection.sendOutcome, h.sends]
  rfl

/-- A reply whose length field is its length is delivered. -/
theorem Quiet.delivers (h : c.Quiet) {reply : Bytes} (hten : 10 ≤ reply.length)
    (hwhole : frameLength reply = reply.length) : c.Delivers reply := by
  refine ⟨h.sendOutcome, hwhole.symm ▸ hten, ?_⟩
  rw [h.arrivals, hwhole]
  exact le_rfl

theorem Quiet.deliversPuts (h : c.Quiet) (n : ℕ) : c.DeliversPuts n := by
  intro i hi
  rw [h.sends, h.arrivals]
  exact ⟨rfl, le_rfl⟩

theorem Advanced.quiet {n : ℕ} (h : c.Advanced c' n) (hc : c.Quiet) : c'.Quiet where
  pending := h.pending
  sends := by rw [h.sends, hc.sends, List.drop_nil]
  arrivals := by rw [h.arrivals, hc.arrivals, List.drop_nil]

end Connection

namespace Cluster

/-- All connections of the Master are quiet. -/
def Quiet (s : Cluster) : Prop :=
  ∀ node, (s.connections node).connected = true → (s.connections node).Quiet

theorem Quiet.setNode {s : Cluster} (h : s.Quiet) (node : UInt32) (n : DataNode) {c : Connection}
    (hc : c.Quiet) : (s.setNode node n c).Quiet := by
  intro other hother
  by_cases hne : other = node
  · rw [hne, connections_setNode_self]
    exact hc
  · rw [connections_setNode_of_ne _ _ _ hne] at hother ⊢
    exact h other hother

/-- A request on a quiet connection, whose response fits, leaves the cluster quiet. -/
theorem Quiet.after {s : Cluster} (h : s.Quiet) {q : Request} {status : UInt8} {value : Bytes}
    {n' : DataNode} (hconn : (s.connections q.node).connected = true) (hfit : FitsFrame q.payload)
    (hh : DataNode.handleBinaryRequest q.reqId q.payload (s.nodes q.node)
      = some (status :: value, n')) (hvalue : 15 + value.length < 2 ^ 32) (timeoutMs : ℤ) :
    (s.after q timeoutMs).Quiet ∧ (s.after q timeoutMs).nodes = Function.update s.nodes q.node n' := by
  have hc := h q.node hconn
  obtain ⟨hlen, hwhole⟩ := packResponse_whole q.reqId status hvalue
  have hadvanced := advanced_exchange hc.pending (hc.delivers (by omega) hwhole)
    (isReply_packResponse q.reqId _) hwhole timeoutMs
  rw [after_of_sent hc.sendOutcome hfit hh]
  exact ⟨h.setNode _ _ (hadvanced.quiet hc), rfl⟩

/-- A request on a quiet connection, whose response fits, is answered with that response. -/
theorem Quiet.reply {s : Cluster} (h : s.Quiet) {q : Request} {status : UInt8} {value : Bytes}
    {n' : DataNode} (hconn : (s.connections q.node).connected = true) (hfit : FitsFrame q.payload)
    (hh : DataNode.handleBinaryRequest q.reqId q.payload (s.nodes q.node)
      = some (status :: value, n')) (hvalue : 15 + value.length < 2 ^ 32) (timeoutMs : ℤ) :
    s.reply q timeoutMs = some (status :: (be 4 value.length ++ value)) := by
  have hc := h q.node hconn
  obtain ⟨hlen, hwhole⟩ := packResponse_whole q.reqId status hvalue
  have hreceived := received_of_clean (q := q) hc.pending hfit hh timeoutMs
  rw [if_pos (hc.delivers (by omega) hwhole), hwhole, List.take_length] at hreceived
  rw [Cluster.reply, hreceived]
  exact decodeReply_whole q.reqId status hvalue

/-- No operation opens or closes a connection. -/
theorem connected_run {α : Type} (p : Balancer α) (w : Master × Cluster) (node : UInt32) :
    ((Cluster.env.run p w).2.2.connections node).connected
      = (w.2.connections node).connected := by
  have hupdate : ∀ (f : UInt32 → Connection) (other : UInt32) (c : Connection),
      c.connected = (f other).connected →
      (Function.update f other c node).connected = (f node).connected := by
    intro f other c hc
    rw [Function.update_apply]
    split_ifs with h
    · rw [hc, h]
    · rfl
  refine Environment.run_keeps (I := fun s : Cluster => (s.connections node).connected
    = (w.2.connections node).connected) ⟨fun other data s hs => ?_, fun other t s hs => ?_⟩
    (keepsFiles_of fun _ connections => (connections node).connected
      = (w.2.connections node).connected) (fun s hs => hs) p rfl
  · rw [← hs]
    show ((s.send other data).connections node).connected = (s.connections node).connected
    unfold send
    dsimp only
    split_ifs
    · exact hupdate _ _ _ rfl
    · exact hupdate _ _ _ rfl
  · have hrecv := hupdate s.connections other ((s.connections other).recvFrame t).2 rfl
    exact hrecv.trans hs

/-- No operation changes what the file operations come to. -/
theorem outcomes_run {α : Type} (p : Balancer α) (w : Master × Cluster) :
    (Cluster.env.run p w).2.2.outcomes = w.2.outcomes := by
  refine Environment.run_keeps (I := fun s : Cluster => s.outcomes = w.2.outcomes)
    ⟨fun other data s hs => ?_, fun other t s hs => hs⟩
    ⟨fun s hs => ?_, fun text s hs => hs, fun s hs => ?_⟩ (fun s hs => hs) p rfl
  · rw [← hs]
    show (s.send other data).outcomes = s.outcomes
    unfold send
    dsimp only
    split_ifs <;> rfl
  · exact (apply_ite Cluster.outcomes _ _ _).trans ((ite_self _).trans hs)
  · exact (apply_ite Cluster.outcomes _ _ _).trans ((ite_self _).trans hs)

end Cluster

/-! ## Statistics -/

/-- The median of stored keys is a stored key, or empty. -/
theorem length_rangeStats {n : DataNode} (hn : n.Storables) {st : StorageEngine}
    (hst : n.storage = some st) (start end_ : Bytes) :
    (st.rangeStats start end_).2.length < 2 ^ 16 := by
  unfold StorageEngine.rangeStats
  dsimp only
  generalize ((st.rangeQuery start end_).map Prod.fst).length / 2 = i
  rw [List.getD_eq_getElem?_getD]
  rcases hi : ((st.rangeQuery start end_).map Prod.fst)[i]? with _ | key
  · exact Nat.two_pow_pos 16
  · obtain ⟨e, he, rfl⟩ := List.mem_map.mp (List.mem_of_getElem? hi)
    exact (storable_of_mem_rangeQuery hn hst e he).1

/-- A statistics query leaves a quiet cluster quiet and the DataNodes as they are. -/
theorem keepsQuery_quiet {nodes : UInt32 → DataNode} (hstored : ∀ node, (nodes node).Storables) :
    Cluster.env.KeepsQuery Short fun s => s.nodes = nodes ∧ s.Quiet := by
  rintro node start end_ hstart hend m s ⟨rfl, hquiet⟩
  by_cases hconn : (s.connections node).connected = true
  · let r : KeyRange := ⟨start, end_, hstart, hend⟩
    refine ⟨_, _, run_queryTabletStats m s node hconn start end_, ?_⟩
    have hmedian : ((s.nodes node).dataNodeGetTabletStats start end_).2.length < 2 ^ 16 := by
      unfold DataNode.dataNodeGetTabletStats
      rcases hst : (s.nodes node).storage with _ | st
      · exact Nat.two_pow_pos 16
      · exact length_rangeStats (hstored node) hst start end_
    obtain ⟨hafter, hnodes⟩ := hquiet.after (q := ⟨node, 1, rangePayload OP_TABLET_STATS start end_⟩)
      hconn (r.fitsFrame _)
      (DataNode.handleBinaryRequest_tabletStats (s.nodes node) hstart hend 1) (by
        simp only [List.length_append, length_be]
        omega) 3000
    exact ⟨hnodes.trans (Function.update_eq_self _ _), hafter⟩
  · refine ⟨none, s, ?_, rfl, hquiet⟩
    unfold queryTabletStats
    rw [Environment.run_isConnected]
    exact congrArg (fun p => Cluster.env.run p (m, s)) (if_pos hconn)

theorem keepsFiles_quiet (nodes : UInt32 → DataNode) :
    Cluster.env.KeepsFiles fun s => s.nodes = nodes ∧ s.Quiet :=
  keepsFiles_of fun nodes' connections => nodes' = nodes ∧
    ∀ node, (connections node).connected = true → (connections node).Quiet

/-! ## Migrations -/

/-- The response to the scan of a tablet fits a frame. -/
def ScanFits (s : Cluster) (t : Tablet) : Prop :=
  ∀ st, (s.nodes t.nodeId).storage = some st →
    15 + (DataNode.scanBody (t.pairs st)).length < 2 ^ 32

section Migrate

variable {m : Master} {s : Cluster} {idx : ℕ} {dst : UInt32} {t : Tablet}

/-- On quiet connections to DataNodes with storage, a transfer that fits a frame succeeds. -/
theorem transferSucceeds_quiet (hquiet : s.Quiet) (hbounded : t.Bounded)
    (hsrc : (s.connections t.nodeId).connected = true) (hdst : (s.connections dst).connected = true)
    {st : StorageEngine} (hst : (s.nodes t.nodeId).storage = some st) (hfits : ScanFits s t) :
    TransferSucceeds s t.nodeId dst (t.range hbounded) st where
  storage := hst
  connected_src := hsrc
  connected_dst := hdst
  scan := by
    obtain ⟨hlen, hwhole⟩ := packResponse_whole 1 ST_OK (hfits st hst)
    exact (hquiet _ hsrc).delivers (hlen ▸ (by omega)) hwhole
  readable := (scanReadable_of_fits (hfits st hst)).1
  puts := (hquiet _ hdst).deliversPuts _

/-- The destination of a copied tablet. -/
theorem DataNode.Works.lookup_putAll_pairs {n src : DataNode} (hn : n.Works) {st : StorageEngine}
    (hst : src.storage = some st) (k : Bytes) :
    (n.putAll (t.pairs st)).lookup k
      = if t.Contains k then (src.lookup k).or (n.lookup k) else n.lookup k := by
  have hmem : ∀ v, (k, v) ∈ t.pairs st ↔ src.lookup k = some v ∧ t.Contains k :=
    fun v => Tablet.mem_pairs hst
  by_cases hpair : ∃ v, (k, v) ∈ t.pairs st
  · obtain ⟨v, hv⟩ := hpair
    obtain ⟨hlookup, hk⟩ := (hmem v).mp hv
    obtain ⟨j, hj⟩ := List.mem_iff_getElem?.mp hv
    have hput := DataNode.lookup_putAll n (st.rangeQuery_sorted t.startKey t.endKey) hj
    rw [hn.accepts j, if_pos rfl] at hput
    rw [if_pos hk, hlookup, Option.some_or]
    exact hput
  · have hother : ∀ e ∈ t.pairs st, e.1 ≠ k := by
      rintro ⟨key, v⟩ he rfl
      exact hpair ⟨v, he⟩
    rw [DataNode.lookup_putAll_of_notMem n hother]
    split_ifs with hk
    · have hnone : src.lookup k = none := by
        rw [Option.eq_none_iff_forall_ne_some]
        exact fun v hv => hpair ⟨v, (hmem v).mpr ⟨hv, hk⟩⟩
      rw [hnone, Option.none_or]
    · rfl

/-- The end of a migration on quiet connections: unless `dump` threw, the range is deleted at the
source. -/
theorem run_finish_quiet (m : Master) (hquiet : s.Quiet) {src : UInt32} (r : KeyRange)
    (hsrc : (s.connections src).connected = true) (hworks : (s.nodes src).Works) :
    ∃ result s', Cluster.env.run (do
        saveTablets
        let _deleted ← sendDeleteRange src r.start r.end_
        return true) (m, s) = (result, (m, s')) ∧ s'.Quiet ∧
      (result = some true ∧
          s'.nodes = Function.update s.nodes src ((s.nodes src).deleteRange r.start r.end_).2 ∨
        result = none ∧ s.outcomes.opens = true ∧ dump (document m) = none ∧
          s'.nodes = s.nodes) := by
  obtain ⟨saved, s₁, hsave, hnodes, hconns⟩ :=
    Environment.run_saveTablets (keepsFiles_of fun nodes connections =>
      nodes = s.nodes ∧ connections = s.connections) m (s := s) ⟨rfl, rfl⟩
  have hquiet₁ : s₁.Quiet := by
    unfold Cluster.Quiet
    rw [hconns]
    exact hquiet
  rcases saved with _ | _
  · obtain ⟨hopens, hdump⟩ := Environment.dump_of_run_saveTablets hsave
    exact ⟨none, s₁, Environment.run_bind_none hsave _, hquiet₁, .inr ⟨rfl, hopens, hdump, hnodes⟩⟩
  · have hsrc₁ : (s₁.connections src).connected = true := hconns ▸ hsrc
    have hdel := run_sendDeleteRange m s₁ src hsrc₁ r.start r.end_
    have hh := DataNode.handleBinaryRequest_deleteRange (s₁.nodes src) r.start_lt r.end_lt 1
    rw [hnodes] at hh
    have hh' : DataNode.handleBinaryRequest 1 (rangePayload OP_DELETE_RANGE r.start r.end_)
        (s₁.nodes src) = some ([ST_OK], ((s.nodes src).deleteRange r.start r.end_).2) := by
      rw [hnodes, hh, ← (hworks.deleteRange r.start r.end_).1]
    obtain ⟨hafter, hnodes'⟩ := hquiet₁.after
      (q := ⟨src, 1, rangePayload OP_DELETE_RANGE r.start r.end_⟩) hsrc₁ (r.fitsFrame _) hh'
      (by norm_num) 10000
    rw [hnodes] at hnodes'
    exact ⟨some true, _, (Environment.run_bind_some hsave _).trans
      (Environment.run_bind_some hdel _), hafter, .inl ⟨rfl, hnodes'⟩⟩

/-- A migration between connected DataNodes: the route is switched, the destination has a copy of the
tablet, and, unless `dump` threw, the source has lost it. -/
theorem run_migrateTablet_quiet (hquiet : s.Quiet) (hidx : m.tablets[idx]? = some t)
    (hne : t.nodeId ≠ dst) (hbounded : t.Bounded)
    (hsrc : (s.connections t.nodeId).connected = true) (hdst : (s.connections dst).connected = true)
    (hworks : (s.nodes t.nodeId).Works) (hstored : (s.nodes t.nodeId).Storables)
    {st : StorageEngine} (hst : (s.nodes t.nodeId).storage = some st) (hfits : ScanFits s t) :
    ∃ result s', Cluster.env.run (migrateTablet idx dst) (m, s)
        = (result, (m.moveTo idx dst, s')) ∧ s'.Quiet ∧
      let copied := Function.update s.nodes dst ((s.nodes dst).putAll (t.pairs st))
      (result = some true ∧ s'.nodes = Function.update copied t.nodeId
          ((s.nodes t.nodeId).deleteRange t.startKey t.endKey).2 ∨
        result = none ∧ s.outcomes.opens = true ∧ dump (document (m.moveTo idx dst)) = none ∧
          s'.nodes = copied) := by
  obtain ⟨hlen, hwhole⟩ := packResponse_whole 1 ST_OK (hfits st hst)
  have hall : (t.pairs st).take (announced (t.pairs st)) = t.pairs st := by
    rw [(scanReadable_of_fits (hfits st hst)).2, List.take_length]
  obtain ⟨c, hc, hscan⟩ := run_scanAndTransferData_succeeds m hne (hquiet _ hsrc).pending
    (hquiet _ hdst).pending hstored
    (transferSucceeds_quiet hquiet hbounded hsrc hdst hst hfits)
  have hdelivers : (s.connections t.nodeId).Delivers
      (packResponse 1 (ST_OK :: DataNode.scanBody (t.pairs st))) :=
    (hquiet _ hsrc).delivers (hlen ▸ (by omega)) hwhole
  have hadvanced := advanced_exchange (hquiet _ hsrc).pending hdelivers
    (isReply_packResponse _ _) hwhole 30000
  rw [Environment.run_migrateTablet hidx hne hscan, if_pos rfl]
  show ∃ result s', Cluster.env.run _ (_, (s.scanned t.nodeId (t.pairs st)).setNode dst
    ((s.nodes dst).putAll ((t.pairs st).take (announced (t.pairs st)))) c) = _ ∧ _
  rw [hall]
  -- the cluster after the transfer
  let s₁ := (s.scanned t.nodeId (t.pairs st)).setNode dst ((s.nodes dst).putAll (t.pairs st)) c
  have hquiet₁ : s₁.Quiet :=
    (hquiet.setNode _ _ (hadvanced.quiet (hquiet _ hsrc))).setNode _ _ (hc.quiet (hquiet _ hdst))
  have hconn₁ : (s₁.connections t.nodeId).connected = true := by
    rw [Cluster.connections_setNode_of_ne _ _ _ hne, Cluster.scanned,
      Cluster.connections_setNode_self, hadvanced.connected]
    exact hsrc
  have hnodes₁ : s₁.nodes = Function.update s.nodes dst ((s.nodes dst).putAll (t.pairs st)) := by
    show Function.update (Function.update s.nodes t.nodeId (s.nodes t.nodeId)) dst _ = _
    rw [Function.update_eq_self]
  have hnode₁ : s₁.nodes t.nodeId = s.nodes t.nodeId := by
    rw [hnodes₁]
    exact Function.update_of_ne hne _ _
  have hfinish := run_finish_quiet (m.moveTo idx dst) hquiet₁ (t.range hbounded) hconn₁
    (hnode₁ ▸ hworks)
  rw [hnode₁, hnodes₁] at hfinish
  exact hfinish

end Migrate

end LeKV
