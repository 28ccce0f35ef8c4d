import LeKV.Kv.OneMap

/-!
# Keys that were deleted

Where requests of the Master may fail, a migration can stop half-way and leave copies at its
destination, or end without deleting the old range at its source. Nobody sees them until a later
migration makes their node the owner. `deleted_stays_deleted`: a deleted key stays deleted in every
run whose migrations find no such copies and read no older reply to a scan.
-/

namespace LeKV

open Bytes BinaryProtocol Sharding Balancer

/-! ## Runs with failing requests -/

/-- Between two actions connections are lost or come back, and the network is up to something new.
What is pending stays. -/
structure Cluster.Rescheduled (s s' : Cluster) : Prop where
  nodes : s'.nodes = s.nodes
  connections : ∀ node, ∃ connected sends arrivals,
    s'.connections node = { s.connections node with connected, sends, arrivals }

/-- The states after the clients' operations `ops`, in this order, with balancer actions in between.
Requests of the Master fail in any way; an action finds a state with `C` and runs to its end. -/
inductive FaultyRun (C : World → BalancerAction → Prop) (w₀ : World) : List ClientOp → World → Prop where
  | start : FaultyRun C w₀ [] w₀
  | client {ops : List ClientOp} {w w' : World} {o : ClientOp} {reqId : UInt32} {resp : Bytes}
      (h : FaultyRun C w₀ ops w) (hfits : o.Fits) (hexec : o.exec reqId w = some (resp, w')) :
      FaultyRun C w₀ (ops ++ [o]) w'
  | action {ops : List ClientOp} {w : World} (h : FaultyRun C w₀ ops w) (a : BalancerAction)
      {s : Cluster} (hs : w.2.Rescheduled s) (ha : C (w.1, s) a) {ok : Bool} {w' : World}
      (hrun : Cluster.env.run a.prog (w.1, s) = (some ok, w')) : FaultyRun C w₀ ops w'

/-- A key that was deleted and not written since is not found. -/
def StaysDeleted (ops : List ClientOp) (w : World) : Prop :=
  ∀ (k : Bytes) (ops₁ ops₂ : List ClientOp), ops = ops₁ ++ .delete k :: ops₂ →
    (∀ v, .put k v ∉ ops₂) →
    ∀ reqId, ((ClientOp.get k).exec reqId w).map Prod.fst = some [ST_NOT_FOUND]

/-- The pairs that the Master reads from the reply to the scan of a tablet. -/
def Cluster.scanRead (s : Cluster) (t : Tablet) : Option (List (Bytes × Bytes)) := do
  let resp ← s.reply ⟨t.nodeId, 1, rangePayload OP_SCAN_RANGE t.startKey t.endKey⟩ 30000
  let count ← scanCount resp
  return pairsFrom resp count 9

/-- A migration of `t` to `dst` that reads `pairs` brings no key back: the source holds these keys,
and all keys of the tablet that the destination holds already. -/
structure BringsNothingBack (s : Cluster) (dst : UInt32) (t : Tablet) (pairs : List (Bytes × Bytes)) :
    Prop where
  read : ∀ e ∈ pairs, t.Contains e.1 ∧ (s.nodes t.nodeId).lookup e.1 ≠ none
  copies : ∀ k, t.Contains k → (s.nodes dst).lookup k ≠ none → (s.nodes t.nodeId).lookup k ≠ none

/-- The migration of an action, if its scan is answered, finds no copies left behind. -/
def NoStaleCopies (w : World) (a : BalancerAction) : Prop :=
  ∀ idx dst t, a.target w.1.tablets = some (idx, dst) → w.1.tablets[idx]? = some t →
    t.nodeId ≠ dst → ∀ pairs, w.2.scanRead t = some pairs → BringsNothingBack w.2 dst t pairs

/-! ## Keys without a value -/

/-- A key without a value in the map has none after the operations either, unless one writes it. -/
theorem mapAfter_delete {k : Bytes} {ops₁ ops₂ : List ClientOp} (h : ∀ v, .put k v ∉ ops₂) :
    mapAfter (ops₁ ++ .delete k :: ops₂) k = none := by
  have hkeep : ∀ (ops : List ClientOp) (σ : Bytes → Option Bytes), (∀ v, .put k v ∉ ops) →
      σ k = none → ops.foldl (fun σ o => o.update σ) σ k = none := by
    intro ops
    induction ops with
    | nil => exact fun σ _ hσ => hσ
    | cons o ops ih =>
      intro σ hops hσ
      apply ih _ (fun v hv => hops v (List.mem_cons_of_mem o hv))
      cases o with
      | put key value =>
        have hne : k ≠ key := by
          rintro rfl
          exact hops value List.mem_cons_self
        exact (Function.update_of_ne hne _ _).trans hσ
      | get key => exact hσ
      | delete key =>
        show Function.update σ key none k = none
        rw [Function.update_apply, hσ, ite_self]
  rw [mapAfter, List.foldl_append, List.foldl_cons]
  exact hkeep ops₂ _ h (Function.update_self _ _ _)

/-- Where a larger map has no value after an operation, a smaller one has none either. -/
theorem ClientOp.update_none {σ τ : Bytes → Option Bytes} (h : ∀ k, σ k = none → τ k = none)
    (o : ClientOp) {k : Bytes} (hk : o.update σ k = none) : o.update τ k = none := by
  cases o with
  | put key value =>
    have hkey : Function.update σ key (some value) k = none := hk
    show Function.update τ key (some value) k = none
    rw [Function.update_apply] at hkey ⊢
    split_ifs at hkey ⊢
    exact h k hkey
  | get key => exact h k hk
  | delete key =>
    have hkey : Function.update σ key none k = none := hk
    show Function.update τ key none k = none
    rw [Function.update_apply] at hkey ⊢
    split_ifs at hkey ⊢
    · rfl
    · exact h k hkey

/-- The cluster has a value for keys of `σ` only. -/
structure Within (σ : Bytes → Option Bytes) (w : World) : Prop where
  tiles : Tiles w.1.tablets
  short : Boundaries Short w.1.tablets
  sound : Sound w.2.nodes
  view : ∀ k, σ k = none → w.sharded.view k = none

theorem Start.within {peers : List PeerInfo} {w : World} (h : Start peers w) :
    Within (fun _ => none) w := by
  have hrefines := h.refines
  exact ⟨hrefines.tiles, hrefines.short, ⟨hrefines.works, hrefines.storables⟩,
    fun k _ => congrFun hrefines.view k⟩

section Step

variable {σ : Bytes → Option Bytes} {w w' : World}

/-! ## Clients -/

/-- An operation gives a value to a key of `σ` only, as it leaves it. -/
theorem Within.exec (h : Within σ w) {o : ClientOp} (hfits : o.Fits) {reqId : UInt32} {resp : Bytes}
    (hexec : o.exec reqId w = some (resp, w')) : Within (o.update σ) w' := by
  obtain ⟨n, hexec', hn, hlookup, hstored⟩ := ClientOp.exec_spec h.tiles h.sound.works hfits reqId
  obtain ⟨-, rfl⟩ := Prod.mk.inj (Option.some.inj (hexec'.symm.trans hexec))
  refine ⟨h.tiles, h.short, h.sound.update _ hn (hstored (h.sound.storables _)), fun k hk => ?_⟩
  rw [sharded_update hlookup, Sharded.view_set_owner, update_view]
  exact o.update_none h.view hk

/-- A `GET` of a key without a value in `σ`. -/
theorem Within.get (h : Within σ w) {k : Bytes} (hfits : (ClientOp.get k).Fits) (hk : σ k = none)
    (reqId : UInt32) : ((ClientOp.get k).exec reqId w).map Prod.fst = some [ST_NOT_FOUND] := by
  obtain ⟨n, hexec, -⟩ := ClientOp.exec_spec h.tiles h.sound.works hfits reqId
  rw [hexec, Option.map_some, ClientOp.answer, h.view k hk]

/-! ## Balancer actions -/

/-- Queries leave the stores as they are, also where they fail. -/
theorem keepsQuery_nodes (nodes : UInt32 → DataNode) :
    Cluster.env.KeepsQuery Short fun s => s.nodes = nodes := by
  intro node start end_ hstart hend m s hs
  have hqueries : Requests (fun q => q = ⟨node, 1, rangePayload OP_TABLET_STATS start end_⟩)
      (fun _ => True) (queryTabletStats node start end_) := queryTabletStats_requests rfl
  obtain ⟨r, s', hrun, -, hs'⟩ := hqueries.run (J := fun s => s.nodes = nodes) (by
    rintro q timeoutMs s' rfl hs'
    rw [Cluster.nodes_after, nodes_send_of_kept (KeyRange.fitsFrame ⟨start, end_, hstart, hend⟩ _)
      fun n => ⟨_, DataNode.handleBinaryRequest_tabletStats n hstart hend 1⟩]
    exact hs') m hs
  exact ⟨r, s', hrun, hs'⟩

theorem Within.of_table (h : Within σ w) (howners : SameOwners w w')
    (hnodes : w'.2.nodes = w.2.nodes) : Within σ w' := by
  have hsharded := sharded_eq h.tiles howners.tiles howners.owner hnodes
  exact ⟨howners.tiles, howners.short, hnodes ▸ h.sound, hsharded ▸ h.view⟩

end Step

section Transfer

variable {m : Master} {s : Cluster} {dst : UInt32} {t : Tablet}

/-- What a migration of `t` to `dst` may leave in the stores of `s`: nothing new, apart from copies at
`dst` of keys that the source held in the tablet. -/
structure Spreads (s : Cluster) (dst : UInt32) (t : Tablet) (nodes : UInt32 → DataNode) : Prop where
  sound : Sound nodes
  lookup : ∀ node k, (nodes node).lookup k ≠ none → (s.nodes node).lookup k ≠ none ∨
    (node = dst ∧ t.Contains k ∧ (s.nodes t.nodeId).lookup k ≠ none)

theorem Spreads.refl (h : Sound s.nodes) : Spreads s dst t s.nodes := ⟨h, fun _ _ hne => .inl hne⟩

/-- A `PUT` of a key that the source holds. -/
theorem Spreads.put {nodes : UInt32 → DataNode} (h : Spreads s dst t nodes) {e : Bytes × Bytes}
    (hfit : FitsPut e) (he : t.Contains e.1 ∧ (s.nodes t.nodeId).lookup e.1 ≠ none) :
    Spreads s dst t (Function.update nodes dst ((nodes dst).put e.1 e.2).2) where
  sound := h.sound.update dst ((h.sound.works dst).put e.1 e.2).2
    ((h.sound.storables dst).put ⟨hfit.1, lt_of_le_of_lt (Nat.le_add_left _ _) hfit.2⟩)
  lookup node k hne := by
    rw [Function.update_apply] at hne
    split_ifs at hne with hnode
    · rw [DataNode.lookup_put] at hne
      split_ifs at hne with hk
      · exact .inr ⟨hnode, hk.1 ▸ he⟩
      · exact hnode ▸ h.lookup dst k hne
    · exact h.lookup node k hne

/-- A deletion of the tablet's range. -/
theorem Spreads.deleteRange {nodes : UInt32 → DataNode} (h : Spreads s dst t nodes) (node : UInt32)
    (start end_ : Bytes) :
    Spreads s dst t (Function.update nodes node ((nodes node).deleteRange start end_).2) where
  sound := h.sound.update node ((h.sound.works node).deleteRange start end_).2
    ((h.sound.storables node).deleteRange start end_)
  lookup other k hne := by
    rw [Function.update_apply] at hne
    split_ifs at hne with hother
    · obtain ⟨v, hv⟩ := Option.ne_none_iff_exists'.mp hne
      refine hother ▸ h.lookup node k ?_
      rw [DataNode.lookup_of_deleteRange hv]
      exact Option.some_ne_none v
    · exact h.lookup other k hne

/-- A transfer, however it ends: where it reports success, a reply to the scan was read. -/
theorem run_transfer_spreads (m : Master) (dst : UInt32) (hsound : Sound s.nodes) (hbounded : t.Bounded)
    (hread : ∀ pairs, s.scanRead t = some pairs → ∀ e ∈ pairs,
      t.Contains e.1 ∧ (s.nodes t.nodeId).lookup e.1 ≠ none) :
    ∃ ok s', Cluster.env.run (scanAndTransferData t.nodeId dst t.startKey t.endKey) (m, s)
        = (some ok, (m, s')) ∧ Spreads s dst t s'.nodes ∧
      (ok = true → ∃ pairs, s.scanRead t = some pairs) := by
  by_cases hconn : (s.connections t.nodeId).connected = true ∧ (s.connections dst).connected = true
  swap
  · exact ⟨false, s, run_scanAndTransferData_disconnected m s hconn _ _, .refl hsound,
      fun h => absurd h Bool.false_ne_true⟩
  have hrun := run_scanAndTransferData m s hconn.1 hconn.2 t.startKey t.endKey
  -- the scan leaves the stores as they are
  obtain ⟨reply, s₁, hcall, hfits, hnodes⟩ := (call_requests
    (R := fun q => q = ⟨t.nodeId, 1, rangePayload OP_SCAN_RANGE t.startKey t.endKey⟩) 30000 rfl).run
    (J := fun s' => s'.nodes = s.nodes) (by
      rintro q timeoutMs s' rfl hs'
      rw [Cluster.nodes_after, nodes_send_of_kept ((t.range hbounded).fitsFrame _)
        fun n => ⟨_, DataNode.handleBinaryRequest_scanRange' n hbounded.1 hbounded.2 1⟩]
      exact hs') m rfl
  obtain ⟨hreply, hafter⟩ := Prod.mk.inj ((run_call m s t.nodeId 30000 _).symm.trans hcall)
  obtain ⟨-, rfl⟩ := Prod.mk.inj hafter
  obtain rfl := Option.some.inj hreply
  have hspreads : Spreads s dst t (s.after
      ⟨t.nodeId, 1, rangePayload OP_SCAN_RANGE t.startKey t.endKey⟩ 30000).nodes :=
    hnodes ▸ .refl hsound
  dsimp only at hrun
  rcases hresp : s.reply ⟨t.nodeId, 1, rangePayload OP_SCAN_RANGE t.startKey t.endKey⟩ 30000
    with _ | resp
  · rw [hresp] at hrun
    exact ⟨false, _, hrun, hspreads, fun h => absurd h Bool.false_ne_true⟩
  rw [hresp] at hrun
  dsimp only at hrun
  rcases hcount : scanCount resp with _ | count
  · rw [hcount] at hrun
    exact ⟨false, _, hrun, hspreads, fun h => absurd h Bool.false_ne_true⟩
  rw [hcount] at hrun
  dsimp only at hrun
  -- the loop puts pairs of the reply
  have hscan : s.scanRead t = some (pairsFrom resp count 9) := by
    unfold Cluster.scanRead
    simp only [Option.bind_eq_bind, hresp, Option.bind_some, hcount]
    rfl
  have hfitsResp : FitsFrame resp := hfits resp hresp
  obtain ⟨n, s₂, hloop, -, hs₂⟩ := (transferLoop_requests
    (R := fun q => ∃ e ∈ pairsFrom resp count 9, FitsPut e ∧
      ∃ reqId, q = ⟨dst, reqId, kvPayload OP_PUT e.1 e.2⟩) hfitsResp 0 le_rfl 0
    fun e he reqId => ⟨e, he, fitsPut_of_mem_pairsFrom hfitsResp le_rfl e he, reqId, rfl⟩).run
    (J := fun s' => Spreads s dst t s'.nodes) (by
      rintro q timeoutMs s' ⟨e, he, hfit, reqId, rfl⟩ hs'
      rw [Cluster.nodes_after, nodes_send_put s' hfit]
      split_ifs
      · exact hs'.put hfit (hread _ hscan e he)
      · exact hs') m hspreads
  rw [Environment.run_bind_some hloop] at hrun
  exact ⟨_, s₂, hrun, hs₂, fun _ => ⟨_, hscan⟩⟩

/-- With nothing pending, what is read is what the source holds, and only the copies matter. -/
theorem bringsNothingBack_iff (hsrc : (s.connections t.nodeId).pending = [])
    (hstored : (s.nodes t.nodeId).Storables) (hbounded : t.Bounded) {pairs : List (Bytes × Bytes)}
    (hread : s.scanRead t = some pairs) : BringsNothingBack s dst t pairs ↔
      ∀ k, t.Contains k → (s.nodes dst).lookup k ≠ none → (s.nodes t.nodeId).lookup k ≠ none := by
  refine ⟨BringsNothingBack.copies, fun hcopies => ⟨fun e he => ?_, hcopies⟩⟩
  obtain ⟨resp, hreply, hread⟩ := Option.bind_eq_some_iff.mp hread
  obtain ⟨count, hcount, hpairs⟩ := Option.bind_eq_some_iff.mp hread
  obtain rfl := Option.some.inj hpairs
  obtain ⟨-, st, hst, hheld⟩ := pairs_of_reply (t.range hbounded) hsrc hstored hreply hcount
  obtain ⟨hlookup, hk⟩ := (Tablet.mem_pairs hst).mp (hheld e he)
  exact ⟨hk, hlookup ▸ Option.some_ne_none e.2⟩

end Transfer

section Action

variable {σ : Bytes → Option Bytes} {w w' : World}

/-- A migration that finds no copies left behind brings no key back, however it ends. -/
theorem Within.migrate (h : Within σ w) {idx : ℕ} {dst : UInt32}
    (hstale : ∀ t, w.1.tablets[idx]? = some t → t.nodeId ≠ dst → ∀ pairs,
      w.2.scanRead t = some pairs → BringsNothingBack w.2 dst t pairs)
    {r : Option Bool} (hrun : Cluster.env.run (migrateTablet idx dst) w = (r, w')) : Within σ w' := by
  obtain ⟨m, s⟩ := w
  by_cases hstay : ∀ t, m.tablets[idx]? = some t → t.nodeId = dst
  · obtain ⟨-, rfl⟩ := Prod.mk.inj ((Environment.run_migrateTablet_of_stay hstay).symm.trans hrun)
    exact h
  push Not at hstay
  obtain ⟨t, hidx, hne⟩ := hstay
  have ht : t ∈ m.tablets := List.mem_of_getElem? hidx
  have hbounded : t.Bounded := h.short t ht
  have howner : ∀ k, t.Contains k → (World.sharded (m, s)).owner k = t.nodeId :=
    fun k hk => h.tiles.ownerOf_of_mem ht hk
  obtain ⟨ok, s₁, hscan, hspreads, hread⟩ := run_transfer_spreads m dst h.sound hbounded
    fun pairs hpairs => (hstale t hidx hne pairs hpairs).read
  rw [Environment.run_migrateTablet hidx hne hscan] at hrun
  cases ok with
  | false =>
    obtain ⟨-, rfl⟩ := Prod.mk.inj hrun
    have hspread : (World.sharded (m, s)).Spread (World.sharded (m, s₁)) t.Contains t.nodeId dst :=
      hspreads.lookup
    refine ⟨h.tiles, h.short, hspreads.sound, fun k hk => ?_⟩
    by_contra hne
    exact hspread.view howner rfl hne (h.view k hk)
  | true =>
    obtain ⟨pairs, hpairs⟩ := hread rfl
    obtain ⟨result, s', hfinish, hs'⟩ := run_finish_keeps (J := Spreads s dst t) (r := t.range hbounded)
      (fun nodes hnodes => hnodes.deleteRange t.nodeId t.startKey t.endKey) (m.moveTo idx dst)
      hspreads
    obtain ⟨-, rfl⟩ := Prod.mk.inj (hfinish.symm.trans hrun)
    have hspread : (World.sharded (m, s)).Spread (World.sharded (m.moveTo idx dst, s')) t.Contains
        t.nodeId dst := hs'.lookup
    refine ⟨h.tiles.moveTo, short_moveTo hidx h.short, hs'.sound, fun k hk => ?_⟩
    by_contra hne'
    refine hspread.view_assign howner (funext fun k => h.tiles.ownerOf_moveTo hidx dst k)
      (hstale t hidx hne pairs hpairs).copies hne' (h.view k hk)

/-- The clock does not matter to the scan. -/
theorem scanRead_now (s : Cluster) (t : Tablet) :
    (Cluster.env.now s).2.scanRead t = s.scanRead t := by
  unfold Cluster.scanRead Cluster.reply Cluster.received
  rw [Cluster.connections_send, Cluster.connections_send]
  rfl

/-- Every action that runs to its end gives a value to no other key. -/
theorem Within.action (h : Within σ w) {a : BalancerAction} (hstale : NoStaleCopies w a) {ok : Bool}
    (hrun : Cluster.env.run a.prog w = (some ok, w')) : Within σ w' := by
  cases a with
  | sync =>
    rcases hsync : Cluster.env.run syncAllTabletStats w with ⟨_ | _, w₁⟩
    · rw [BalancerAction.prog, Environment.run_bind_none hsync] at hrun
      exact absurd (congrArg Prod.fst hrun) (by simp)
    · rw [BalancerAction.prog, Environment.run_bind_some hsync] at hrun
      obtain ⟨-, rfl⟩ := Prod.mk.inj hrun
      obtain ⟨howners, hnodes⟩ :=
        sameOwners_sync (keepsQuery_nodes w.2.nodes) h.tiles h.short rfl hsync
      exact h.of_table howners hnodes
  | split idx =>
    obtain ⟨howners, hnodes⟩ := sameOwners_split (keepsQuery_nodes w.2.nodes) h.tiles h.short rfl
      (keepsFiles_of fun nodes _ => nodes = w.2.nodes) hrun
    exact h.of_table howners hnodes
  | migrate idx dst => exact h.migrate (fun t ht => hstale idx dst t rfl ht) hrun
  | balance =>
    obtain ⟨m, s⟩ := w
    rcases htarget : balanceTarget m.tablets with _ | ⟨target, dst⟩
    · obtain ⟨-, rfl⟩ := Prod.mk.inj ((Environment.run_doLoadBalance_none htarget).symm.trans hrun)
      exact h
    · have hclock : Within σ (m, (Cluster.env.now s).2) := ⟨h.tiles, h.short, h.sound, h.view⟩
      rcases hmig : Cluster.env.run (migrateTablet target dst) (m, (Cluster.env.now s).2)
        with ⟨r, m₁, s₁⟩
      obtain ⟨count, time, s₂, hrun', hs₂⟩ := Environment.run_doLoadBalance_some htarget hmig
      obtain ⟨rfl, rfl⟩ := Prod.mk.inj (hrun'.symm.trans hrun)
      have h₁ := hclock.migrate (fun t ht hne pairs hpairs => by
        have hback := hstale target dst t htarget ht hne pairs (scanRead_now s t ▸ hpairs)
        exact ⟨hback.read, hback.copies⟩) hmig
      rcases hs₂ with rfl | rfl
      · exact ⟨h₁.tiles, h₁.short, h₁.sound, h₁.view⟩
      · exact ⟨h₁.tiles, h₁.short, h₁.sound, h₁.view⟩

end Action

/-! ## Whole runs -/

/-- After a run whose migrations find no copies left behind, the cluster has values only for keys that
the clients' operations leave one. -/
theorem FaultyRun.within {peers : List PeerInfo} {w₀ w : World} {ops : List ClientOp}
    (hstart : Start peers w₀) (h : FaultyRun NoStaleCopies w₀ ops w) : Within (mapAfter ops) w := by
  induction h with
  | start => exact hstart.within
  | @client ops w w' o reqId resp h hfits hexec ih =>
    rw [mapAfter, List.foldl_append]
    exact ih.exec hfits hexec
  | @action ops w h a s hs ha ok w' hrun ih =>
    have ih' : Within (mapAfter ops) (w.1, s) := by
      refine ⟨ih.tiles, ih.short, hs.nodes ▸ ih.sound, fun k hk => ?_⟩
      show (s.nodes (ownerOf w.1.tablets k)).lookup k = none
      rw [hs.nodes]
      exact ih.view k hk
    exact ih'.action ha hrun

/-- The clients' operations fit their requests. -/
theorem FaultyRun.fits {C : World → BalancerAction → Prop} {w₀ w : World} {ops : List ClientOp}
    (h : FaultyRun C w₀ ops w) : ∀ o ∈ ops, o.Fits := by
  induction h with
  | start => exact fun o ho => absurd ho List.not_mem_nil
  | client h hfits hexec ih =>
    intro o ho
    rcases List.mem_append.mp ho with ho | ho
    · exact ih o ho
    · rw [List.mem_singleton.mp ho]
      exact hfits
  | action h a hs ha hrun ih => exact ih

/-- In every run from empty stores whose migrations find no copies left behind, whatever requests of
the Master fail, a deleted key stays deleted. -/
theorem deleted_stays_deleted {peers : List PeerInfo} {w₀ w : World} {ops : List ClientOp}
    (hstart : Start peers w₀) (h : FaultyRun NoStaleCopies w₀ ops w) : StaysDeleted ops w := by
  rintro k ops₁ ops₂ rfl hput reqId
  have hfits : (ClientOp.delete k).Fits :=
    h.fits _ (List.mem_append_right ops₁ List.mem_cons_self)
  exact (h.within hstart).get hfits (mapAfter_delete hput) reqId

/-! ## A copy left behind -/

section Examples

variable {C : World → BalancerAction → Prop} {w₀ w : World} {ops : List ClientOp}

/-- The state after an operation. -/
def ClientOp.next (o : ClientOp) (w : World) : World := ((o.exec 7 w).map Prod.snd).getD w

theorem FaultyRun.next (h : FaultyRun C w₀ ops w) {o : ClientOp} (hfits : o.Fits)
    (hsome : (o.exec 7 w).isSome = true) : FaultyRun C w₀ (ops ++ [o]) (o.next w) := by
  obtain ⟨⟨resp, w'⟩, hexec⟩ := Option.isSome_iff_exists.mp hsome
  have hnext : o.next w = w' := by rw [ClientOp.next, hexec]; rfl
  exact hnext ▸ .client h hfits hexec

theorem FaultyRun.act (h : FaultyRun C w₀ ops w) (a : BalancerAction) {s : Cluster}
    (hs : w.2.Rescheduled s) (ha : C (w.1, s) a) (ok : Bool)
    (hok : (Cluster.env.run a.prog (w.1, s)).1 = some ok) :
    FaultyRun C w₀ ops (Cluster.env.run a.prog (w.1, s)).2 :=
  .action h a hs ha (Prod.ext hok rfl)

/-- The `Send` of the first `PUT` to node 3 fails, though node 3 may have executed it. -/
def keyTransferred (executed : Bool) : Cluster :=
  { keyWritten with
    connections := Function.update keyWritten.connections 3
      { keyWritten.connections 3 with sends := [⟨false, executed⟩] } }

theorem rescheduled_keyTransferred (executed : Bool) :
    keyWritten.Rescheduled (keyTransferred executed) where
  nodes := rfl
  connections node := by
    have hconn : (keyTransferred executed).connections node = { keyWritten.connections node with
        sends := if node = 3 then [⟨false, executed⟩] else (keyWritten.connections node).sends } := by
      show Function.update keyWritten.connections 3 _ node = _
      rw [Function.update_apply]
      split_ifs with hnode
      · rw [hnode]
      · rfl
    exact ⟨_, _, _, hconn⟩

theorem faultyRun_keyWritten :
    FaultyRun C (initialMaster, emptyCluster) [.put [0x61] [0x31]] (initialMaster, keyWritten) :=
  @FaultyRun.client C _ _ _ _ (.put [0x61] [0x31]) 5 [ST_OK] .start ⟨by decide, by decide⟩ rfl

/-- A migration of the key stops half-way, then the key is deleted. -/
def keyDeleted (executed : Bool) : World :=
  (ClientOp.delete [0x61]).next
    (Cluster.env.run (migrateTablet 0 3) (initialMaster, keyTransferred executed)).2

/-- Where the `PUT` was not executed, nothing is left behind. -/
theorem deleted_stays_deleted_lost :
    StaysDeleted [.put [0x61] [0x31], .delete [0x61]] (keyDeleted false) := by
  have hstale : NoStaleCopies (initialMaster, keyTransferred false) (.migrate 0 3) := by
    rintro idx dst t ⟨⟩ ⟨⟩ - pairs hpairs
    refine (bringsNothingBack_iff rfl ?_ ⟨by decide, by decide⟩ hpairs).mpr fun k _ hne => absurd ?_ hne
    · rintro st ⟨⟩
      decide
    · rfl
  have hrun := (@faultyRun_keyWritten NoStaleCopies).act (.migrate 0 3)
    (rescheduled_keyTransferred false) hstale false (by decide +kernel)
  exact deleted_stays_deleted emptyCluster_start
    (hrun.next (o := .delete [0x61]) (by norm_num [ClientOp.Fits]) (by decide +kernel))

/-- Where it was, a later migration makes the copy visible. -/
theorem not_stays_deleted_copied : ¬∀ (peers : List PeerInfo) (w₀ w : World) (ops : List ClientOp),
    Start peers w₀ → FaultyRun (fun _ _ => True) w₀ ops w → StaysDeleted ops w := by
  intro hall
  have hrun := (@faultyRun_keyWritten fun _ _ => True).act (.migrate 0 3)
    (rescheduled_keyTransferred true) trivial false (by decide +kernel)
  have hdeleted : FaultyRun (fun _ _ => True) (initialMaster, emptyCluster)
      [.put [0x61] [0x31], .delete [0x61]] (keyDeleted true) :=
    hrun.next (o := .delete [0x61]) (by norm_num [ClientOp.Fits]) (by decide +kernel)
  have hmoved := hdeleted.act (.migrate 0 3) (s := (keyDeleted true).2)
    ⟨rfl, fun node => ⟨_, _, _, rfl⟩⟩ trivial true (by decide +kernel)
  have hget := hall twoNodes _ _ _ emptyCluster_start hmoved [0x61] [.put [0x61] [0x31]] [] rfl
    (fun v hv => absurd hv List.not_mem_nil) 7
  exact absurd hget (by decide +kernel)

end Examples

end LeKV
