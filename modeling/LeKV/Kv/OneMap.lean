import LeKV.Kv.Clients
import LeKV.Kv.Quiet

/-!
# The cluster is one map

Where nothing fails and balancer actions run to their end between the clients' operations, the
cluster answers as a single map, and no DataNode holds a key that the routing table assigns to
another one (`cluster_refines_map`). `Refines` is the invariant: the table tiles the key space, the
owners of the keys hold the map, and nobody else holds anything.
-/

namespace LeKV

open Bytes BinaryProtocol Sharding Balancer

/-- The migration that an action tries: a tablet and its destination. -/
def BalancerAction.target (a : BalancerAction) (tablets : List Tablet) : Option (ℕ × UInt32) :=
  match a with
  | sync => none
  | split _ => none
  | migrate idx dst => some (idx, dst)
  | balance => balanceTarget tablets

/-- The response to the scan of an action's migration fits a frame. -/
def BalancerAction.Fits (a : BalancerAction) (w : World) : Prop :=
  ∀ idx dst t, a.target w.1.tablets = some (idx, dst) → w.1.tablets[idx]? = some t → ScanFits w.2 t

/-- The start of the system: the initial table of at least two DataNodes, all of them connected, and
empty stores. -/
structure Start (peers : List PeerInfo) (w : World) : Prop where
  two_le : 2 ≤ (dataNodes peers).length
  tablets : ∃ tablets, buildInitialTablets peers = some tablets ∧ w.1 = { Master.init with tablets }
  connected : ∀ node, (w.2.connections node).connected = true ↔ node ∈ dataNodes peers
  fresh : ∀ node ∈ dataNodes peers, w.2.connections node = .fresh
  empty : ∀ node, w.2.nodes node = ⟨some .fresh⟩

/-- The states after the clients' operations `ops`, in this order, with balancer actions in between.
Each action finds file operations and a clock of its own, and runs to its end. -/
inductive Run (w₀ : World) : List ClientOp → World → Prop where
  | start : Run w₀ [] w₀
  | client {ops : List ClientOp} {w w' : World} {o : ClientOp} {reqId : UInt32} {resp : Bytes}
      (h : Run w₀ ops w) (hfits : o.Fits) (hexec : o.exec reqId w = some (resp, w')) :
      Run w₀ (ops ++ [o]) w'
  | action {ops : List ClientOp} {w : World} (h : Run w₀ ops w) (a : BalancerAction)
      (hfits : a.Fits w) (outcomes : FileOutcomes) (clock : List ℤ) {ok : Bool} {w' : World}
      (hrun : Cluster.env.run a.prog (w.1, { w.2 with outcomes, clock }) = (some ok, w')) :
      Run w₀ ops w'

/-- A single map after some operations. -/
def mapAfter (ops : List ClientOp) : Bytes → Option Bytes :=
  ops.foldl (fun σ o => o.update σ) fun _ => none

/-- The cluster holds the map `σ`, each key at its owner and nowhere else. -/
structure Refines (σ : Bytes → Option Bytes) (w : World) : Prop where
  tiles : Tiles w.1.tablets
  short : Boundaries Short w.1.tablets
  quiet : w.2.Quiet
  works : ∀ node, (w.2.nodes node).Works
  storables : ∀ node, (w.2.nodes node).Storables
  view : w.sharded.view = σ
  exclusive : w.sharded.Exclusive

/-! ## The start -/

theorem Start.refines {peers : List PeerInfo} {w : World} (h : Start peers w) :
    Refines (fun _ => none) w := by
  obtain ⟨tablets, hinit, hmaster⟩ := h.tablets
  have hempty : ∀ node, (w.2.nodes node).lookup = fun _ => none := by
    intro node
    rw [h.empty]
    rfl
  refine ⟨?_, ?_, fun node hnode => ?_, fun node => ?_, fun node => ?_, funext fun k => ?_, ?_⟩
  · rw [hmaster]
    exact (buildInitialTablets_spec h.two_le hinit).1
  · rw [hmaster]
    unfold buildInitialTablets at hinit
    rcases hdn : dataNodes peers with _ | ⟨a, _ | ⟨b, l⟩⟩
    · simp [hdn] at hinit
      subst hinit
      intro t ht
      exact absurd ht (by simp)
    · simp [hdn] at hinit
    · rw [hdn] at hinit
      obtain rfl := Option.some.inj hinit
      show Boundaries Short [_, _]
      simp [Boundaries, Short]
  · rw [h.fresh node ((h.connected node).mp hnode)]
    exact Connection.quiet_fresh
  · rw [h.empty]
    exact ⟨_, rfl⟩
  · rw [DataNode.storables_iff, hempty]
    exact fun k v hk => absurd hk (by simp)
  · exact congrFun (hempty _) k
  · intro node k hne
    exact absurd (congrFun (hempty node) k) hne

/-! ## Clients -/

section Step

variable {σ : Bytes → Option Bytes} {w w' : World}

/-- In a cluster that holds `σ`, an operation is answered from `σ` and leaves what it leaves of it. -/
theorem Refines.exec (h : Refines σ w) {o : ClientOp} (hfits : o.Fits) (reqId : UInt32) :
    ∃ w', o.exec reqId w = some (o.answer σ, w') ∧ Refines (o.update σ) w' := by
  obtain ⟨n, hexec, hn, hlookup, hstored⟩ := ClientOp.exec_spec h.tiles h.works hfits reqId
  have hsharded := sharded_update hlookup
  rw [h.view] at hexec
  refine ⟨_, hexec, h.tiles, h.short, h.quiet, fun node => ?_, fun node => ?_, ?_, ?_⟩
  · show (Function.update w.2.nodes (ownerOf w.1.tablets o.key) n node).Works
    rw [Function.update_apply]
    split_ifs
    · exact hn
    · exact h.works node
  · show (Function.update w.2.nodes (ownerOf w.1.tablets o.key) n node).Storables
    rw [Function.update_apply]
    split_ifs
    · exact hstored (h.storables _)
    · exact h.storables node
  · rw [hsharded, Sharded.view_set_owner, h.view, update_view]
  · rw [hsharded]
    exact h.exclusive.set_owner _ _

/-! ## Balancer actions -/

/-- What the cluster holds depends on the owners and the stores only. -/
theorem sharded_eq (htiles : Tiles w.1.tablets) (htiles' : Tiles w'.1.tablets)
    (howner : ∀ k node, Owner w'.1.tablets k node ↔ Owner w.1.tablets k node)
    (hnodes : w'.2.nodes = w.2.nodes) : w'.sharded = w.sharded := by
  refine Sharded.ext (funext fun k => ?_) (funext fun node => ?_)
  · exact htiles'.ownerOf_eq_iff.mpr ((howner k _).mpr (htiles.ownerOf_eq_iff.mp rfl))
  · show (w'.2.nodes node).lookup = (w.2.nodes node).lookup
    rw [hnodes]

/-- The table is another one, but sends every key to the same node. -/
structure SameOwners (w w' : World) : Prop where
  tiles : Tiles w'.1.tablets
  short : Boundaries Short w'.1.tablets
  owner : ∀ k node, Owner w'.1.tablets k node ↔ Owner w.1.tablets k node

section SameOwners

variable {I : Cluster → Prop} (hI : Cluster.env.KeepsQuery Short I) (htiles : Tiles w.1.tablets)
  (hshort : Boundaries Short w.1.tablets) (hs : I w.2)

include hI htiles hshort hs

/-- New key counts change no owner. -/
theorem sameOwners_sync {r : Option Unit} (hrun : Cluster.env.run syncAllTabletStats w = (r, w')) :
    SameOwners w w' ∧ I w'.2 := by
  obtain ⟨ts, s', hrun', hts, hs'⟩ := Environment.run_syncAllTabletStats hI w.1 hshort hs
  obtain ⟨-, rfl⟩ := Prod.mk.inj (hrun'.symm.trans hrun)
  refine ⟨⟨?_, hshort.of_assignment_eq hts, fun k node => owner_of_assignment_eq hts⟩, hs'⟩
  show Tiles ts
  rw [Tiles, map_interval_eq hts]
  exact htiles

/-- A split changes no owner. -/
theorem sameOwners_split (hF : Cluster.env.KeepsFiles I) {idx : ℕ} {r : Option Bool}
    (hrun : Cluster.env.run (trySplitTablet idx) w = (r, w')) : SameOwners w w' ∧ I w'.2 := by
  obtain ⟨s', hs', hcases⟩ := Environment.run_trySplitTablet hI hF w.1 hshort hs idx
  rcases hcases with hrun' | ⟨old, keyCount, median, r', hidx, -, hpoint, -, hrun'⟩
  · obtain ⟨-, rfl⟩ := Prod.mk.inj (hrun'.symm.trans hrun)
    exact ⟨⟨htiles, hshort, fun _ _ => Iff.rfl⟩, hs'⟩
  · obtain ⟨-, rfl⟩ := Prod.mk.inj (hrun'.symm.trans hrun)
    exact ⟨⟨htiles.split hidx hpoint.start_lt hpoint.lt_end ⟨rfl, rfl⟩ ⟨rfl, rfl⟩,
      short_splitAt keyCount hidx hpoint hshort,
      fun k node => owner_splitAt keyCount hidx hpoint⟩, hs'⟩

end SameOwners

/-- New key counts and new halves of tablets change nothing that is seen. -/
theorem Refines.of_table (h : Refines σ w) (howners : SameOwners w w')
    (hs' : w'.2.nodes = w.2.nodes ∧ w'.2.Quiet) : Refines σ w' := by
  obtain ⟨hnodes, hquiet⟩ := hs'
  have hsharded := sharded_eq h.tiles howners.tiles howners.owner hnodes
  exact ⟨howners.tiles, howners.short, hquiet, hnodes ▸ h.works, hnodes ▸ h.storables,
    hsharded ▸ h.view, hsharded ▸ h.exclusive⟩

theorem Refines.sync (h : Refines σ w) {r : Option Unit}
    (hrun : Cluster.env.run syncAllTabletStats w = (r, w')) : Refines σ w' := by
  obtain ⟨howners, hs'⟩ :=
    sameOwners_sync (keepsQuery_quiet h.storables) h.tiles h.short ⟨rfl, h.quiet⟩ hrun
  exact h.of_table howners hs'

theorem Refines.split (h : Refines σ w) {idx : ℕ} {r : Option Bool}
    (hrun : Cluster.env.run (trySplitTablet idx) w = (r, w')) : Refines σ w' := by
  obtain ⟨howners, hs'⟩ := sameOwners_split (keepsQuery_quiet h.storables) h.tiles h.short
    ⟨rfl, h.quiet⟩ (keepsFiles_quiet w.2.nodes) hrun
  exact h.of_table howners hs'

/-- What the cluster holds after the keys of a tablet were copied, assigned and deleted. -/
theorem sharded_moved {m : Master} {s s' : Cluster} {idx : ℕ} {dst : UInt32} {t : Tablet}
    {st : StorageEngine} (htiles : Tiles m.tablets) (hidx : m.tablets[idx]? = some t)
    (hdst : (s.nodes dst).Works) (hsrc : (s.nodes t.nodeId).Works)
    (hst : (s.nodes t.nodeId).storage = some st) (hne : t.nodeId ≠ dst)
    (hnodes : s'.nodes = Function.update
      (Function.update s.nodes dst ((s.nodes dst).putAll (t.pairs st))) t.nodeId
        ((s.nodes t.nodeId).deleteRange t.startKey t.endKey).2) :
    World.sharded (m.moveTo idx dst, s')
      = (World.sharded (m, s)).move t.Contains t.nodeId dst := by
  refine Sharded.ext (funext fun k => ?_) (funext fun node => funext fun k => ?_)
  · exact htiles.ownerOf_moveTo hidx dst k
  · have hdropped : ((World.sharded (m, s)).move t.Contains t.nodeId dst).store node k =
        if node = t.nodeId ∧ t.Contains k then none
        else ((World.sharded (m, s)).copy t.Contains t.nodeId dst).store node k :=
      Sharded.store_drop _ _ _ _ _
    rw [hdropped, Sharded.store_copy]
    show (s'.nodes node).lookup k = if node = t.nodeId ∧ t.Contains k then none else
      if node = dst ∧ t.Contains k then
        ((s.nodes t.nodeId).lookup k).or ((s.nodes dst).lookup k) else (s.nodes node).lookup k
    rw [hnodes]
    by_cases hsrcnode : node = t.nodeId
    · subst hsrcnode
      rw [Function.update_self, hsrc.lookup_deleteRange]
      simp [hne]
    · rw [Function.update_of_ne hsrcnode]
      by_cases hdstnode : node = dst
      · subst hdstnode
        rw [Function.update_self, hdst.lookup_putAll_pairs hst]
        simp [hsrcnode]
      · rw [Function.update_of_ne hdstnode]
        simp [hsrcnode, hdstnode]

/-- A migration that runs to its end changed nothing, or moved a tablet between two connected
DataNodes. -/
theorem Refines.migrate_cases (h : Refines σ w) {idx : ℕ} {dst : UInt32}
    (hfits : ∀ t, w.1.tablets[idx]? = some t → ScanFits w.2 t) {ok : Bool}
    (hrun : Cluster.env.run (migrateTablet idx dst) w = (some ok, w')) :
    (ok = false ∧ w' = w) ∨ (ok = true ∧ ∃ t st, w.1.tablets[idx]? = some t ∧ t.nodeId ≠ dst ∧
      (w.2.connections dst).connected = true ∧ (w.2.nodes t.nodeId).storage = some st ∧
      w'.1 = w.1.moveTo idx dst ∧ w'.2.Quiet ∧ w'.2.nodes = Function.update
        (Function.update w.2.nodes dst ((w.2.nodes dst).putAll (t.pairs st))) t.nodeId
          ((w.2.nodes t.nodeId).deleteRange t.startKey t.endKey).2) := by
  obtain ⟨m, s⟩ := w
  by_cases hstay : ∀ t, m.tablets[idx]? = some t → t.nodeId = dst
  · obtain ⟨hok, rfl⟩ := Prod.mk.inj ((Environment.run_migrateTablet_of_stay hstay).symm.trans hrun)
    exact .inl ⟨(Option.some.inj hok).symm, rfl⟩
  push Not at hstay
  obtain ⟨t, hidx, hne⟩ := hstay
  by_cases hconn : (s.connections t.nodeId).connected = true ∧ (s.connections dst).connected = true
  swap
  · rw [Environment.run_migrateTablet hidx hne
      (run_scanAndTransferData_disconnected m s hconn _ _)] at hrun
    obtain ⟨hok, rfl⟩ := Prod.mk.inj hrun
    exact .inl ⟨(Option.some.inj hok).symm, rfl⟩
  obtain ⟨db, hdb⟩ := h.works t.nodeId
  obtain ⟨result, s', hrun', hquiet, hend⟩ := run_migrateTablet_quiet h.quiet hidx hne
    (h.short t (List.mem_of_getElem? hidx)) hconn.1 hconn.2 (h.works _) (h.storables _) hdb
    (hfits t hidx)
  obtain ⟨rfl, rfl⟩ := Prod.mk.inj (hrun'.symm.trans hrun)
  rcases hend with ⟨hok, hnodes⟩ | ⟨hnone, -⟩
  · exact .inr ⟨Option.some.inj hok, t, _, hidx, hne, hconn.2, hdb, rfl, hquiet, hnodes⟩
  · exact absurd hnone (by simp)

/-- A migration keeps the map: it fails without a change, or moves the keys of a tablet. -/
theorem Refines.migrate (h : Refines σ w) {idx : ℕ} {dst : UInt32}
    (hfits : ∀ t, w.1.tablets[idx]? = some t → ScanFits w.2 t) {ok : Bool}
    (hrun : Cluster.env.run (migrateTablet idx dst) w = (some ok, w')) : Refines σ w' := by
  rcases h.migrate_cases hfits hrun with
    ⟨-, rfl⟩ | ⟨-, t, st, hidx, hne, -, hst, hmaster, hquiet, hnodes⟩
  · exact h
  obtain ⟨m, s⟩ := w
  obtain ⟨_, s'⟩ := w'
  obtain rfl : _ = m.moveTo idx dst := hmaster
  have ht : t ∈ m.tablets := List.mem_of_getElem? hidx
  have howner : ∀ k, t.Contains k → (World.sharded (m, s)).owner k = t.nodeId :=
    fun k hk => h.tiles.ownerOf_of_mem ht hk
  have hmove := sharded_moved h.tiles hidx (h.works dst) (h.works t.nodeId) hst hne hnodes
  refine ⟨h.tiles.moveTo, short_moveTo hidx h.short, hquiet, fun node => ?_, fun node => ?_, ?_, ?_⟩
  · show (s'.nodes node).Works
    rw [show s'.nodes = _ from hnodes]
    simp only [Function.update_apply]
    split_ifs
    · exact ((h.works _).deleteRange _ _).2
    · exact (h.works _).putAll _
    · exact h.works node
  · show (s'.nodes node).Storables
    rw [show s'.nodes = _ from hnodes]
    simp only [Function.update_apply]
    split_ifs
    · exact (h.storables _).deleteRange _ _
    · exact (h.storables _).putAll (storable_of_mem_rangeQuery (h.storables _) hst)
    · exact h.storables node
  · rw [hmove, Sharded.view_move h.exclusive hne howner, h.view]
  · rw [hmove]
    exact h.exclusive.move howner

/-- Every action that runs to its end keeps the map. -/
theorem Refines.action (h : Refines σ w) {a : BalancerAction} (hfits : a.Fits w) {ok : Bool}
    (hrun : Cluster.env.run a.prog w = (some ok, w')) : Refines σ w' := by
  cases a with
  | sync =>
    rcases hsync : Cluster.env.run syncAllTabletStats w with ⟨_ | _, w₁⟩
    · rw [BalancerAction.prog, Environment.run_bind_none hsync] at hrun
      exact absurd (congrArg Prod.fst hrun) (by simp)
    · rw [BalancerAction.prog, Environment.run_bind_some hsync] at hrun
      obtain ⟨-, rfl⟩ := Prod.mk.inj hrun
      exact h.sync hsync
  | split idx => exact h.split hrun
  | migrate idx dst => exact h.migrate (fun t ht => hfits idx dst t rfl ht) hrun
  | balance =>
    obtain ⟨m, s⟩ := w
    rcases htarget : balanceTarget m.tablets with _ | ⟨target, dst⟩
    · obtain ⟨-, rfl⟩ := Prod.mk.inj ((Environment.run_doLoadBalance_none htarget).symm.trans hrun)
      exact h
    · have hclock : Refines σ (m, (Cluster.env.now s).2) :=
        ⟨h.tiles, h.short, h.quiet, h.works, h.storables, h.view, h.exclusive⟩
      rcases hmig : Cluster.env.run (migrateTablet target dst) (m, (Cluster.env.now s).2)
        with ⟨r, m₁, s₁⟩
      obtain ⟨count, time, s₂, hrun', hs₂⟩ := Environment.run_doLoadBalance_some htarget hmig
      obtain ⟨rfl, rfl⟩ := Prod.mk.inj (hrun'.symm.trans hrun)
      have h₁ := hclock.migrate (fun t ht => hfits target dst t htarget ht) hmig
      rcases hs₂ with rfl | rfl
      · exact ⟨h₁.tiles, h₁.short, h₁.quiet, h₁.works, h₁.storables, h₁.view, h₁.exclusive⟩
      · exact ⟨h₁.tiles, h₁.short, h₁.quiet, h₁.works, h₁.storables, h₁.view, h₁.exclusive⟩

end Step

/-! ## Whole runs -/

/-- After any run the cluster holds the map that the clients' operations made. -/
theorem Run.refines {peers : List PeerInfo} {w₀ w : World} {ops : List ClientOp}
    (hstart : Start peers w₀) (h : Run w₀ ops w) : Refines (mapAfter ops) w := by
  induction h with
  | start => exact hstart.refines
  | @client ops w w' o reqId resp h hfits hexec ih =>
    obtain ⟨w₁, hexec₁, hrefines⟩ := ih.exec hfits reqId
    obtain ⟨-, rfl⟩ := Prod.mk.inj (Option.some.inj (hexec₁.symm.trans hexec))
    rwa [mapAfter, List.foldl_append]
  | @action ops w h a hfits outcomes clock ok w' hrun ih =>
    have ih' : Refines (mapAfter ops) (w.1, { w.2 with outcomes, clock }) :=
      ⟨ih.tiles, ih.short, ih.quiet, ih.works, ih.storables, ih.view, ih.exclusive⟩
    exact ih'.action hfits hrun

/-- After any run the next operation of a client is answered as a single map would answer it, and a
DataNode holds a key only if the table assigns the key to it. -/
theorem cluster_refines_map {peers : List PeerInfo} {w₀ w : World} {ops : List ClientOp}
    (hstart : Start peers w₀) (h : Run w₀ ops w) :
    (∀ (o : ClientOp) (reqId : UInt32), o.Fits →
        (o.exec reqId w).map Prod.fst = some (o.answer (mapAfter ops))) ∧
      ∀ node key, (w.2.nodes node).lookup key ≠ none → Owner w.1.tablets key node := by
  have hrefines := h.refines hstart
  refine ⟨fun o reqId hfits => ?_, fun node key hne => ?_⟩
  · obtain ⟨w', hexec, -⟩ := hrefines.exec hfits reqId
    rw [hexec]
    rfl
  · exact hrefines.tiles.ownerOf_eq_iff.mp (hrefines.exclusive node key hne)

/-- The DataNodes of `twoNodes`, without data. -/
def emptyCluster : Cluster :=
  { Cluster.quiet with
    connections := fun node =>
      if node ∈ dataNodes twoNodes then .fresh else { Connection.fresh with connected := false } }

theorem emptyCluster_start : Start twoNodes (initialMaster, emptyCluster) where
  two_le := by decide
  tablets := ⟨_, rfl, rfl⟩
  connected node := by
    show (if node ∈ dataNodes twoNodes then Connection.fresh
      else { Connection.fresh with connected := false }).connected = true ↔ _
    by_cases h : node ∈ dataNodes twoNodes
    · rw [if_pos h]
      exact iff_of_true rfl h
    · rw [if_neg h]
      exact iff_of_false Bool.false_ne_true h
  fresh node h := if_pos h
  empty node := rfl

/-- The key `a` written, before and after its tablet is migrated. -/
def keyWritten : Cluster :=
  { emptyCluster with
    nodes := Function.update emptyCluster.nodes 2
      ⟨some ⟨SortedMap.empty.insert [0x61] [0x31], []⟩⟩ }

/-- The key `a` is written, its tablet moves from node 2 to node 3, and the key is read there. -/
theorem cluster_refines_map_migrated :
    ∃ w, Run (initialMaster, emptyCluster) [.put [0x61] [0x31]] w ∧
      w.1.tablets = (initialMaster.moveTo 0 3).tablets ∧
      ((ClientOp.get [0x61]).exec 7 w).map Prod.fst = some [ST_OK, 0x31] := by
  have hput : Run (initialMaster, emptyCluster) [.put [0x61] [0x31]] (initialMaster, keyWritten) :=
    @Run.client _ _ _ _ (.put [0x61] [0x31]) 5 [ST_OK] .start ⟨by decide, by decide⟩ rfl
  have hfits : (BalancerAction.migrate 0 3).Fits (initialMaster, keyWritten) := by
    rintro idx dst t ⟨⟩ ⟨⟩ st ⟨⟩
    decide
  have hrefines := hput.refines emptyCluster_start
  have hidx : initialMaster.tablets[0]? = some ⟨1, [], [0x6D], 2, 0⟩ := rfl
  have hne : (2 : UInt32) ≠ 3 := by decide
  obtain ⟨result, s', hrun, -, hend⟩ := run_migrateTablet_quiet hrefines.quiet hidx hne
    ⟨by decide, by decide⟩ rfl rfl (hrefines.works 2) (hrefines.storables 2) rfl
    (hfits 0 3 _ rfl rfl)
  rcases hend with ⟨rfl, -⟩ | ⟨-, -, hdump, -⟩
  · have hmigrated := hput.action _ hfits ⟨true, true, true⟩ [] hrun
    exact ⟨_, hmigrated, rfl, (cluster_refines_map emptyCluster_start hmigrated).1 _ 7
      (by norm_num [ClientOp.Fits])⟩
  · exact absurd hdump (by decide)

end LeKV
