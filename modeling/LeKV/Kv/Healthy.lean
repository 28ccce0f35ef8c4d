import LeKV.Kv.Counts
import LeKV.Kv.Loads

/-!
# Exact key counts

While nothing fails and no client writes, the key counts in the routing table are those of the
stores: statistics make them so (`Healthy.sync`), and splits and migrations keep them so without
counting again (`Healthy.counted_action`).
-/

namespace LeKV

open Bytes BinaryProtocol Sharding Balancer

/-! ## Healthy clusters -/

/-- Fewer than `2 ^ 32` keys have a value. -/
def FewKeys (σ : Bytes → Option Bytes) : Prop :=
  ∃ K : List Bytes, K.length < 2 ^ 32 ∧ ∀ k, σ k ≠ none → k ∈ K

/-- The cluster holds the map `σ`, and the Master is connected to the nodes of its table. -/
structure Healthy (σ : Bytes → Option Bytes) (w : World) : Prop extends Refines σ w where
  connected : ∀ t ∈ w.1.tablets, (w.2.connections t.nodeId).connected = true

section Keys

variable {σ : Bytes → Option Bytes} {w w' : World} {t t' : Tablet}

/-- The owner of a tablet stores the keys of the map in its range. -/
theorem Refines.mem_keysIn (h : Refines σ w) (ht : t ∈ w.1.tablets) {k : Bytes} :
    k ∈ (w.2.nodes t.nodeId).keysIn t ↔ σ k ≠ none ∧ t.Contains k := by
  rw [DataNode.mem_keysIn, ← h.view]
  apply and_congr_left
  intro hk
  show _ ↔ (w.2.nodes (ownerOf w.1.tablets k)).lookup k ≠ none
  rw [h.tiles.ownerOf_of_mem ht hk]

/-- No node other than the owner stores a key of the tablet. -/
theorem Refines.keysIn_eq_nil (h : Refines σ w) (ht : t ∈ w.1.tablets) {node : UInt32}
    (hne : t.nodeId ≠ node) : (w.2.nodes node).keysIn t = [] := by
  apply List.eq_nil_iff_forall_not_mem.mpr
  intro k hk
  obtain ⟨hlookup, hcontains⟩ := DataNode.mem_keysIn.mp hk
  have howner : ownerOf w.1.tablets k = node := h.exclusive node k hlookup
  exact hne ((h.tiles.ownerOf_of_mem ht hcontains).symm.trans howner)

/-- The keys of a tablet depend on its range and on the map only. -/
theorem Refines.keysIn_eq (h : Refines σ w) (h' : Refines σ w') (ht : t ∈ w.1.tablets)
    (ht' : t' ∈ w'.1.tablets) (hstart : t.startKey = t'.startKey) (hend : t.endKey = t'.endKey) :
    (w.2.nodes t.nodeId).keysIn t = (w'.2.nodes t'.nodeId).keysIn t' := by
  refine List.Pairwise.eq_of_mem_iff (DataNode.keysIn_sorted _ _) (DataNode.keysIn_sorted _ _)
    fun k => ?_
  rw [h.mem_keysIn ht, h'.mem_keysIn ht', Tablet.Contains, Tablet.Contains, hstart, hend]

theorem Refines.length_keys_lt (h : Refines σ w) (hfew : FewKeys σ) (node : UInt32) :
    (w.2.nodes node).keys.length < 2 ^ 32 := by
  obtain ⟨K, hK, hmem⟩ := hfew
  refine lt_of_le_of_lt (Halving.length_le_of_subset (DataNode.keys_sorted _) fun k hk => ?_) hK
  have hlookup := DataNode.mem_keys.mp hk
  have howner : ownerOf w.1.tablets k = node := h.exclusive node k hlookup
  apply hmem k
  rw [← h.view]
  show (w.2.nodes (ownerOf w.1.tablets k)).lookup k ≠ none
  rwa [howner]

theorem Refines.length_keysIn_lt (h : Refines σ w) (hfew : FewKeys σ) (node : UInt32)
    (t : Tablet) : ((w.2.nodes node).keysIn t).length < 2 ^ 32 :=
  lt_of_le_of_lt (List.length_filter_le _ _) (h.length_keys_lt hfew node)

/-- All keys of a node, tablet by tablet. -/
theorem Tiles.flatten_keysIn {tablets : List Tablet} (h : Tiles tablets) (n : DataNode) :
    (tablets.map n.keysIn).flatten = n.keys := by
  rcases hst : n.storage with _ | st
  · have hkeys : n.keys = [] := by
      rw [DataNode.keys, hst]
    rw [hkeys, List.flatten_eq_nil_iff]
    intro l hl
    obtain ⟨t, -, rfl⟩ := List.mem_map.mp hl
    rw [DataNode.keysIn, hkeys]
    rfl
  · have hscans := congrArg (List.map Prod.fst) (h.flatten_rangeQuery st)
    rw [List.map_flatten, List.map_map] at hscans
    have hkeysIn : n.keysIn = List.map Prod.fst ∘ fun t => st.rangeQuery t.startKey t.endKey :=
      funext fun t => DataNode.keysIn_eq hst t
    rw [hkeysIn, hscans, DataNode.keys, hst]

end Keys

section Actions

variable {σ : Bytes → Option Bytes} {w w' : World}

theorem Healthy.of_files (h : Healthy σ w) (outcomes : FileOutcomes) (clock : List ℤ) :
    Healthy σ (w.1, { w.2 with outcomes, clock }) :=
  ⟨⟨h.tiles, h.short, h.quiet, h.works, h.storables, h.view, h.exclusive⟩, h.connected⟩

/-- An action leaves the tablets on connected nodes, also where `dump` threw. -/
theorem Healthy.connected_action (h : Healthy σ w) {a : BalancerAction} {r : Option Bool}
    (hrun : Cluster.env.run a.prog w = (r, w')) :
    ∀ t ∈ w'.1.tablets, (w'.2.connections t.nodeId).connected = true := by
  intro t ht
  have hconn := Cluster.connected_run a.prog w t.nodeId
  have hchange := after_change Cluster.env w.1 w.2 a
  rw [BalancerAction.after, hrun] at hchange
  rw [hrun] at hconn
  apply hconn.trans
  rcases hchange.nodeId ht with ⟨u, hu, hnode⟩ | hdst | hdst
  · exact hnode ▸ h.connected u hu
  · exact hdst
  · exact hdst

theorem Healthy.action (h : Healthy σ w) {a : BalancerAction} (hfits : a.Fits w) {ok : Bool}
    (hrun : Cluster.env.run a.prog w = (some ok, w')) : Healthy σ w' :=
  ⟨h.toRefines.action hfits hrun, h.connected_action hrun⟩

end Actions

/-! ## Counts and loads -/

/-- Every key count is the number of keys that the tablet's node stores in its range. -/
def Counted (w : World) : Prop :=
  ∀ t ∈ w.1.tablets, t.keyCount.toNat = ((w.2.nodes t.nodeId).keysIn t).length

/-- The load that `DoLoadBalance` computes for a node, none without an entry, is the number of keys
the node stores. -/
def LoadsExact (w : World) : Prop :=
  ∀ node, (((nodeLoad w.1.tablets).find? node.toNat).getD 0).toNat = (w.2.nodes node).keys.length

/-- A sum that stays below `2 ^ 64` does not wrap. -/
theorem toNat_sum {l : List UInt64} (h : (l.map UInt64.toNat).sum < 2 ^ 64) :
    l.sum.toNat = (l.map UInt64.toNat).sum := by
  induction l with
  | nil => rfl
  | cons a l ih =>
    rw [List.map_cons, List.sum_cons] at h
    rw [List.sum_cons, UInt64.toNat_add, ih (by omega), List.map_cons, List.sum_cons]
    exact Nat.mod_eq_of_lt h

/-- The keys of a node by the key counts of its tablets, without a bound. -/
def keysOf (tablets : List Tablet) (node : UInt32) : ℕ :=
  ((tablets.filter fun t => t.nodeId = node).map fun t => t.keyCount.toNat).sum

theorem keysOf_cons (t : Tablet) (tablets : List Tablet) (node : UInt32) :
    keysOf (t :: tablets) node
      = (if t.nodeId = node then t.keyCount.toNat else 0) + keysOf tablets node := by
  unfold keysOf
  by_cases hnode : t.nodeId = node
  · rw [List.filter_cons_of_pos (by simpa using hnode), List.map_cons, List.sum_cons, if_pos hnode]
  · rw [List.filter_cons_of_neg (by simpa using hnode), if_neg hnode, Nat.zero_add]

theorem keysOf_append (l₁ l₂ : List Tablet) (node : UInt32) :
    keysOf (l₁ ++ l₂) node = keysOf l₁ node + keysOf l₂ node := by
  unfold keysOf
  rw [List.filter_append, List.map_append, List.sum_append]

/-- Exact key counts add up to what the nodes store. -/
theorem Counted.keysOf_eq {σ : Bytes → Option Bytes} {w : World} (h : Counted w) (hw : Refines σ w)
    (node : UInt32) : keysOf w.1.tablets node = (w.2.nodes node).keys.length := by
  -- tablets of other nodes contribute nothing to the keys of this one
  have hsum : ∀ l : List Tablet, (∀ t ∈ l, t ∈ w.1.tablets) →
      keysOf l node = (l.map (w.2.nodes node).keysIn).flatten.length := by
    intro l
    induction l with
    | nil => exact fun _ => rfl
    | cons t l ih =>
      intro hmem
      have ht := hmem t List.mem_cons_self
      rw [keysOf_cons, ih fun u hu => hmem u (List.mem_cons_of_mem t hu), List.map_cons,
        List.flatten_cons, List.length_append]
      split_ifs with hnode
      · rw [h t ht, hnode]
      · rw [hw.keysIn_eq_nil ht hnode, List.length_nil]
  rw [hsum w.1.tablets fun t ht => ht, hw.tiles.flatten_keysIn]

theorem Counted.loadOf_eq {σ : Bytes → Option Bytes} {w : World} (h : Counted w) (hw : Refines σ w)
    (hfew : FewKeys σ) (node : UInt32) :
    (loadOf w.1.tablets node).toNat = (w.2.nodes node).keys.length := by
  have hkeys := h.keysOf_eq hw node
  have hlt := hw.length_keys_lt hfew node
  have hmap : ((w.1.tablets.filter fun t => t.nodeId = node).map Tablet.keyCount).map UInt64.toNat
      = (w.1.tablets.filter fun t => t.nodeId = node).map fun t => t.keyCount.toNat := by
    rw [List.map_map]
    rfl
  rw [← hkeys] at hlt ⊢
  rw [loadOf, toNat_sum, hmap]
  · rfl
  · rw [hmap]
    exact hlt.trans (by norm_num)

theorem Counted.loadsExact {σ : Bytes → Option Bytes} {w : World} (h : Counted w)
    (hw : Refines σ w) (hfew : FewKeys σ) : LoadsExact w := by
  intro node
  rw [nodeLoad_find?]
  exact h.loadOf_eq hw hfew node

/-! ## Statistics -/

section Step

variable {σ : Bytes → Option Bytes} {w w' : World} {idx : ℕ} {t : Tablet}

/-- Statistics find the key count of every tablet. -/
theorem Healthy.sync (h : Healthy σ w) (hfew : FewKeys σ) :
    ∃ w', Cluster.env.run syncAllTabletStats w = (some (), w') ∧ Healthy σ w' ∧ Counted w' ∧
      w'.1.tablets = w.1.tablets.map (Cluster.recount w.2.nodes) ∧ w'.2.nodes = w.2.nodes := by
  obtain ⟨m, s⟩ := w
  have hcount : ∀ t : Tablet, ((s.nodes t.nodeId).keysIn t).length < 2 ^ 32 :=
    fun t => h.length_keysIn_lt hfew t.nodeId t
  obtain ⟨s', hrun, hnodes, -⟩ :=
    run_syncAllTabletStats_quiet h.quiet h.connected h.short h.storables fun t _ => hcount t
  refine ⟨_, hrun, ⟨h.toRefines.sync hrun, ?_⟩, ?_, rfl, hnodes⟩
  · intro t ht
    obtain ⟨u, hu, rfl⟩ := List.mem_map.mp ht
    have hconn := Cluster.connected_run syncAllTabletStats (m, s) u.nodeId
    rw [hrun] at hconn
    exact hconn.trans (h.connected u hu)
  · intro t ht
    obtain ⟨u, -, rfl⟩ := List.mem_map.mp ht
    show (UInt64.ofNat ((s.nodes u.nodeId).keysIn u).length).toNat
      = ((s'.nodes u.nodeId).keysIn u).length
    rw [hnodes]
    exact UInt64.toNat_ofNat_of_lt' ((hcount u).trans (by norm_num))

/-! ## Splits -/

theorem splitThreshold_le {count : UInt64} : SPLIT_THRESHOLD ≤ count ↔ 6 ≤ count.toNat := by
  rw [UInt64.le_iff_toNat_le]
  exact Iff.rfl

theorem not_lt_splitThreshold {count : UInt64} : ¬count < SPLIT_THRESHOLD ↔ 6 ≤ count.toNat :=
  UInt64.not_lt.trans splitThreshold_le

theorem toNat_half (count : UInt64) :
    (count / 2).toNat = count.toNat / 2 ∧ (count - count / 2).toNat = count.toNat - count.toNat / 2 := by
  have hhalf : (count / 2).toNat = count.toNat / 2 := UInt64.toNat_div _ _
  have hle : count / 2 ≤ count := by
    rw [UInt64.le_iff_toNat_le, hhalf]
    exact Nat.div_le_self _ _
  exact ⟨hhalf, by rw [UInt64.toNat_sub_of_le _ _ hle, hhalf]⟩

/-- The keys of the halves of a tablet that is cut at its median. -/
theorem DataNode.keysIn_halves (n : DataNode) (m : Master) (count : UInt64)
    (hpoint : SplitPoint t (n.medianIn t))
    (hmedian : (n.keysIn t)[(n.keysIn t).length / 2]? = some (n.medianIn t)) :
    n.keysIn (m.leftHalf t count (n.medianIn t)) = (n.keysIn t).take ((n.keysIn t).length / 2) ∧
      n.keysIn (m.rightHalf t count (n.medianIn t))
        = (n.keysIn t).drop ((n.keysIn t).length / 2) := by
  have hne : n.medianIn t ≠ [] := Bytes.ne_nil_of_lt hpoint.start_lt
  obtain ⟨hbelow, hfrom⟩ := Halving.filter_getElem (n.keysIn_sorted t) hmedian
  have htake : (n.keysIn t).filter (fun k => k < n.medianIn t)
      = (n.keysIn t).take ((n.keysIn t).length / 2) := by convert hbelow
  rw [← htake, ← hfrom]
  constructor
  · rw [keysIn, keysIn, List.filter_filter]
    apply List.filter_congr
    intro k _
    rw [Bool.eq_iff_iff, Bool.and_eq_true, decide_eq_true_eq, decide_eq_true_eq, decide_eq_true_eq]
    simp only [Tablet.Contains, Master.leftHalf, hne, false_or]
    constructor
    · rintro ⟨hlo, hlt⟩
      exact ⟨hlt, hlo, hpoint.lt_end.imp_right hlt.trans⟩
    · rintro ⟨hlt, hlo, -⟩
      exact ⟨hlo, hlt⟩
  · rw [keysIn, keysIn, List.filter_filter]
    apply List.filter_congr
    intro k _
    rw [Bool.eq_iff_iff, Bool.and_eq_true, decide_eq_true_eq, decide_eq_true_eq, decide_eq_true_eq]
    simp only [Tablet.Contains, Master.rightHalf]
    constructor
    · rintro ⟨hge, hhi⟩
      exact ⟨hge, hpoint.start_lt.le.trans hge, hhi⟩
    · rintro ⟨hge, -, hhi⟩
      exact ⟨hge, hhi⟩

/-- A tablet with enough keys is split at its median; without a result `dump` threw. -/
theorem Healthy.split (h : Healthy σ w) (hfew : FewKeys σ) (hcounted : Counted w)
    (hidx : w.1.tablets[idx]? = some t) (hbig : 6 ≤ t.keyCount.toNat) :
    let n := w.2.nodes t.nodeId
    let m' := w.1.splitAt idx t t.keyCount (n.medianIn t)
    SplitPoint t (n.medianIn t) ∧ (n.keysIn t)[(n.keysIn t).length / 2]? = some (n.medianIn t) ∧
    ∃ s', Cluster.env.run (trySplitTablet idx) w
        = (if w.2.outcomes.opens = true ∧ dump (document m') = none then none else some true,
          (m', s')) ∧ Healthy σ (m', s') ∧ Counted (m', s') ∧ s'.nodes = w.2.nodes := by
  obtain ⟨m, s⟩ := w
  intro n m'
  have ht : t ∈ m.tablets := List.mem_of_getElem? hidx
  have hcount : t.keyCount.toNat = (n.keysIn t).length := hcounted t ht
  obtain ⟨hmedian, hpoint, s', hrun, hnodes, hquiet⟩ := run_trySplitTablet_quiet h.quiet hidx
    (not_lt_splitThreshold.mpr hbig) (h.connected t ht) (h.short t ht) (h.storables _)
    (h.length_keysIn_lt hfew _ t) (le_trans (by norm_num) (hcount ▸ hbig))
  rw [← hcount, UInt64.ofNat_toNat] at hrun
  obtain ⟨hleft, hright⟩ := n.keysIn_halves m t.keyCount hpoint hmedian
  obtain ⟨hhalf, hrest⟩ := toNat_half t.keyCount
  obtain ⟨rest, hold, hnew⟩ := mem_splitAt t.keyCount (n.medianIn t) hidx
  have hconnected := h.connected_action (a := .split idx) hrun
  refine ⟨hpoint, hmedian, s', hrun, ⟨h.toRefines.split hrun, hconnected⟩, fun u hu => ?_, hnodes⟩
  show u.keyCount.toNat = ((s'.nodes u.nodeId).keysIn u).length
  rw [hnodes]
  rcases (hnew u).mp hu with rfl | rfl | hu
  · refine hhalf.trans (Eq.trans ?_ (congrArg List.length hleft).symm)
    rw [hcount, List.length_take_of_le (Nat.div_le_self _ 2)]
  · refine hrest.trans (Eq.trans ?_ (congrArg List.length hright).symm)
    rw [hcount, List.length_drop]
  · exact hcounted u ((hold u).mpr (.inr hu))

/-! ## Migrations -/

/-- A migration that runs to its end keeps the key counts exact. -/
theorem Healthy.migrate (h : Healthy σ w) (hcounted : Counted w) {dst : UInt32}
    (hfits : (BalancerAction.migrate idx dst).Fits w) {ok : Bool}
    (hrun : Cluster.env.run (migrateTablet idx dst) w = (some ok, w')) :
    Healthy σ w' ∧ Counted w' := by
  have h' : Healthy σ w' := h.action hfits hrun
  refine ⟨h', fun u hu => ?_⟩
  rcases h.toRefines.migrate_cases (fun t ht => hfits idx dst t rfl ht) hrun with
    ⟨-, rfl⟩ | ⟨-, t, st, hidx, -, -, -, hmaster, -, -⟩
  · exact hcounted u hu
  obtain ⟨rest, hold, hnew⟩ := mem_moveTo dst hidx
  rcases (hnew u).mp (hmaster ▸ hu) with rfl | hmem
  · have ht : t ∈ w.1.tablets := List.mem_of_getElem? hidx
    rw [← h.toRefines.keysIn_eq h'.toRefines ht hu rfl rfl]
    exact hcounted t ht
  · have hmem' : u ∈ w.1.tablets := (hold u).mpr (.inr hmem)
    rw [← h.toRefines.keysIn_eq h'.toRefines hmem' hu rfl rfl]
    exact hcounted u hmem'

/-- What `DoLoadBalance` did: nothing, or the migration of its target. -/
theorem run_doLoadBalance_cases {ok : Bool}
    (hrun : Cluster.env.run doLoadBalance w = (some ok, w')) :
    (balanceTarget w.1.tablets = none ∧ ok = false ∧ w' = w) ∨
      ∃ target dst w₁, balanceTarget w.1.tablets = some (target, dst) ∧
        Cluster.env.run (migrateTablet target dst) (w.1, { w.2 with clock := w.2.clock.tail })
          = (some ok, w₁) ∧ w'.1.tablets = w₁.1.tablets ∧ w'.2.nodes = w₁.2.nodes ∧
        w'.2.connections = w₁.2.connections := by
  obtain ⟨m, s⟩ := w
  rcases htarget : balanceTarget m.tablets with _ | ⟨target, dst⟩
  · obtain ⟨hok, rfl⟩ := Prod.mk.inj ((Environment.run_doLoadBalance_none htarget).symm.trans hrun)
    exact .inl ⟨rfl, (Option.some.inj hok).symm, rfl⟩
  · rcases hmig : Cluster.env.run (migrateTablet target dst) (m, (Cluster.env.now s).2)
      with ⟨r, m₁, s₁⟩
    obtain ⟨count, time, s₂, hrun', hs₂⟩ := Environment.run_doLoadBalance_some htarget hmig
    obtain ⟨rfl, rfl⟩ := Prod.mk.inj (hrun'.symm.trans hrun)
    refine .inr ⟨target, dst, (m₁, s₁), rfl, hmig, rfl, ?_⟩
    rcases hs₂ with rfl | rfl
    · exact ⟨rfl, rfl⟩
    · exact ⟨rfl, rfl⟩

/-- Every action that runs to its end keeps the key counts exact. -/
theorem Healthy.counted_action (h : Healthy σ w) (hfew : FewKeys σ) (hcounted : Counted w)
    {a : BalancerAction} (hfits : a.Fits w) {ok : Bool}
    (hrun : Cluster.env.run a.prog w = (some ok, w')) : Counted w' := by
  cases a with
  | sync =>
    obtain ⟨w₁, hsync, -, hcounted₁, -⟩ := h.sync hfew
    rw [BalancerAction.prog, Environment.run_bind_some hsync] at hrun
    exact (Prod.mk.inj hrun).2 ▸ hcounted₁
  | split idx =>
    by_cases hbig : ∃ t, w.1.tablets[idx]? = some t ∧ 6 ≤ t.keyCount.toNat
    · obtain ⟨t, hidx, hbig⟩ := hbig
      obtain ⟨-, -, s', hrun', -, hcounted', -⟩ := h.split hfew hcounted hidx hbig
      exact (Prod.mk.inj (hrun'.symm.trans hrun)).2 ▸ hcounted'
    · have hsmall : ∀ t, w.1.tablets[idx]? = some t → t.keyCount < SPLIT_THRESHOLD := by
        intro t hidx
        by_contra hnot
        exact hbig ⟨t, hidx, not_lt_splitThreshold.mp hnot⟩
      have hrun' := Environment.run_trySplitTablet_of_small (E := Cluster.env) (s := w.2) hsmall
      exact (Prod.mk.inj (hrun'.symm.trans hrun)).2 ▸ hcounted
  | migrate idx dst => exact (h.migrate hcounted hfits hrun).2
  | balance =>
    rcases run_doLoadBalance_cases hrun with ⟨-, -, rfl⟩ | ⟨target, dst, w₁, htarget, hmig, ht, hn, -⟩
    · exact hcounted
    · have hcounted₁ := ((h.of_files w.2.outcomes w.2.clock.tail).migrate hcounted
        (fun idx' dst' t heq ht => hfits idx' dst' t (htarget.trans heq) ht) hmig).2
      intro t htmem
      rw [hn]
      exact hcounted₁ t (ht ▸ htmem)

end Step

/-! ## Runs -/

/-- The states after some statistics of a run, with reads of clients and actions of the balancer
since then. -/
inductive SinceSync (w₀ : World) : List ClientOp → World → Prop where
  | sync {ops : List ClientOp} {w : World} (h : Run w₀ ops w) (outcomes : FileOutcomes)
      (clock : List ℤ) {ok : Bool} {w' : World}
      (hrun : Cluster.env.run BalancerAction.sync.prog (w.1, { w.2 with outcomes, clock })
        = (some ok, w')) : SinceSync w₀ ops w'
  | get {ops : List ClientOp} {w w' : World} {key : Bytes} {reqId : UInt32} {resp : Bytes}
      (h : SinceSync w₀ ops w) (hfits : (ClientOp.get key).Fits)
      (hexec : (ClientOp.get key).exec reqId w = some (resp, w')) :
      SinceSync w₀ (ops ++ [.get key]) w'
  | action {ops : List ClientOp} {w : World} (h : SinceSync w₀ ops w) (a : BalancerAction)
      (hfits : a.Fits w) (outcomes : FileOutcomes) (clock : List ℤ) {ok : Bool} {w' : World}
      (hrun : Cluster.env.run a.prog (w.1, { w.2 with outcomes, clock }) = (some ok, w')) :
      SinceSync w₀ ops w'

theorem Start.healthy {peers : List PeerInfo} {w : World} (h : Start peers w) :
    Healthy (fun _ => none) w := by
  refine ⟨h.refines, fun t ht => (h.connected t.nodeId).mpr ?_⟩
  obtain ⟨tablets, hinit, hmaster⟩ := h.tablets
  rw [hmaster] at ht
  exact (buildInitialTablets_spec h.two_le hinit).2 t ht

theorem Healthy.exec {σ : Bytes → Option Bytes} {w w' : World} (h : Healthy σ w) {o : ClientOp}
    (hfits : o.Fits) {reqId : UInt32} {resp : Bytes} (hexec : o.exec reqId w = some (resp, w')) :
    Healthy (o.update σ) w' ∧ w'.1 = w.1 := by
  obtain ⟨w₁, hexec₁, hrefines⟩ := h.toRefines.exec hfits reqId
  obtain ⟨-, rfl⟩ := Prod.mk.inj (Option.some.inj (hexec₁.symm.trans hexec))
  obtain ⟨n, hexec₂, -⟩ := ClientOp.exec_spec h.tiles h.works hfits reqId
  obtain ⟨-, rfl⟩ := Prod.mk.inj (Option.some.inj (hexec₂.symm.trans hexec))
  exact ⟨⟨hrefines, h.connected⟩, rfl⟩

theorem mapAfter_append (ops : List ClientOp) (o : ClientOp) :
    mapAfter (ops ++ [o]) = o.update (mapAfter ops) := by
  rw [mapAfter, List.foldl_append]
  rfl

/-- In a run without failures the cluster is healthy. -/
theorem Run.healthy {peers : List PeerInfo} {w₀ w : World} {ops : List ClientOp}
    (hstart : Start peers w₀) (h : Run w₀ ops w) : Healthy (mapAfter ops) w := by
  induction h with
  | start => exact hstart.healthy
  | client h hfits hexec ih =>
    rw [mapAfter_append]
    exact (ih.exec hfits hexec).1
  | action h a hfits outcomes clock hrun ih => exact (ih.of_files outcomes clock).action hfits hrun

theorem SinceSync.counted {peers : List PeerInfo} {w₀ w : World} {ops : List ClientOp}
    (hstart : Start peers w₀) (h : SinceSync w₀ ops w) (hfew : FewKeys (mapAfter ops)) :
    Healthy (mapAfter ops) w ∧ Counted w := by
  induction h with
  | sync h outcomes clock hrun =>
    obtain ⟨w₁, hsync, hhealthy, hcounted, -⟩ :=
      ((h.healthy hstart).of_files outcomes clock).sync hfew
    rw [BalancerAction.prog, Environment.run_bind_some hsync] at hrun
    exact (Prod.mk.inj hrun).2 ▸ ⟨hhealthy, hcounted⟩
  | get h hfits hexec ih =>
    rw [mapAfter_append] at hfew ⊢
    obtain ⟨hhealthy, hcounted⟩ := ih hfew
    obtain ⟨hhealthy', htable⟩ := hhealthy.exec hfits hexec
    refine ⟨hhealthy', fun t ht => ?_⟩
    have ht' := htable ▸ ht
    rw [← hhealthy.toRefines.keysIn_eq hhealthy'.toRefines ht' ht rfl rfl]
    exact hcounted t ht'
  | action h a hfits outcomes clock hrun ih =>
    obtain ⟨hhealthy, hcounted⟩ := ih hfew
    have h' := hhealthy.of_files outcomes clock
    exact ⟨h'.action hfits hrun, h'.counted_action hfew hcounted hfits hrun⟩

end LeKV
