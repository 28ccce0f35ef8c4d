import LeKV.Kv.Actions

/-!
# The routing table always tiles the key space

`Reachable` are the members the Master can have after any sequence of balancer actions, restarts
included, whatever the DataNodes and the file system answer. In all of them the lookup succeeds for
every key, with the one tablet that contains it.
-/

namespace LeKV

open Bytes BinaryProtocol Effects

/-- The actions of the balancer. -/
inductive BalancerAction where
  | sync
  | split (idx : ℕ)
  | migrate (idx : ℕ) (dst : UInt32)
  | balance
deriving DecidableEq, Repr

/-- The program of an action. -/
def BalancerAction.prog : BalancerAction → Balancer Bool
  | sync => do Balancer.syncAllTabletStats; return true
  | split idx => Balancer.trySplitTablet idx
  | migrate idx dst => Balancer.migrateTablet idx dst
  | balance => Balancer.doLoadBalance

/-- The members an action leaves. -/
def BalancerAction.after {σ : Type} (a : BalancerAction) (E : Environment σ) (m : Master) (s : σ) :
    Master :=
  (E.run a.prog (m, s)).2.1

/-- The constructor made an `RpcClient` for the configured DataNodes only. -/
def Environment.Serves {σ : Type} (E : Environment σ) (peers : List PeerInfo) : Prop :=
  ∀ node s, E.isConnected node s = true → node ∈ dataNodes peers

/-- The members reachable from the initial table of at least two DataNodes, by actions in any
environments and by restarts that load a table saved before. An action that `terminate` cut off
counts with the members it left. -/
inductive Reachable (peers : List PeerInfo) : Master → Prop where
  | init {tablets : List Tablet} (hnodes : 2 ≤ (dataNodes peers).length)
      (hinit : buildInitialTablets peers = some tablets) :
      Reachable peers { Master.init with tablets }
  | load {m : Master} {text : SavedText} (h : Reachable peers m)
      (hsave : dump (Balancer.document m) = some text) :
      Reachable peers (Balancer.loadTablets (some (.text text)) Master.init).2
  | act {m : Master} (h : Reachable peers m) {σ : Type} {E : Environment σ} (hE : E.Serves peers)
      (s : σ) (a : BalancerAction) : Reachable peers (a.after E m s)

/-! ## What an action does to the table -/

/-- The three ways an action can change the members: key counts and transfer statistics only, a
split, or a move to another node, one with `connected`. -/
inductive TableChange (connected : UInt32 → Prop) (m : Master) : Master → Prop where
  | keep {m' : Master} (htablets : assignment m'.tablets = assignment m.tablets)
      (hid : m'.nextTabletId = m.nextTabletId) (hepoch : m'.epoch = m.epoch) :
      TableChange connected m m'
  | split {idx : ℕ} {old : Tablet} {median : Bytes} (keyCount : UInt64)
      (hidx : m.tablets[idx]? = some old) (hpoint : SplitPoint old median) :
      TableChange connected m (m.splitAt idx old keyCount median)
  | move {m' : Master} {idx : ℕ} {t : Tablet} {dst : UInt32} (hidx : m.tablets[idx]? = some t)
      (hne : t.nodeId ≠ dst) (hdst : connected dst)
      (htablets : m'.tablets = (m.moveTo idx dst).tablets)
      (hid : m'.nextTabletId = m.nextTabletId) (hepoch : m'.epoch = m.epoch + 1) :
      TableChange connected m m'

/-- What an action does to the members, and that it changes no route where it returned `false`. -/
theorem after_change_or_false {σ : Type} (E : Environment σ) (m : Master) (s : σ)
    (a : BalancerAction) :
    TableChange (fun node => E.isConnected node s = true ∨ E.isConnected node (E.now s).2 = true) m
        (a.after E m s) ∧
      (a = .sync ∨ (E.run a.prog (m, s)).1 = some false → (a.after E m s).epoch = m.epoch) := by
  have hrpc := keepsRpc_true E
  have hfiles := keepsFiles_true E
  have hall := boundaries_true m.tablets
  unfold BalancerAction.after
  cases a with
  | sync =>
    obtain ⟨ts, s', hrun, hts, -⟩ :=
      Environment.run_syncAllTabletStats hrpc.keepsQuery m hall (s := s) trivial
    rw [BalancerAction.prog, Environment.run_bind_some hrun]
    exact ⟨.keep hts rfl rfl, fun _ => rfl⟩
  | split idx =>
    obtain ⟨s', -, hrun | ⟨old, keyCount, median, r, hidx, -, hpoint, hr, hrun⟩⟩ :=
      Environment.run_trySplitTablet hrpc.keepsQuery hfiles m hall (s := s) trivial idx
    · rw [BalancerAction.prog, hrun]
      exact ⟨.keep rfl rfl rfl, fun _ => rfl⟩
    · rw [BalancerAction.prog, hrun]
      exact ⟨.split keyCount hidx hpoint, fun h => absurd (h.resolve_left (by simp)) hr⟩
  | migrate idx dst =>
    obtain ⟨r, s', -, ⟨-, hrun⟩ | ⟨hr, ⟨t, hidx, hne⟩, hdst, hrun⟩⟩ :=
      Environment.run_migrateTablet_members hrpc hfiles m (s := s) trivial idx dst
    · rw [BalancerAction.prog, hrun]
      exact ⟨.keep rfl rfl rfl, fun _ => rfl⟩
    · rw [BalancerAction.prog, hrun]
      exact ⟨.move hidx hne (.inl hdst) rfl rfl rfl,
        fun h => absurd (h.resolve_left (by simp)) hr⟩
  | balance =>
    rw [BalancerAction.prog]
    rcases htarget : Balancer.balanceTarget m.tablets with _ | ⟨target, dst⟩
    · rw [Environment.run_doLoadBalance_none htarget]
      exact ⟨.keep rfl rfl rfl, fun _ => rfl⟩
    -- the clock is read first, so the target is connected in the state after that
    · obtain ⟨r, s', -, ⟨-, hmigrate⟩ | ⟨hr, ⟨t, hidx, hne⟩, hdst, hmigrate⟩⟩ :=
        Environment.run_migrateTablet_members hrpc hfiles m (s := (E.now s).2) trivial target dst
      · obtain ⟨count, time, s'', hrun, -⟩ := Environment.run_doLoadBalance_some htarget hmigrate
        rw [hrun]
        exact ⟨.keep rfl rfl rfl, fun _ => rfl⟩
      · obtain ⟨count, time, s'', hrun, -⟩ := Environment.run_doLoadBalance_some htarget hmigrate
        rw [hrun]
        exact ⟨.move hidx hne (.inr hdst) rfl rfl rfl,
          fun h => absurd (h.resolve_left (by simp)) hr⟩

theorem after_change {σ : Type} (E : Environment σ) (m : Master) (s : σ) (a : BalancerAction) :
    TableChange (fun node => E.isConnected node s = true ∨ E.isConnected node (E.now s).2 = true) m
      (a.after E m s) :=
  (after_change_or_false E m s a).1

/-! ## Invariants of the table -/

/-- Tables with the same assignment have the same intervals. -/
theorem map_interval_eq {ts ts' : List Tablet} (h : assignment ts = assignment ts') :
    ts.map Tablet.interval = ts'.map Tablet.interval := by
  have hmap := congrArg (List.map Tablet.interval) h
  rwa [assignment, assignment, List.map_map, List.map_map] at hmap

/-- No change of the table breaks the tiling. -/
theorem Tiles.change {connected : UInt32 → Prop} {m m' : Master} (h : Tiles m.tablets)
    (hchange : TableChange connected m m') : Tiles m'.tablets := by
  cases hchange with
  | keep htablets hid hepoch =>
    rw [Tiles, map_interval_eq htablets]
    exact h
  | split keyCount hidx hpoint =>
    exact h.split hidx hpoint.start_lt hpoint.lt_end ⟨rfl, rfl⟩ ⟨rfl, rfl⟩
  | move hidx hne hdst htablets hid hepoch =>
    rw [htablets]
    exact h.modify _ fun _ => rfl

/-- Every tablet is assigned to a node of `nodes`. -/
def Assigned (nodes : List UInt32) (tablets : List Tablet) : Prop := ∀ t ∈ tablets, t.nodeId ∈ nodes

theorem mem_assignment {t : Tablet} {ts : List Tablet} (h : t ∈ ts) :
    { t with keyCount := 0 } ∈ assignment ts :=
  List.mem_map_of_mem h

/-- A change of the table leaves a tablet on its node, or moves it to a connected one. -/
theorem TableChange.nodeId {connected : UInt32 → Prop} {m m' : Master}
    (h : TableChange connected m m') {t : Tablet} (ht : t ∈ m'.tablets) :
    (∃ u ∈ m.tablets, u.nodeId = t.nodeId) ∨ connected t.nodeId := by
  cases h with
  | keep htablets hid hepoch =>
    have hmem := mem_assignment ht
    rw [htablets] at hmem
    obtain ⟨u, hu, heq⟩ := List.mem_map.mp hmem
    exact .inl ⟨u, hu, (Tablet.mk.inj heq).2.2.2.1⟩
  | @split idx old median keyCount hidx hpoint =>
    obtain ⟨l₁, l₂, hl, hlen⟩ := exists_append_of_getElem? hidx
    rw [Master.splitAt, hl, ← hlen, set_insertIdx_append] at ht
    rw [hl]
    left
    rcases List.mem_append.mp ht with hmem | hmem
    · exact ⟨t, List.mem_append_left _ hmem, rfl⟩
    · rcases List.mem_cons.mp hmem with rfl | hmem
      · exact ⟨old, by simp, rfl⟩
      · rcases List.mem_cons.mp hmem with rfl | hmem
        · exact ⟨old, by simp, rfl⟩
        · exact ⟨t, List.mem_append_right _ (List.mem_cons_of_mem _ hmem), rfl⟩
  | @move _ idx _ _ hidx hne hdst htablets hid hepoch =>
    rw [htablets, Master.moveTo] at ht
    obtain ⟨n, hn⟩ := List.mem_iff_getElem?.mp ht
    rw [List.getElem?_modify] at hn
    obtain ⟨u, hu, heq⟩ := Option.map_eq_some_iff.mp hn
    by_cases hi : idx = n
    · rw [if_pos hi] at heq
      exact .inr (heq ▸ hdst)
    · rw [if_neg hi] at heq
      exact .inl ⟨u, List.mem_of_getElem? hu, congrArg Tablet.nodeId heq⟩

/-- No change of the table assigns a tablet outside `nodes`, when the connected nodes are inside. -/
theorem Assigned.change {connected : UInt32 → Prop} {nodes : List UInt32} {m m' : Master}
    (h : Assigned nodes m.tablets) (hnodes : ∀ node, connected node → node ∈ nodes)
    (hchange : TableChange connected m m') : Assigned nodes m'.tablets := by
  intro t ht
  rcases hchange.nodeId ht with ⟨u, hu, heq⟩ | hconn
  · exact heq ▸ h u hu
  · exact hnodes _ hconn

/-- The initial table tiles the key space and is assigned to DataNodes. -/
theorem buildInitialTablets_spec {peers : List PeerInfo} {tablets : List Tablet}
    (hnodes : 2 ≤ (dataNodes peers).length) (hinit : buildInitialTablets peers = some tablets) :
    Tiles tablets ∧ Assigned (dataNodes peers) tablets := by
  unfold buildInitialTablets at hinit
  rcases hdn : dataNodes peers with _ | ⟨a, _ | ⟨b, l⟩⟩
  · simp [hdn] at hnodes
  · simp [hdn] at hnodes
  · rw [hdn] at hinit
    obtain rfl := Option.some.inj hinit
    exact ⟨tiles_initial a b, by simp [Assigned]⟩

/-- Every reachable table tiles the key space and is assigned to DataNodes. -/
theorem Reachable.spec {peers : List PeerInfo} {m : Master} (h : Reachable peers m) :
    Tiles m.tablets ∧ Assigned (dataNodes peers) m.tablets := by
  induction h with
  | init hnodes hinit => exact buildInitialTablets_spec hnodes hinit
  | load h hsave ih =>
    rw [Balancer.loadTablets, FileContent.parse, dump_eq_some hsave]
    exact ih
  | @act m h σ E hE s a ih =>
    have hchange := after_change E m s a
    exact ⟨ih.1.change hchange, ih.2.change (fun node h => h.elim (hE node _) (hE node _)) hchange⟩

theorem Reachable.tiles {peers : List PeerInfo} {m : Master} (h : Reachable peers m) :
    Tiles m.tablets :=
  h.spec.1

/-- Every reachable table tiles the key space, and the lookup returns for every key the one tablet
that contains it. -/
theorem reachable_tiling {peers : List PeerInfo} {m : Master} (h : Reachable peers m) :
    Tiling m.tablets ∧ ∀ key, ∃ (t : Tablet) (n : ℕ), getTabletRoute m.tablets key = some t ∧
      m.tablets[n]? = some t ∧ t.Contains key ∧
      ∀ (n' : ℕ) (t' : Tablet), m.tablets[n']? = some t' → t'.Contains key → n' = n := by
  refine ⟨h.tiles.tiling, fun key => ?_⟩
  obtain ⟨t, hmem, hroute, hcontains⟩ := h.tiles.getTabletRoute_isSome key
  obtain ⟨n, hn⟩ := List.mem_iff_getElem?.mp hmem
  exact ⟨t, n, hroute, hn, hcontains, fun n' t' hn' hcontains' =>
    h.tiles.contains_unique hn' hn hcontains' hcontains⟩

/-- DataNodes 2 and 3, which always answer with nine keys and the median `median`. -/
def nineKeys (median : Bytes) : Environment Unit where
  isConnected node _ := node = 2 ∨ node = 3
  send _ _ s := (true, s)
  recvFrame _ _ s :=
    (some (encodeResponse 1 ST_OK (be 4 9 ++ (be 2 median.length ++ median))), s)
  openTmp s := (true, s)
  writeTmp _ s := s
  renameTmp s := (true, s)
  now s := (0, s)

/-- The members after the statistics and a split of the first tablet at `median`. -/
def afterSplit (median : Bytes) : Master :=
  BalancerAction.after (.split 0) (nineKeys median) (BalancerAction.after .sync (nineKeys median)
    { Master.init with tablets := [⟨1, [], [0x6D], 2, 0⟩, ⟨2, [0x6D], [], 3, 0⟩] } ()) ()

/-- Two DataNodes on one host, and the Master. -/
def twoNodes : List PeerInfo :=
  [⟨1, [0x31], 9001⟩, ⟨2, [0x31], 9002⟩, ⟨3, [0x31], 9003⟩]

theorem reachable_afterSplit (median : Bytes) : Reachable twoNodes (afterSplit median) := by
  have hserves : (nineKeys median).Serves twoNodes := by
    intro node _ hconnected
    rcases of_decide_eq_true hconnected with rfl | rfl <;> decide
  have hinit : Reachable twoNodes { Master.init with
      tablets := [⟨1, [], [0x6D], 2, 0⟩, ⟨2, [0x6D], [], 3, 0⟩] } :=
    .init (by decide) (by decide)
  exact (hinit.act hserves () .sync).act hserves () (.split 0)

/-- After a split of the first tablet at `g`, a key above `g` lies in the second of three tablets. -/
theorem reachable_tiling_split :
    (afterSplit [0x67]).tablets.map (fun t => (t.id, t.startKey, t.endKey))
        = [(3, [], [0x67]), (4, [0x67], [0x6D]), (2, [0x6D], [])] ∧
      Tiling (afterSplit [0x67]).tablets ∧
      (getTabletRoute (afterSplit [0x67]).tablets [0x68]).map Tablet.id = some 4 :=
  ⟨by decide, (reachable_tiling (reachable_afterSplit [0x67])).1, by decide⟩

end LeKV
