import LeKV.Kv.Clients
import LeKV.Kv.LateReplies
import LeKV.Kv.Restart

/-!
# Points at which the Master may stop

The routing table is in memory and in `tablets.json`, the pairs are on the DataNodes, and an action
changes the three one after the other. `Recovers` says of a file that the Master which starts with it
routes every pair to a node that has it. The rest is about programs: what holds of the file and the
stores at all points of a save, of a request and of `TrySplitTablet`, in terms of the few points
where either of them changes.
-/

namespace LeKV

open Bytes BinaryProtocol Sharding Balancer

/-- Where a table sends a key. -/
def routeOf (tablets : List Tablet) (key : Bytes) : Option UInt32 :=
  (getTabletRoute tablets key).map Tablet.nodeId

/-- The DataNode `node` has the pair. -/
def Has (nodes : UInt32 → DataNode) (node : UInt32) (k v : Bytes) : Prop :=
  (nodes node).lookup k = some v

/-- The Master that starts under `peers` on this content of `tablets.json` routes every pair of `σ` to
a node that has it. -/
def Recovers (peers : List PeerInfo) (σ : Bytes → Option Bytes) (has : UInt32 → Bytes → Bytes → Prop)
    (file : Option FileContent) : Prop :=
  ∃ m p, startUp peers file = some (m, p) ∧ Serves (routeOf m.tablets) has σ

section Recovers

variable {peers : List PeerInfo} {σ : Bytes → Option Bytes}
  {has has' : UInt32 → Bytes → Bytes → Prop} {file : Option FileContent}

theorem Recovers.mono (h : Recovers peers σ has file)
    (hhas : ∀ n k v, σ k = some v → has n k v → has' n k v) : Recovers peers σ has' file := by
  obtain ⟨m, p, hstart, hserves⟩ := h
  exact ⟨m, p, hstart, hserves.mono hhas⟩

theorem recovers_congr (hhas : ∀ n k v, σ k = some v → (has n k v ↔ has' n k v)) :
    Recovers peers σ has file ↔ Recovers peers σ has' file :=
  ⟨fun h => h.mono fun n k v hk => (hhas n k v hk).mp,
    fun h => h.mono fun n k v hk => (hhas n k v hk).mpr⟩

/-- The next Master routes no pair of `σ` to a node that has lost it. -/
def Avoids (peers : List PeerInfo) (σ : Bytes → Option Bytes)
    (lost : UInt32 → Bytes → Bytes → Prop) (file : Option FileContent) : Prop :=
  ∀ m p, startUp peers file = some (m, p) →
    ∀ k v, σ k = some v → ∀ n, routeOf m.tablets k = some n → ¬lost n k v

theorem recovers_and_not_iff (lost : UInt32 → Bytes → Bytes → Prop) :
    Recovers peers σ (fun n k v => has n k v ∧ ¬lost n k v) file ↔
      Recovers peers σ has file ∧ Avoids peers σ lost file := by
  constructor
  · rintro ⟨m, p, hstart, hserves⟩
    obtain ⟨hhas, hlost⟩ := (serves_and_not_iff lost).mp hserves
    refine ⟨⟨m, p, hstart, hhas⟩, fun m' p' hstart' => ?_⟩
    obtain ⟨rfl, -⟩ := Prod.mk.inj (Option.some.inj (hstart.symm.trans hstart'))
    exact hlost
  · rintro ⟨⟨m, p, hstart, hhas⟩, havoids⟩
    exact ⟨m, p, hstart, (serves_and_not_iff lost).mpr ⟨hhas, havoids m p hstart⟩⟩

/-- With the same file, the next Master is the same one. -/
theorem recovers_forall_iff {ι : Type} [Nonempty ι] {hasAt : ι → UInt32 → Bytes → Bytes → Prop} :
    (∀ i, Recovers peers σ (hasAt i) file) ↔
      Recovers peers σ (fun n k v => ∀ i, hasAt i n k v) file := by
  constructor
  · intro h
    obtain ⟨m, p, hstart, hserves⟩ := h (Classical.arbitrary ι)
    refine ⟨m, p, hstart, fun k v hk => ?_⟩
    obtain ⟨n, hroute, -⟩ := hserves k v hk
    refine ⟨n, hroute, fun i => ?_⟩
    obtain ⟨m', p', hstart', hserves'⟩ := h i
    obtain ⟨rfl, -⟩ := Prod.mk.inj (Option.some.inj (hstart.symm.trans hstart'))
    obtain ⟨n', hroute', hhas⟩ := hserves' k v hk
    obtain rfl : n' = n := Option.some.inj (hroute'.symm.trans hroute)
    exact hhas
  · exact fun h i => h.mono fun n k v _ hhas => hhas i

/-- A saved table is what the next Master starts with. -/
theorem recovers_text {text : SavedText} :
    Recovers peers σ has (some (.text text)) ↔ Serves (routeOf text.1.tablets) has σ := by
  constructor
  · rintro ⟨m, p, hstart, hserves⟩
    obtain ⟨rfl, -⟩ := Prod.mk.inj (Option.some.inj hstart)
    exact hserves
  · exact fun hserves => ⟨_, _, rfl, hserves⟩

end Recovers

theorem Tiles.routeOf_eq {tablets : List Tablet} (h : Tiles tablets) (key : Bytes) :
    routeOf tablets key = some (ownerOf tablets key) := by
  obtain ⟨t, hroute, -⟩ := h.route_owner key
  rw [routeOf, ownerOf, hroute]
  rfl

/-! ## Points of an action, seen from the file and the stores -/

section Points

variable (J : Option FileContent → (UInt32 → DataNode) → Prop)

/-- `J` of the file and the stores. -/
abbrev OnStores (w : World) : Prop := J w.2.files.file w.2.nodes

variable {J} {α : Type} {m : Master} {s : Cluster}

/-- A program that begins with `SaveTablets`. -/
theorem always_save_bind (m : Master) (s : Cluster) (f : Unit → Balancer α) :
    ∃ s', s'.nodes = s.nodes ∧ s'.connections = s.connections ∧
      s'.files.file = savedFile s.outcomes m s.files.file ∧
      (Cluster.env.Always (saveTablets >>= f) (OnStores J) (m, s) ↔
        J s.files.file s.nodes ∧ J (savedFile s.outcomes m s.files.file) s.nodes ∧
          (saveOutcome s.outcomes m ≠ .threw → Cluster.env.Always (f ()) (OnStores J) (m, s'))) := by
  obtain ⟨s', hrun, hnodes, hconns, hfile⟩ := run_saveTablets_outcome m s
  refine ⟨s', hnodes, hconns, hfile, ?_⟩
  have hsave := always_saveTablets m s J
  by_cases hthrew : saveOutcome s.outcomes m = .threw
  · rw [if_pos hthrew] at hrun
    rw [Environment.always_bind_none hrun, hsave]
    simp [hthrew]
  · rw [if_neg hthrew] at hrun
    rw [Environment.always_bind_some hrun, hsave, and_assoc]
    simp [hthrew]

/-- A statistics query leaves the stores, the files and what the file steps come to. -/
theorem always_query (m : Master) (s : Cluster) (node : UInt32) {start end_ : Bytes}
    (hstart : start.length < 2 ^ 16) (hend : end_.length < 2 ^ 16) :
    Cluster.env.Always (queryTabletStats node start end_)
      (fun w => w.1 = m ∧ w.2.nodes = s.nodes ∧ w.2.files = s.files ∧ w.2.outcomes = s.outcomes)
      (m, s) := by
  have hqueries : Requests (fun q => q = ⟨node, 1, rangePayload OP_TABLET_STATS start end_⟩)
      (fun _ => True) (queryTabletStats node start end_) := queryTabletStats_requests rfl
  refine hqueries.always (J := fun s' => s'.nodes = s.nodes ∧ s'.files = s.files ∧
    s'.outcomes = s.outcomes) ?_ (fun _ _ _ hs' => hs') m ⟨rfl, rfl, rfl⟩
  rintro q s' rfl ⟨hnodes, hfiles, houtcomes⟩
  refine ⟨?_, (files_send _ _ _).trans hfiles, ?_⟩
  · rw [nodes_send_of_kept (KeyRange.fitsFrame ⟨start, end_, hstart, hend⟩ _) fun n =>
      ⟨_, DataNode.handleBinaryRequest_tabletStats n hstart hend 1⟩]
    exact hnodes
  · unfold Cluster.send
    dsimp only
    split_ifs <;> exact houtcomes

/-- What a statistics query returns, and what it leaves as it was. -/
theorem run_query (m : Master) (s : Cluster) (node : UInt32) {start end_ : Bytes}
    (hstart : start.length < 2 ^ 16) (hend : end_.length < 2 ^ 16) :
    ∃ r s', Cluster.env.run (queryTabletStats node start end_) (m, s) = (some r, (m, s')) ∧
      (s'.nodes = s.nodes ∧ s'.files = s.files ∧ s'.outcomes = s.outcomes) ∧
      ∀ e, r = some e ↔ (s.connections node).connected = true ∧
        (s.reply ⟨node, 1, rangePayload OP_TABLET_STATS start end_⟩ 3000).bind parseStats
          = some e := by
  have halways := always_query m s node hstart hend
  by_cases hconn : (s.connections node).connected = true
  · have hrun := run_queryTabletStats m s node hconn start end_
    exact ⟨_, _, hrun, (halways.last hrun).2, fun e => (and_iff_right hconn).symm⟩
  · have hrun := run_queryTabletStats_closed m s node hconn start end_
    exact ⟨none, s, hrun, ⟨rfl, rfl, rfl⟩, fun e => iff_of_false (by simp) fun h => hconn h.1⟩

/-- Statements about the file and the stores hold throughout a program that changes neither. -/
theorem always_onStores {p : Balancer α}
    (h : Cluster.env.Always p (fun w => w.1 = m ∧ w.2.nodes = s.nodes ∧ w.2.files = s.files ∧
      w.2.outcomes = s.outcomes) (m, s)) :
    Cluster.env.Always p (OnStores J) (m, s) ↔ J s.files.file s.nodes := by
  refine ⟨fun hJ => hJ.start, fun hJ w hw => ?_⟩
  obtain ⟨-, hnodes, hfiles, -⟩ := h w hw
  unfold OnStores
  rwa [hnodes, hfiles]

/-- A call changes the stores when its request is sent, and the file never. -/
theorem always_call (node : UInt32) (timeoutMs : ℤ) (payload : Bytes) :
    Cluster.env.Always (call node timeoutMs payload) (OnStores J) (m, s) ↔
      J s.files.file s.nodes ∧
        J s.files.file (s.send node (encodeCustomRequest 1 payload)).nodes := by
  unfold call
  rw [Environment.always_send]
  apply and_congr_right
  intro _
  have hfiles := files_send s node (encodeCustomRequest 1 payload)
  change Cluster.env.Always (if ¬(s.connections node).sendOutcome.ok = true then _ else _)
    (OnStores J) (m, s.send node (encodeCustomRequest 1 payload)) ↔ _
  generalize s.send node (encodeCustomRequest 1 payload) = s₁ at hfiles ⊢
  by_cases hok : (s.connections node).sendOutcome.ok = true
  · rw [if_neg (not_not.mpr hok), Environment.always_recvFrame, OnStores, hfiles]
    apply and_iff_left_of_imp
    intro hJ
    have hJ' : OnStores J (m, s₁.recvFrame node timeoutMs) := by
      show J s₁.files.file s₁.nodes
      rwa [hfiles]
    rcases (Cluster.env.recvFrame node timeoutMs s₁).1 with _ | f
    · exact (Environment.always_pure _ _).mpr hJ'
    · dsimp only
      split <;> exact (Environment.always_pure _ _).mpr hJ'
  · rw [if_pos hok, Environment.always_pure, OnStores, hfiles]

/-- `SendDeleteRange` changes its node, if the request gets there. -/
theorem always_sendDeleteRange {node : UInt32} (hconn : (s.connections node).connected = true)
    (r : KeyRange) :
    Cluster.env.Always (sendDeleteRange node r.start r.end_) (OnStores J) (m, s) ↔
      J s.files.file s.nodes ∧ ((s.connections node).sendOutcome.executed = true →
        J s.files.file (Function.update s.nodes node
          ((s.nodes node).deleteRange r.start r.end_).2)) := by
  have hrun := run_call m s node 10000 (rangePayload OP_DELETE_RANGE r.start r.end_)
  have hcall : Cluster.env.Always (call node 10000 (rangePayload OP_DELETE_RANGE r.start r.end_))
      (OnStores J) (m, s) ↔ J s.files.file s.nodes ∧
        ((s.connections node).sendOutcome.executed = true → J s.files.file
          (Function.update s.nodes node ((s.nodes node).deleteRange r.start r.end_).2)) := by
    rw [always_call]
    change _ ∧ J s.files.file
      (s.send node (Request.data ⟨node, 1, rangePayload OP_DELETE_RANGE r.start r.end_⟩)).nodes ↔ _
    rw [nodes_send_deleteRange s r]
    apply and_congr_right
    intro hJ
    by_cases hexec : (s.connections node).sendOutcome.executed = true
    · rw [if_pos hexec, forall_prop_of_true hexec]
    · rw [if_neg hexec]
      exact iff_of_true hJ fun h => absurd h hexec
  rw [← hcall]
  unfold sendDeleteRange
  rw [Environment.always_isConnected]
  change _ ∧ Cluster.env.Always (if ¬(s.connections node).connected = true then _ else _) _ _ ↔ _
  rw [if_neg (not_not.mpr hconn), Environment.always_bind_some hrun]
  refine ⟨fun h => h.2.1, fun h => ⟨h.start, h, ?_⟩⟩
  rcases s.reply ⟨node, 1, rangePayload OP_DELETE_RANGE r.start r.end_⟩ 10000 with _ | resp
  · exact (Environment.always_pure _ _).mpr (h.last hrun)
  · exact (Environment.always_pure _ _).mpr (h.last hrun)

/-- One round of the transfer loop: the stores change when its `PUT` is sent. -/
theorem always_transferLoop_succ {dst : UInt32} {resp : Bytes} {pos pos' : ℕ} {pair : Bytes × Bytes}
    (hat : pairAt resp pos = some (pair, pos')) (hpair : FitsPut pair) (rounds i transferred : ℕ) :
    let q : Request := ⟨dst, UInt32.ofNat (i + 2), kvPayload OP_PUT pair.1 pair.2⟩
    Cluster.env.Always (transferLoop dst resp (rounds + 1) i pos transferred) (OnStores J) (m, s) ↔
      J s.files.file s.nodes ∧ Cluster.env.Always (transferLoop dst resp rounds (i + 1) pos'
        (transferred + if (s.received q 5000).isSome then 1 else 0)) (OnStores J)
        (m, s.after q 5000) := by
  intro q
  rw [transferLoop, hat]
  dsimp only
  rw [encodeRequest_put hpair, Environment.always_send]
  apply and_congr_right
  intro _
  change Cluster.env.Always (if ¬(s.connections dst).sendOutcome.ok = true then _ else _)
    (OnStores J) (m, s.send dst q.data) ↔ _
  by_cases hok : (s.connections dst).sendOutcome.ok = true
  · have hreceived : s.received q 5000 = (Cluster.env.recvFrame dst 5000 (s.send dst q.data)).1 :=
      if_pos hok
    have hafter : s.after q 5000 = (Cluster.env.recvFrame dst 5000 (s.send dst q.data)).2 := if_pos hok
    rw [if_neg (not_not.mpr hok), Environment.always_recvFrame, hreceived, hafter]
    rcases (Cluster.env.recvFrame dst 5000 (s.send dst q.data)).1 with _ | f
    · exact and_iff_right_of_imp fun h => h.start
    · exact and_iff_right_of_imp fun h => h.start
  · have hreceived : s.received q 5000 = none := if_neg hok
    have hafter : s.after q 5000 = s.send dst q.data := if_neg hok
    rw [if_pos hok, hreceived, hafter]
    rfl

/-- All points of the transfer loop: the pairs whose `PUT`s are executed are stored one by one. -/
theorem always_transferLoop {dst : UInt32} {resp : Bytes} (hresp : FitsFrame resp) (rounds i : ℕ)
    {pos : ℕ} (hpos : 9 ≤ pos) (transferred : ℕ) :
    Cluster.env.Always (transferLoop dst resp rounds i pos transferred) (OnStores J) (m, s) ↔
      ∀ j, J s.files.file (Function.update s.nodes dst ((s.nodes dst).putAll
        ((executedPairs (s.connections dst).sends (pairsFrom resp rounds pos)).take j))) := by
  have hstart : ∀ s : Cluster, Function.update s.nodes dst ((s.nodes dst).putAll []) = s.nodes :=
    fun s => Function.update_eq_self dst s.nodes
  induction rounds generalizing s i pos transferred with
  | zero =>
    rw [transferLoop, Environment.always_pure]
    simp only [pairsFrom, executedPairs, List.take_nil, hstart, forall_const]
  | succ rounds ih =>
    rcases hat : pairAt resp pos with _ | ⟨pair, pos'⟩
    · rw [transferLoop, hat]
      dsimp only
      rw [Environment.always_pure]
      simp only [pairsFrom, hat, executedPairs, List.take_nil, hstart, forall_const]
    have hpair := fitsPut_of_pairAt hresp hpos hat
    have hpos' : 9 ≤ pos' := hpos.trans (by have := pairAt_spec hat; omega)
    obtain ⟨hafter, -⟩ := after_put s hpair dst (UInt32.ofNat (i + 2))
    have hround := @always_transferLoop_succ J m s dst resp pos pos' pair hat hpair rounds i
      transferred
    dsimp only at hround hafter
    refine hround.trans ((and_congr_right fun _ => ih (i + 1) hpos' _).trans ?_)
    rw [hafter]
    have hpairs : pairsFrom resp (rounds + 1) pos = pair :: pairsFrom resp rounds pos' := by
      rw [pairsFrom, hat]
    rw [hpairs, executedPairs, Cluster.connections_setNode_self, Connection.sends_waited,
      Cluster.nodes_setNode_self]
    change _ ∧ (∀ j, J s.files.file (Function.update (Function.update s.nodes dst _) dst _)) ↔ _
    simp only [Function.update_idem]
    unfold Connection.putTo
    change _ ↔ ∀ j, J s.files.file (Function.update s.nodes dst ((s.nodes dst).putAll
      ((if (s.connections dst).sendOutcome.executed = true then _ else _ :
        List (Bytes × Bytes)).take j)))
    split_ifs with hexec
    · -- the pair is the first one that is stored
      constructor
      · rintro ⟨hs, hrest⟩ (_ | j)
        · rwa [List.take_zero, hstart]
        · exact hrest j
      · intro h
        exact ⟨hstart s ▸ h 0, fun j => h (j + 1)⟩
    · refine and_iff_right_of_imp fun h => ?_
      have hzero := h 0
      rwa [List.take_zero, hstart] at hzero

/-- All points of a transfer. -/
theorem always_scanAndTransferData {src dst : UInt32} (hne : src ≠ dst) (r : KeyRange) :
    Cluster.env.Always (scanAndTransferData src dst r.start r.end_) (OnStores J) (m, s) ↔
      J s.files.file s.nodes ∧ ∀ count pairs, Scanned s src dst r count pairs → ∀ j,
        J s.files.file (Function.update s.nodes dst ((s.nodes dst).putAll
          ((executedPairs (s.connections dst).sends pairs).take j))) := by
  unfold scanAndTransferData
  rw [Environment.always_isConnected]
  apply and_congr_right
  intro hJ
  change Cluster.env.Always (if ¬(s.connections src).connected = true then _ else _) _ (m, s) ↔ _
  by_cases hsrc : (s.connections src).connected = true
  swap
  · rw [if_pos hsrc]
    exact iff_of_true ((Environment.always_pure _ _).mpr hJ) fun _ _ h => absurd h.connected_src hsrc
  rw [if_neg (not_not.mpr hsrc), Environment.always_isConnected]
  change _ ∧ Cluster.env.Always (if ¬(s.connections dst).connected = true then _ else _) _ (m, s) ↔ _
  rw [and_iff_right (show OnStores J (m, s) from hJ)]
  by_cases hdst : (s.connections dst).connected = true
  swap
  · rw [if_pos hdst]
    exact iff_of_true ((Environment.always_pure _ _).mpr hJ) fun _ _ h => absurd h.connected_dst hdst
  rw [if_neg (not_not.mpr hdst)]
  -- the scan changes nothing
  have hrun := run_call m s src 30000 (rangePayload OP_SCAN_RANGE r.start r.end_)
  have hsent : (s.send src (scanRequest src r).data).nodes = s.nodes :=
    nodes_send_of_kept (q := scanRequest src r) (r.fitsFrame _) fun n =>
      ⟨_, DataNode.handleBinaryRequest_scanRange' n r.start_lt r.end_lt 1⟩
  have hcall : Cluster.env.Always (call src 30000 (rangePayload OP_SCAN_RANGE r.start r.end_))
      (OnStores J) (m, s) := by
    refine always_call src 30000 _ |>.mpr ⟨hJ, ?_⟩
    change J s.files.file (s.send src (scanRequest src r).data).nodes
    rwa [hsent]
  have hJ₁ : OnStores J (m, s.after (scanRequest src r) 30000) := hcall.last hrun
  obtain ⟨c, hafter, -, -⟩ := after_scan s src r
  rw [Environment.always_bind_some hrun, and_iff_right hcall]
  rcases hreply : s.reply ⟨src, 1, rangePayload OP_SCAN_RANGE r.start r.end_⟩ 30000 with _ | resp
  · refine iff_of_true ((Environment.always_pure _ _).mpr hJ₁) fun count pairs h => ?_
    obtain ⟨resp, hresp, -⟩ := h.reply
    exact absurd (hreply.symm.trans hresp) (by simp)
  dsimp only
  rcases hcount : scanCount resp with _ | count
  · refine iff_of_true ((Environment.always_pure _ _).mpr hJ₁) fun count pairs h => ?_
    obtain ⟨resp', hresp, hsome, -⟩ := h.reply
    obtain rfl := Option.some.inj (hreply.symm.trans hresp)
    exact absurd (hcount.symm.trans hsome) (by simp)
  dsimp only
  change Cluster.env.Always _ _ (m, s.after (scanRequest src r) 30000) ↔ _
  have hscanned : Scanned s src dst r count (pairsFrom resp count 9) :=
    ⟨hsrc, hdst, resp, hreply, hcount, rfl⟩
  have hloop := @always_transferLoop J m (s.after (scanRequest src r) 30000) dst resp
    (fitsFrame_of_reply hreply) count 0 9 le_rfl 0
  obtain ⟨n, c₂, hend, -⟩ := run_transferLoop_iff m (s.after (scanRequest src r) 30000) dst
    (fitsFrame_of_reply hreply) count 0 le_rfl 0
  rw [hafter] at hloop hend ⊢
  rw [Cluster.nodes_setNode_of_ne _ _ _ hne.symm, Cluster.connections_setNode_of_ne _ _ _ hne.symm]
    at hloop
  change _ ↔ ∀ j, J s.files.file (Function.update (Function.update s.nodes src (s.nodes src)) dst _)
    at hloop
  rw [Function.update_eq_self] at hloop
  rw [Environment.always_bind_some hend]
  constructor
  · rintro ⟨hpoints, -⟩ count' pairs h
    obtain ⟨-, rfl⟩ := hscanned.unique h
    exact hloop.mp hpoints
  · intro h
    have hpoints := hloop.mpr (h _ _ hscanned)
    exact ⟨hpoints, (Environment.always_pure _ _).mpr (hpoints.last hend)⟩

/-- The statistics query makes `TrySplitTablet` split the tablet `old` at `median`. -/
structure Splits (m : Master) (s : Cluster) (idx : ℕ) (old : Tablet) (keyCount : UInt64)
    (median : Bytes) : Prop where
  tablet : m.tablets[idx]? = some old
  big : ¬old.keyCount < SPLIT_THRESHOLD
  connected : (s.connections old.nodeId).connected = true
  answer : (s.reply ⟨old.nodeId, 1, rangePayload OP_TABLET_STATS old.startKey old.endKey⟩ 3000).bind
    parseStats = some (keyCount, median)
  inside : ¬(median = [] ∨ median ≤ old.startKey ∨ (old.endKey ≠ [] ∧ old.endKey ≤ median))

/-- All points of `TrySplitTablet`: the file changes at most at the end of `SaveTablets`. -/
theorem always_trySplitTablet (hshort : Boundaries Short m.tablets) (idx : ℕ) :
    Cluster.env.Always (trySplitTablet idx) (OnStores J) (m, s) ↔
      J s.files.file s.nodes ∧ ∀ old keyCount median, Splits m s idx old keyCount median →
        J (savedFile s.outcomes (m.splitAt idx old keyCount median) s.files.file) s.nodes := by
  unfold trySplitTablet
  rw [Environment.always_get]
  apply and_congr_right
  intro hJ
  rcases hidx : m.tablets[idx]? with _ | old
  · apply iff_of_true ((Environment.always_pure _ _).mpr hJ)
    intro old keyCount median h
    exact absurd (hidx.symm.trans h.tablet) (by simp)
  -- a split is one of this tablet
  have hsplits : ∀ {old' keyCount median}, Splits m s idx old' keyCount median → old' = old :=
    fun h => Option.some.inj (h.tablet.symm.trans hidx)
  dsimp only
  by_cases hsmall : old.keyCount < SPLIT_THRESHOLD
  · rw [if_pos hsmall]
    apply iff_of_true ((Environment.always_pure _ _).mpr hJ)
    intro old' keyCount median h
    exact absurd (hsplits h ▸ hsmall) h.big
  rw [if_neg hsmall]
  obtain ⟨hstart, hend⟩ := hshort old (List.mem_of_getElem? hidx)
  obtain ⟨r, s₁, hrun, ⟨hnodes, hfiles, houtcomes⟩, hr⟩ := run_query m s old.nodeId hstart hend
  have hJ₁ : J s₁.files.file s₁.nodes := by rwa [hfiles, hnodes]
  rw [Environment.always_bind_some hrun, always_onStores (always_query m s old.nodeId hstart hend),
    and_iff_right hJ]
  rcases r with _ | ⟨keyCount, median⟩
  · apply iff_of_true ((Environment.always_pure _ _).mpr hJ₁)
    intro old' keyCount median h
    obtain rfl := hsplits h
    exact absurd ((hr _).mpr ⟨h.connected, h.answer⟩) (by simp)
  obtain ⟨hconn, hanswer⟩ := (hr _).mp rfl
  dsimp only
  by_cases hmedian : median = [] ∨ median ≤ old.startKey ∨ (old.endKey ≠ [] ∧ old.endKey ≤ median)
  · rw [if_pos hmedian]
    apply iff_of_true ((Environment.always_pure _ _).mpr hJ₁)
    intro old' keyCount' median' h
    obtain rfl := hsplits h
    obtain ⟨rfl, rfl⟩ := Prod.mk.inj (Option.some.inj (hanswer.symm.trans h.answer))
    exact absurd hmedian h.inside
  -- the split is carried out
  rw [if_neg hmedian, Environment.always_get]
  simp only [hidx, ne_eq, not_true_eq_false, if_false, if_neg hsmall, Environment.always_modify]
  obtain ⟨s₂, hnodes₂, -, hfile₂, hsave⟩ := always_save_bind (J := J)
    (m.splitAt idx old keyCount median) s₁ fun _ => (return true : Balancer Bool)
  have hsplit : Splits m s idx old keyCount median := ⟨hidx, hsmall, hconn, hanswer, hmedian⟩
  rw [houtcomes, hfiles, hnodes] at hsave
  rw [houtcomes, hfiles] at hfile₂
  constructor
  · rintro ⟨-, -, -, -, -, hpoints⟩ old' keyCount' median' h
    obtain rfl := hsplits h
    obtain ⟨rfl, rfl⟩ := Prod.mk.inj (Option.some.inj (hanswer.symm.trans h.answer))
    exact (hsave.mp hpoints).2.1
  · intro h
    have hend := h _ _ _ hsplit
    refine ⟨hJ₁, hJ₁, hJ₁, hJ₁, hJ₁, hsave.mpr ⟨hJ, hend, fun _ => ?_⟩⟩
    refine (Environment.always_pure _ _).mpr ?_
    unfold OnStores
    rwa [hfile₂, hnodes₂, hnodes]

end Points

end LeKV
