import LeKV.Kv.OneMap
import LeKV.Kv.SavedTable
import LeKV.Kv.ScanCover
import LeKV.Lib.Halving

/-!
# Key counts (`StorageEngine::RangeStats`, `RaftNode::TrySplitTablet`)

The key count of a tablet is kept, not recounted: a split gives its halves `n / 2` and `n - n / 2`
keys, a migration leaves the count as it is. `Counted` says that all counts are those of the stores;
statistics establish it and every action keeps it while no client writes.
-/

namespace LeKV

open Bytes BinaryProtocol Sharding Balancer

/-! ## The keys of a DataNode -/

namespace DataNode

/-- The stored keys, in order. -/
def keys (n : DataNode) : List Bytes :=
  match n.storage with
  | none => []
  | some st => st.db.entries.map Prod.fst

/-- The stored keys in the range of a tablet. -/
def keysIn (n : DataNode) (t : Tablet) : List Bytes := n.keys.filter fun k => t.Contains k

/-- The key in the middle of a tablet. -/
def medianIn (n : DataNode) (t : Tablet) : Bytes := (n.keysIn t).getD ((n.keysIn t).length / 2) []

theorem keys_sorted (n : DataNode) : n.keys.Pairwise (· < ·) := by
  unfold keys
  rcases n.storage with _ | st
  · exact List.Pairwise.nil
  · exact List.pairwise_map.mpr st.db.sorted

theorem keysIn_sorted (n : DataNode) (t : Tablet) : (n.keysIn t).Pairwise (· < ·) :=
  n.keys_sorted.filter _

theorem mem_keys {n : DataNode} {k : Bytes} : k ∈ n.keys ↔ n.lookup k ≠ none := by
  obtain ⟨_ | st⟩ := n
  · exact iff_of_false List.not_mem_nil fun h => h rfl
  · show k ∈ st.db.entries.map Prod.fst ↔ st.db.find? k ≠ none
    rw [Option.ne_none_iff_exists', List.mem_map]
    constructor
    · rintro ⟨⟨_, v⟩, he, rfl⟩
      exact ⟨v, SortedMap.find?_eq_some.mpr he⟩
    · rintro ⟨v, hv⟩
      exact ⟨(k, v), SortedMap.find?_eq_some.mp hv, rfl⟩

theorem mem_keysIn {n : DataNode} {t : Tablet} {k : Bytes} :
    k ∈ n.keysIn t ↔ n.lookup k ≠ none ∧ t.Contains k := by
  rw [keysIn, List.mem_filter, mem_keys, decide_eq_true_eq]

/-- The keys of a range scan. -/
theorem keysIn_eq {n : DataNode} {st : StorageEngine} (hst : n.storage = some st) (t : Tablet) :
    n.keysIn t = (st.rangeQuery t.startKey t.endKey).map Prod.fst := by
  rw [keysIn, keys, hst, StorageEngine.rangeQuery, SortedMap.range_eq_filter]
  show (st.db.entries.map Prod.fst).filter _ = _
  rw [List.filter_map]
  refine congrArg (List.map Prod.fst) (List.filter_congr fun e _ => ?_)
  rw [Bool.eq_iff_iff]
  show decide (t.Contains e.1) = true ↔ _
  unfold Tablet.Contains endBound SortedMap.below
  split_ifs with h <;> simp [h]

/-- The statistics of a tablet's range: the number of keys, and the one of index `n / 2`. -/
theorem dataNodeGetTabletStats_eq (n : DataNode) (t : Tablet) :
    n.dataNodeGetTabletStats t.startKey t.endKey
      = ((n.keysIn t).length, n.medianIn t) := by
  unfold dataNodeGetTabletStats medianIn
  rcases hst : n.storage with _ | st
  · rw [keysIn, keys, hst]
    rfl
  · rw [keysIn_eq hst]
    rfl

/-- A range with keys has one in the middle. -/
theorem getElem?_medianIn {n : DataNode} {t : Tablet} (hne : n.keysIn t ≠ []) :
    (n.keysIn t)[(n.keysIn t).length / 2]? = some (n.medianIn t) := by
  have hlt : (n.keysIn t).length / 2 < (n.keysIn t).length :=
    Nat.div_lt_self (List.length_pos_of_ne_nil hne) one_lt_two
  rw [medianIn, List.getD_eq_getElem?_getD, List.getElem?_eq_getElem hlt]
  rfl

/-- The key in the middle is strictly inside the tablet, unless the tablet has no key, or only its
first possible one. -/
theorem splitPoint_medianIn {n : DataNode} {t : Tablet} (hshort : (n.medianIn t).length < 2 ^ 16) :
    SplitPoint t (n.medianIn t) ↔ n.keysIn t ≠ [] ∧ n.keysIn t ≠ [t.startKey] := by
  constructor
  · intro hpoint
    refine ⟨fun hnil => ?_, fun hone => ?_⟩
    · have hmedian : n.medianIn t = [] := by
        rw [medianIn, hnil]
        rfl
      exact Bytes.ne_nil_of_lt hpoint.start_lt hmedian
    · have hmedian : n.medianIn t = t.startKey := by
        rw [medianIn, hone]
        simp
      exact hpoint.start_lt.ne hmedian.symm
  · rintro ⟨hne, hone⟩
    have hmedian := getElem?_medianIn hne
    have hcontains : t.Contains (n.medianIn t) :=
      (mem_keysIn.mp (List.mem_of_getElem? hmedian)).2
    refine ⟨hshort, ?_, hcontains.2⟩
    obtain ⟨k, l, hl⟩ := List.exists_cons_of_ne_nil hne
    have hfirst : (n.keysIn t)[0]? = some k := by
      rw [hl]
      rfl
    have hstart : t.startKey ≤ k := (mem_keysIn.mp (List.mem_of_getElem? hfirst)).2.1
    rcases Nat.eq_zero_or_pos ((n.keysIn t).length / 2) with hzero | hpos
    · -- one key, the median
      rw [hzero, hfirst] at hmedian
      obtain rfl := Option.some.inj hmedian
      have hnil : l = [] := by
        rw [hl, List.length_cons] at hzero
        exact List.eq_nil_of_length_eq_zero (by omega)
      refine lt_of_le_of_ne hstart fun heq => hone ?_
      rw [hl, hnil, heq]
    · exact hstart.trans_lt (Halving.lt_of_pos (n.keysIn_sorted t) hpos hfirst hmedian)

end DataNode

/-- The statistics of a tablet as a reply has room for them. -/
def DataNode.reported (n : DataNode) (t : Tablet) : UInt64 × Bytes :=
  (UInt64.ofNat ((n.keysIn t).length % 2 ^ 32), n.medianIn t)

/-- Fewer than `2 ^ 32` keys are reported as they are. -/
theorem DataNode.reported_eq {n : DataNode} {t : Tablet} (h : (n.keysIn t).length < 2 ^ 32) :
    n.reported t = (UInt64.ofNat (n.keysIn t).length, n.medianIn t) := by
  rw [reported, Nat.mod_eq_of_lt h]

/-! ## Statistics queries on quiet connections -/

/-- The reply to a statistics query, read as the Master reads it. The count has four bytes. -/
theorem parseStats_response (count : ℕ) {median : Bytes} (hmedian : median.length < 2 ^ 16)
    (valLen : ℕ) :
    parseStats (ST_OK :: (be 4 valLen ++ (be 4 count ++ (be 2 median.length ++ median))))
      = some (UInt64.ofNat (count % 2 ^ 32), median) := by
  have hnum : numAt (ST_OK :: (be 4 valLen ++ (be 4 count ++ (be 2 median.length ++ median)))) 5 4
      = some (count % 2 ^ 32) :=
    num32At_append (ST_OK :: be 4 valLen) (be 2 median.length ++ median) count (rfl : 5 = _)
  have hlen : numAt (ST_OK :: (be 4 valLen ++ (be 4 count ++ (be 2 median.length ++ median)))) 9 2
      = some median.length := by
    have h := num16At_append (ST_OK :: (be 4 valLen ++ be 4 count)) median median.length
      (rfl : 9 = _)
    rwa [Nat.mod_eq_of_lt hmedian, List.cons_append, List.append_assoc] at h
  have hbytes : bytesAt (ST_OK :: (be 4 valLen ++ (be 4 count ++ (be 2 median.length ++ median)))) 11
      median.length = some median := by
    have h := bytesAt_append (ST_OK :: (be 4 valLen ++ (be 4 count ++ be 2 median.length))) median []
      (rfl : 11 = _) rfl
    simpa using h
  have htotal : (ST_OK :: (be 4 valLen ++ (be 4 count ++ (be 2 median.length ++ median)))).length
      = 11 + median.length := by
    simp only [List.length_cons, List.length_append, length_be]
    omega
  unfold parseStats
  rw [htotal, hnum, hlen]
  simp only [Option.bind_eq_bind, Option.bind_some, hbytes, List.head?_cons]
  rw [if_neg (by omega), if_neg (by simp), if_neg (by omega)]
  rfl

section Query

variable {m : Master} {s : Cluster} {t : Tablet} {node : UInt32}

/-- A statistics query on a quiet connection returns the number of keys and the median. -/
theorem run_queryTabletStats_quiet (m : Master) (hquiet : s.Quiet)
    (hconn : (s.connections node).connected = true) (hbounded : t.Bounded)
    (hstored : (s.nodes node).Storables) :
    ∃ s', Cluster.env.run (queryTabletStats node t.startKey t.endKey) (m, s)
        = (some (some ((s.nodes node).reported t)), (m, s')) ∧
      s'.nodes = s.nodes ∧ s'.Quiet ∧ s'.outcomes = s.outcomes := by
  let q : Request := ⟨node, 1, rangePayload OP_TABLET_STATS t.startKey t.endKey⟩
  have hfit : FitsFrame q.payload := (t.range hbounded).fitsFrame _
  have hh := DataNode.handleBinaryRequest_tabletStats (s.nodes node) hbounded.1 hbounded.2 1
  have hstats := (s.nodes node).dataNodeGetTabletStats_eq t
  have hmedian : ((s.nodes node).medianIn t).length < 2 ^ 16 := by
    have hsnd : ((s.nodes node).dataNodeGetTabletStats t.startKey t.endKey).2
        = (s.nodes node).medianIn t := congrArg Prod.snd hstats
    rw [← hsnd, DataNode.dataNodeGetTabletStats]
    rcases hst : (s.nodes node).storage with _ | st
    · exact Nat.two_pow_pos 16
    · exact length_rangeStats hstored hst t.startKey t.endKey
  -- the body of the response
  let value := be 4 ((s.nodes node).keysIn t).length
    ++ (be 2 ((s.nodes node).medianIn t).length ++ (s.nodes node).medianIn t)
  have hanswer : DataNode.handleBinaryRequest 1 q.payload (s.nodes node)
      = some (ST_OK :: value, s.nodes node) := by
    rw [hh, DataNode.tabletStats, hstats]
  have hvalue : 15 + value.length < 2 ^ 32 := by
    simp only [value, List.length_append, length_be]
    omega
  have hreply := hquiet.reply (q := q) hconn hfit hanswer hvalue 3000
  obtain ⟨hafter, hnodes⟩ := hquiet.after (q := q) hconn hfit hanswer hvalue 3000
  refine ⟨s.after q 3000, ?_, ?_, hafter, ?_⟩
  · rw [run_queryTabletStats m s node hconn]
    show (some ((s.reply q 3000).bind parseStats), _) = _
    rw [hreply, Option.bind_some]
    exact congrArg (fun r => (some r, (m, s.after q 3000)))
      (parseStats_response _ hmedian value.length)
  · exact hnodes.trans (Function.update_eq_self _ _)
  · rw [after_of_sent (hquiet node hconn).sendOutcome hfit hanswer]
    rfl

/-! ## Statistics of all tablets -/

end Query

section Reports

variable {σ : Type} {E : Environment σ} {nodes : UInt32 → DataNode}
  {P : UInt32 → Bytes → Bytes → Prop} {I : σ → Prop} {m : Master} {s : σ}

/-- Every statistics query about a range with `P` succeeds, with what the DataNodes `nodes` store. -/
def Environment.Reports (E : Environment σ) (nodes : UInt32 → DataNode)
    (P : UInt32 → Bytes → Bytes → Prop) (I : σ → Prop) : Prop :=
  ∀ t : Tablet, P t.nodeId t.startKey t.endKey → ∀ m s, I s → ∃ s',
    E.run (queryTabletStats t.nodeId t.startKey t.endKey) (m, s)
      = (some (some ((nodes t.nodeId).reported t)), (m, s')) ∧ I s'

/-- A tablet with the key count that its node reports. -/
def Tablet.refresh (nodes : UInt32 → DataNode) (t : Tablet) : Tablet :=
  { t with keyCount := ((nodes t.nodeId).reported t).1 }

/-- `SyncAllTabletStats` by an invariant: `J done done' s` says that the tablets `done` have become
`done'`, each with the key count of its answer, or unchanged without one. -/
theorem run_syncAllTabletStats_of {J : List Tablet → List Tablet → σ → Prop}
    (hquery : ∀ done t todo, m.tablets = done ++ t :: todo → ∀ done' m s, J done done' s → ∃ r s',
      E.run (queryTabletStats t.nodeId t.startKey t.endKey) (m, s) = (some r, (m, s')) ∧
        J (done ++ [t]) (done' ++ [r.elim t fun a => { t with keyCount := a.1 }]) s')
    (hs : J [] [] s) :
    ∃ tablets s', E.run syncAllTabletStats (m, s) = (some (), ({ m with tablets }, s')) ∧
      J m.tablets tablets s' := by
  have hfrom : ∀ (todo done done' : List Tablet) (s : σ), m.tablets = done ++ todo → J done done' s →
      ∃ tablets s', E.run (syncFrom todo.length done'.length) ({ m with tablets := done' ++ todo }, s)
        = (some (), ({ m with tablets }, s')) ∧ J m.tablets tablets s' := by
    intro todo
    induction todo with
    | nil =>
      intro done done' s hm hs
      rw [List.append_nil] at hm
      rw [hm]
      exact ⟨_, s, rfl, (List.append_nil done').symm ▸ hs⟩
    | cons t todo ih =>
      intro done done' s hm hs
      obtain ⟨r, s₁, hrun₁, hs₁⟩ := hquery done t todo hm done'
        { m with tablets := done' ++ t :: todo } s hs
      generalize hu : r.elim t (fun a => { t with keyCount := a.1 }) = u at hs₁
      have hstep : E.run (syncTabletStats done'.length) ({ m with tablets := done' ++ t :: todo }, s)
          = (some (), ({ m with tablets := done' ++ [u] ++ todo }, s₁)) := by
        unfold syncTabletStats
        rw [Environment.run_get]
        simp only [List.getElem?_append_right le_rfl, Nat.sub_self, List.getElem?_cons_zero]
        rw [Environment.run_bind_some hrun₁, ← hu]
        rcases r with _ | ⟨keyCount, median⟩
        · rw [List.append_assoc]
          rfl
        · show (some (), ({ m with tablets := (done' ++ t :: todo).modify done'.length _ }, s₁)) = _
          rw [modify_append, List.append_assoc]
          rfl
      obtain ⟨tablets, s₂, hrun, hs₂⟩ := ih (done ++ [t]) (done' ++ [u]) s₁ (by simpa using hm) hs₁
      refine ⟨tablets, s₂, ?_, hs₂⟩
      rw [List.length_cons, syncFrom, Environment.run_bind_some hstep]
      rw [List.length_append, List.length_singleton] at hrun
      exact hrun
  exact hfrom m.tablets [] [] s rfl hs

/-- `SyncAllTabletStats` takes over what the nodes report. -/
theorem run_syncAllTabletStats_reports (hE : E.Reports nodes P I)
    (hP : ∀ t ∈ m.tablets, P t.nodeId t.startKey t.endKey) (hs : I s) :
    ∃ s', E.run syncAllTabletStats (m, s)
        = (some (), ({ m with tablets := m.tablets.map (Tablet.refresh nodes) }, s')) ∧ I s' := by
  obtain ⟨tablets, s', hrun, rfl, hs'⟩ := run_syncAllTabletStats_of
    (J := fun done done' s => done' = done.map (Tablet.refresh nodes) ∧ I s)
    (fun done t todo hm done' m' s hs => by
      have ht : t ∈ m.tablets := hm ▸ List.mem_append_right done List.mem_cons_self
      obtain ⟨s', hrun, hs'⟩ := hE t (hP t ht) m' s hs.2
      refine ⟨_, s', hrun, ?_, hs'⟩
      rw [hs.1, List.map_append]
      rfl) ⟨rfl, hs⟩
  exact ⟨s', hrun, hs'⟩

end Reports

section Query

variable {m : Master} {s : Cluster} {t : Tablet}

/-- A range on a connected node, with boundaries that fit their length fields. -/
def Cluster.Asks (connected : UInt32 → Bool) (node : UInt32) (start end_ : Bytes) : Prop :=
  connected node = true ∧ Short start ∧ Short end_

/-- The DataNodes are `nodes`, on the quiet connections `connected`. -/
structure Cluster.Standing (nodes : UInt32 → DataNode) (connected : UInt32 → Bool) (s : Cluster) :
    Prop where
  nodes : s.nodes = nodes
  quiet : s.Quiet
  connected : ∀ node, (s.connections node).connected = connected node

/-- Quiet connections report what the DataNodes store. -/
theorem reports_quiet {nodes : UInt32 → DataNode} (connected : UInt32 → Bool)
    (hstored : ∀ node, (nodes node).Storables) :
    Cluster.env.Reports nodes (Cluster.Asks connected) (Cluster.Standing nodes connected) := by
  rintro t ⟨hconn, hbounded⟩ m s ⟨rfl, hquiet, hconns⟩
  obtain ⟨s', hrun, hnodes, hquiet', -⟩ := run_queryTabletStats_quiet m hquiet
    ((hconns t.nodeId).trans hconn) hbounded (hstored t.nodeId)
  refine ⟨s', hrun, hnodes, hquiet', fun node => ?_⟩
  have hkept := Cluster.connected_run (queryTabletStats t.nodeId t.startKey t.endKey) (m, s) node
  rw [hrun] at hkept
  exact hkept.trans (hconns node)

/-- A tablet with the key count of its node. -/
def Cluster.recount (nodes : UInt32 → DataNode) (t : Tablet) : Tablet :=
  { t with keyCount := UInt64.ofNat ((nodes t.nodeId).keysIn t).length }

/-- `SyncAllTabletStats` on quiet connections counts every tablet anew. -/
theorem run_syncAllTabletStats_quiet {m : Master} (hquiet : s.Quiet)
    (hconn : ∀ t ∈ m.tablets, (s.connections t.nodeId).connected = true)
    (hbounded : Boundaries Short m.tablets) (hstored : ∀ node, (s.nodes node).Storables)
    (hcount : ∀ t ∈ m.tablets, ((s.nodes t.nodeId).keysIn t).length < 2 ^ 32) :
    ∃ s', Cluster.env.run syncAllTabletStats (m, s)
        = (some (), ({ m with tablets := m.tablets.map (Cluster.recount s.nodes) }, s')) ∧
      s'.nodes = s.nodes ∧ s'.Quiet := by
  obtain ⟨s', hrun, hstanding⟩ := run_syncAllTabletStats_reports
    (reports_quiet (fun node => (s.connections node).connected) hstored) (m := m) (s := s)
    (fun t ht => ⟨hconn t ht, hbounded t ht⟩) ⟨rfl, hquiet, fun _ => rfl⟩
  have hrecount : m.tablets.map (Tablet.refresh s.nodes)
      = m.tablets.map (Cluster.recount s.nodes) := by
    apply List.map_congr_left
    intro t ht
    rw [Tablet.refresh, DataNode.reported_eq (hcount t ht)]
    rfl
  exact ⟨s', hrecount ▸ hrun, hstanding.nodes, hstanding.quiet⟩

/-! ## Splits -/

/-- `TrySplitTablet` on quiet connections, for a tablet of two keys or more: it splits the tablet at
the median, with the counts of the halves. Without a result `dump` threw. -/
theorem run_trySplitTablet_quiet {m : Master} {idx : ℕ} (hquiet : s.Quiet)
    (hidx : m.tablets[idx]? = some t) (hbig : ¬t.keyCount < SPLIT_THRESHOLD)
    (hconn : (s.connections t.nodeId).connected = true) (hbounded : t.Bounded)
    (hstored : (s.nodes t.nodeId).Storables)
    (hcount : ((s.nodes t.nodeId).keysIn t).length < 2 ^ 32)
    (htwo : 2 ≤ ((s.nodes t.nodeId).keysIn t).length) :
    let n := s.nodes t.nodeId
    let m' := m.splitAt idx t (UInt64.ofNat (n.keysIn t).length) (n.medianIn t)
    (n.keysIn t)[(n.keysIn t).length / 2]? = some (n.medianIn t) ∧ SplitPoint t (n.medianIn t) ∧
      ∃ s', Cluster.env.run (trySplitTablet idx) (m, s)
          = (if s.outcomes.opens = true ∧ dump (document m') = none then none else some true,
            (m', s')) ∧ s'.nodes = s.nodes ∧ s'.Quiet := by
  intro n m'
  have hlong : 2 ≤ (n.keysIn t).length := htwo
  obtain ⟨s₁, hquery, hnodes₁, hquiet₁, houtcomes⟩ :=
    run_queryTabletStats_quiet m hquiet hconn hbounded hstored
  rw [DataNode.reported_eq hcount] at hquery
  have hne : n.keysIn t ≠ [] := List.ne_nil_of_length_pos (zero_lt_two.trans_le htwo)
  have hone : n.keysIn t ≠ [t.startKey] := by
    intro h
    rw [h, List.length_singleton] at hlong
    exact absurd hlong (by norm_num)
  have hshort := (Balancer.queryTabletStats_returns _ _ _).run hquery
  have hpoint : SplitPoint t (n.medianIn t) :=
    (DataNode.splitPoint_medianIn (hshort _ rfl)).mpr ⟨hne, hone⟩
  refine ⟨DataNode.getElem?_medianIn hne, hpoint, ?_⟩
  have hsplit := Environment.run_trySplitTablet_some hidx hbig hquery
  rw [if_neg ((splitPoint_iff hpoint.length_lt).mp hpoint)] at hsplit
  rw [hsplit]
  obtain ⟨r, s₂, hsave, hnodes₂, hquiet₂⟩ := Environment.run_saveTablets
    (keepsFiles_quiet s₁.nodes) m' (s := s₁) ⟨rfl, hquiet₁⟩
  refine ⟨s₂, ?_, hnodes₂.trans hnodes₁, hquiet₂⟩
  have hresult := congrArg Prod.fst (run_saveTablets_eq m' s₁)
  rw [hsave, houtcomes] at hresult
  by_cases hthrows : s.outcomes.opens = true ∧ dump (document m') = none
  · -- the split is made in memory before `dump` throws
    rw [if_pos hthrows]
    rw [if_pos hthrows.1, hthrows.2] at hresult
    obtain rfl : r = none := hresult
    exact Environment.run_bind_none hsave _
  · rw [if_neg hthrows]
    have hdone : r = some () := by
      by_cases hopens : s.outcomes.opens = true
      · rw [if_pos hopens] at hresult
        rcases hdump : dump (document m') with _ | text
        · exact absurd ⟨hopens, hdump⟩ hthrows
        · rw [hdump] at hresult
          exact hresult
      · rw [if_neg hopens] at hresult
        exact hresult
    rw [hdone] at hsave
    exact Environment.run_bind_some hsave _

end Query

end LeKV
