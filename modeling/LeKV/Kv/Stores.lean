import LeKV.Kv.Transfer

/-!
# What the DataNodes hold

The handlers seen from the stored values: what every request leaves in a store, and exactly what it
does to a store whose writes succeed. Whatever clients send, a DataNode only ever holds pairs that
fit the length fields of a scan response (`storables_handleBinaryRequest`).
-/

namespace LeKV

open Bytes BinaryProtocol

namespace DataNode

/-- A store holds storable pairs when all its lookups give such pairs. -/
theorem storables_iff {n : DataNode} :
    n.Storables ↔ ∀ k v, n.lookup k = some v → Storable (k, v) := by
  constructor
  · intro h k v hk
    obtain ⟨st, hst, hget⟩ := Option.bind_eq_some_iff.mp hk
    exact h st hst (k, v) (SortedMap.find?_eq_some.mp hget)
  · rintro h st hst ⟨k, v⟩ he
    apply h k v
    rw [lookup, hst]
    exact SortedMap.find?_eq_some.mpr he

/-- A `GET` leaves the DataNode as it is. -/
theorem get_snd (n : DataNode) (key : Bytes) : (n.get key).2 = n := by
  unfold get
  split
  · rfl
  · split <;> rfl

/-! ## Any storage -/

section Any

variable {n n' : DataNode} {k v : Bytes}

/-- What a write that only erases keys leaves was there before. -/
theorem lookup_of_write {st : StorageEngine} {f : SortedMap Bytes Bytes → SortedMap Bytes Bytes}
    (hf : ∀ db, (f db).find? k = some v → db.find? k = some v)
    (h : (st.write f).2.get k = some v) : st.get k = some v := by
  show st.db.find? k = some v
  have hwrite : (if st.outcomes.headD true then f st.db else st.db).find? k = some v := h
  split_ifs at hwrite
  · exact hf st.db hwrite
  · exact hwrite

theorem get_of_delete {st : StorageEngine} {key : Bytes}
    (h : (st.delete key).2.get k = some v) : st.get k = some v := by
  refine lookup_of_write (fun db hdb => ?_) h
  by_cases hk : k = key
  · rw [hk, SortedMap.find?_erase_self] at hdb
    exact absurd hdb (by simp)
  · rwa [SortedMap.find?_erase_of_ne _ hk] at hdb

theorem lookup_of_delete {key : Bytes} (h : (n.delete key).2.lookup k = some v) :
    n.lookup k = some v := by
  obtain ⟨_ | st⟩ := n
  · exact h
  · exact get_of_delete h

theorem lookup_of_deleteRange {start end_ : Bytes}
    (h : (n.deleteRange start end_).2.lookup k = some v) : n.lookup k = some v := by
  obtain ⟨_ | st⟩ := n
  · exact h
  have hfold : ∀ (keys : List Bytes) (st : StorageEngine),
      (keys.foldl (fun s key => (s.delete key).2) st).get k = some v → st.get k = some v := by
    intro keys
    induction keys with
    | nil => exact fun st h => h
    | cons key keys ih => exact fun st h => get_of_delete (ih _ h)
  exact hfold _ st h

/-- One deletion, whether or not the storage accepts it. -/
theorem get_delete (st : StorageEngine) (key k : Bytes) : (st.delete key).2.get k
    = if k = key ∧ st.outcomes.headD true = true then none else st.get k := by
  show (if st.outcomes.headD true then st.db.erase key else st.db).find? k = _
  by_cases hok : st.outcomes.headD true = true
  · rw [if_pos hok]
    by_cases hk : k = key
    · rw [if_pos ⟨hk, hok⟩, hk, SortedMap.find?_erase_self]
    · rw [if_neg fun h => hk h.1, SortedMap.find?_erase_of_ne _ hk]
      rfl
  · rw [if_neg hok, if_neg fun h => hok h.2]
    rfl

/-- Deletions of other keys are not seen. -/
theorem get_deletes_of_notMem (st : StorageEngine) {keys : List Bytes} (h : k ∉ keys) :
    (keys.foldl (fun s key => (s.delete key).2) st).get k = st.get k := by
  induction keys generalizing st with
  | nil => rfl
  | cons key keys ih =>
    obtain ⟨hne, hrest⟩ := not_or.mp (List.mem_cons.not.mp h)
    rw [List.foldl_cons, ih _ hrest, get_delete, if_neg fun hk => hne hk.1]

/-- What is outside of the range stays. -/
theorem lookup_deleteRange_of_not_contains {t : Tablet} (hk : ¬t.Contains k) :
    (n.deleteRange t.startKey t.endKey).2.lookup k = n.lookup k := by
  obtain ⟨_ | st⟩ := n
  · rfl
  apply get_deletes_of_notMem st
  intro hmem
  obtain ⟨e, he, rfl⟩ := List.mem_map.mp hmem
  exact hk (StorageEngine.mem_rangeQuery.mp he).2

theorem Storables.put {key value : Bytes} (hn : n.Storables) (h : Storable (key, value)) :
    (n.put key value).2.Storables := by
  rw [storables_iff] at hn ⊢
  intro k v hk
  rw [lookup_put] at hk
  split_ifs at hk with hkey
  · obtain ⟨rfl, -⟩ := hkey
    exact Option.some.inj hk ▸ h
  · exact hn k v hk

theorem Storables.putAll {pairs : List (Bytes × Bytes)} (hn : n.Storables)
    (h : ∀ e ∈ pairs, Storable e) : (n.putAll pairs).Storables := by
  induction pairs generalizing n with
  | nil => exact hn
  | cons e pairs ih =>
    exact ih (hn.put (h e List.mem_cons_self)) fun e' he' => h e' (List.mem_cons_of_mem e he')

theorem Storables.delete (hn : n.Storables) (key : Bytes) : (n.delete key).2.Storables := by
  rw [storables_iff] at hn ⊢
  exact fun k v hk => hn k v (lookup_of_delete hk)

theorem Storables.deleteRange (hn : n.Storables) (start end_ : Bytes) :
    (n.deleteRange start end_).2.Storables := by
  rw [storables_iff] at hn ⊢
  exact fun k v hk => hn k v (lookup_of_deleteRange hk)

/-- No request makes a DataNode hold a pair that does not fit its length fields. -/
theorem storables_handleBinaryRequest {reqId : UInt32} {payload resp : Bytes} (hn : n.Storables)
    (h : handleBinaryRequest reqId payload n = some (resp, n')) : n'.Storables := by
  have hhandled := handled_of_handleBinaryRequest h
  generalize hr : (resp, n') = r at hhandled
  obtain rfl : n' = r.2 := congrArg Prod.snd hr
  cases hhandled with
  | refused => exact hn
  | put hkey hvalue => exact hn.put ⟨hkey, hvalue⟩
  | get key => exact (n.get_snd key).symm ▸ hn
  | delete key => exact hn.delete key
  | tabletStats => exact hn
  | scanRange start end_ => exact (n.scanRange_snd start end_).symm ▸ hn
  | deleteRange start end_ => exact hn.deleteRange start end_

end Any

/-! ## A storage that works -/

/-- The storage is open and its writes succeed. -/
def Works (n : DataNode) : Prop := ∃ db, n.storage = some ⟨db, []⟩

section Works

variable {n : DataNode} (h : n.Works)

include h

theorem Works.accepts (j : ℕ) : n.accepts j = true := by
  obtain ⟨db, hdb⟩ := h
  rw [DataNode.accepts, hdb]
  rfl

theorem Works.put (key value : Bytes) :
    (n.put key value).1 = [ST_OK] ∧ (n.put key value).2.Works := by
  obtain ⟨db, hdb⟩ := h
  rw [DataNode.put, hdb]
  exact ⟨rfl, _, rfl⟩

theorem Works.putAll (pairs : List (Bytes × Bytes)) : (n.putAll pairs).Works := by
  induction pairs generalizing n with
  | nil => exact h
  | cons e pairs ih => exact ih (h.put e.1 e.2).2

theorem Works.delete (key : Bytes) : (n.delete key).1 = [ST_OK] ∧ (n.delete key).2.Works := by
  obtain ⟨db, hdb⟩ := h
  rw [DataNode.delete, hdb]
  exact ⟨rfl, _, rfl⟩

theorem Works.deleteRange (start end_ : Bytes) :
    (n.deleteRange start end_).1 = [ST_OK] ∧ (n.deleteRange start end_).2.Works := by
  obtain ⟨db, hdb⟩ := h
  rw [DataNode.deleteRange, hdb]
  dsimp only
  rw [StorageEngine.deleteRange_ok rfl]
  exact ⟨rfl, _, rfl⟩

/-- A `GET` answers what is stored. -/
theorem Works.get (key : Bytes) : (n.get key).1 =
    match n.lookup key with
    | some value => ST_OK :: value
    | none => [ST_NOT_FOUND] := by
  obtain ⟨db, hdb⟩ := h
  have hlookup : n.lookup key = StorageEngine.get ⟨db, []⟩ key := by
    rw [DataNode.lookup, hdb]
    rfl
  rw [DataNode.get, hlookup, hdb]
  dsimp only
  cases StorageEngine.get ⟨db, []⟩ key <;> rfl

theorem Works.lookup_delete (key k : Bytes) :
    (n.delete key).2.lookup k = if k = key then none else n.lookup k := by
  obtain ⟨storage⟩ := n
  obtain ⟨db, rfl⟩ : ∃ db, storage = some ⟨db, []⟩ := h
  show (db.erase key).find? k = if k = key then none else db.find? k
  split_ifs with hk
  · rw [hk, SortedMap.find?_erase_self]
  · exact SortedMap.find?_erase_of_ne _ hk

/-- A range deletion leaves nothing in the range, and everything else. -/
theorem Works.lookup_deleteRange (t : Tablet) (k : Bytes) :
    (n.deleteRange t.startKey t.endKey).2.lookup k = if t.Contains k then none else n.lookup k := by
  obtain ⟨storage⟩ := n
  obtain ⟨db, rfl⟩ : ∃ db, storage = some ⟨db, []⟩ := h
  show (StorageEngine.deleteRange ⟨db, []⟩ t.startKey t.endKey).2.get k
    = if t.Contains k then none else db.find? k
  rw [StorageEngine.deleteRange_ok rfl]
  show (db.eraseAll _).find? k = _
  rw [SortedMap.find?_eraseAll]
  by_cases hk : t.Contains k
  · rw [if_pos hk]
    split_ifs with hmem
    · rfl
    · -- a stored key of the range would have been collected
      rw [Option.eq_none_iff_forall_ne_some]
      intro v hv
      exact hmem (List.mem_map.mpr ⟨(k, v), StorageEngine.mem_rangeQuery.mpr ⟨hv, hk⟩, rfl⟩)
  · rw [if_neg hk, if_neg]
    intro hmem
    obtain ⟨e, he, rfl⟩ := List.mem_map.mp hmem
    exact hk (StorageEngine.mem_rangeQuery.mp he).2

end Works

end DataNode

/-- The DataNodes work and hold storable pairs. -/
structure Sound (nodes : UInt32 → DataNode) : Prop where
  works : ∀ node, (nodes node).Works
  storables : ∀ node, (nodes node).Storables

theorem Sound.update {nodes : UInt32 → DataNode} (h : Sound nodes) (node : UInt32) {n : DataNode}
    (hn : n.Works) (hstored : n.Storables) : Sound (Function.update nodes node n) where
  works other := by
    rw [Function.update_apply]
    split_ifs
    · exact hn
    · exact h.works other
  storables other := by
    rw [Function.update_apply]
    split_ifs
    · exact hstored
    · exact h.storables other

/-! ## Requests -/

/-- A request that its DataNode answers without a change leaves all stores as they are. -/
theorem nodes_send_of_kept {s : Cluster} {q : Request} (hfit : Balancer.FitsFrame q.payload)
    (hh : ∀ n : DataNode, ∃ resp, DataNode.handleBinaryRequest q.reqId q.payload n = some (resp, n)) :
    (s.send q.node q.data).nodes = s.nodes := by
  obtain ⟨resp, hresp⟩ := hh (s.nodes q.node)
  rw [Cluster.nodes_send, Request.data, serve_request hfit hresp]
  split_ifs
  · exact Function.update_eq_self _ _
  · rfl

/-- The stores after a `PUT` was sent. -/
theorem nodes_send_put (s : Cluster) {e : Bytes × Bytes} (hfit : Balancer.FitsPut e)
    (node reqId : UInt32) :
    (s.send node (Request.data ⟨node, reqId, kvPayload OP_PUT e.1 e.2⟩)).nodes
      = if (s.connections node).sendOutcome.executed then
          Function.update s.nodes node ((s.nodes node).put e.1 e.2).2
        else s.nodes := by
  have hserve : (s.nodes node).serve (Request.data ⟨node, reqId, kvPayload OP_PUT e.1 e.2⟩)
      = (packResponse reqId ((s.nodes node).put e.1 e.2).1, ((s.nodes node).put e.1 e.2).2) :=
    serve_request (answered_put hfit node reqId).1
      (DataNode.handleBinaryRequest_put _ _ hfit.1 (by have := hfit.2; omega))
  rw [Cluster.nodes_send, hserve]

/-- The stores after a range deletion was sent. -/
theorem nodes_send_deleteRange (s : Cluster) (r : KeyRange) (node : UInt32) :
    (s.send node (Request.data ⟨node, 1, rangePayload OP_DELETE_RANGE r.start r.end_⟩)).nodes
      = if (s.connections node).sendOutcome.executed then
          Function.update s.nodes node ((s.nodes node).deleteRange r.start r.end_).2
        else s.nodes := by
  have hserve : (s.nodes node).serve
      (Request.data ⟨node, 1, rangePayload OP_DELETE_RANGE r.start r.end_⟩)
        = (packResponse 1 ((s.nodes node).deleteRange r.start r.end_).1,
            ((s.nodes node).deleteRange r.start r.end_).2) :=
    serve_request (r.fitsFrame OP_DELETE_RANGE)
      (DataNode.handleBinaryRequest_deleteRange (s.nodes node) r.start_lt r.end_lt 1)
  rw [Cluster.nodes_send, hserve]

end LeKV
