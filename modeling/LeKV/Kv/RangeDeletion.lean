import LeKV.Kv.Quiet

/-!
# What a range deletion leaves (`StorageEngine::DeleteRange`)

The keys of the range are collected and then deleted one by one, and no outcome of these deletions is
looked at: `true` comes back, `ST_OK` is answered and `SendDeleteRange` succeeds in any case.
`deletesRange_iff` says for which stores the range is empty then.
-/

namespace LeKV

open Bytes BinaryProtocol Balancer

namespace StorageEngine

variable {s : StorageEngine} {start end_ k : Bytes}

/-- `start <= k`, and `k < end` unless the end is infinity. -/
def InRange (start end_ k : Bytes) : Prop := start ≤ k ∧ (end_ = [] ∨ k < end_)

/-- What a range deletion is to do: keep what is outside, and leave nothing inside where it reports
success. -/
structure DeletesRange (s : StorageEngine) (start end_ : Bytes) : Prop where
  outside : ∀ k, ¬InRange start end_ k → (s.deleteRange start end_).2.get k = s.get k
  inside : (s.deleteRange start end_).1 = true →
    ∀ k, InRange start end_ k → (s.deleteRange start end_).2.get k = none

/-- Every key that a deletion of the range visits is a stored one inside it. -/
theorem mem_keys_rangeQuery :
    k ∈ (s.rangeQuery start end_).map Prod.fst ↔ s.get k ≠ none ∧ InRange start end_ k := by
  constructor
  · intro h
    obtain ⟨e, he, rfl⟩ := List.mem_map.mp h
    obtain ⟨hfind, hin⟩ := mem_rangeQuery.mp he
    refine ⟨?_, hin⟩
    rw [get, hfind]
    exact Option.some_ne_none _
  · rintro ⟨hstored, hin⟩
    obtain ⟨v, hv⟩ := Option.ne_none_iff_exists'.mp hstored
    exact List.mem_map.mpr ⟨(k, v), mem_rangeQuery.mpr ⟨hv, hin⟩, rfl⟩

theorem nodup_keys_rangeQuery (s : StorageEngine) (start end_ : Bytes) :
    ((s.rangeQuery start end_).map Prod.fst).Nodup :=
  (List.pairwise_map.mpr (s.rangeQuery_sorted start end_)).imp fun hlt => hlt.ne

theorem get_deleteRange_of_not_inRange (h : ¬InRange start end_ k) :
    (s.deleteRange start end_).2.get k = s.get k :=
  DataNode.get_deletes_of_notMem s fun hmem => h (mem_keys_rangeQuery.mp hmem).2

/-- Of different keys, the `j`-th is deleted exactly when the `j`-th write is accepted. -/
theorem get_deletes (s : StorageEngine) {keys : List Bytes} (hkeys : keys.Nodup) {j : ℕ}
    (hj : keys[j]? = some k) : (keys.foldl (fun s key => (s.delete key).2) s).get k
      = if s.outcomes.getD j true = true then none else s.get k := by
  induction keys generalizing s j with
  | nil => exact absurd hj (by simp)
  | cons key keys ih =>
    obtain ⟨hkey, hrest⟩ := List.nodup_cons.mp hkeys
    rw [List.foldl_cons]
    cases j with
    | zero =>
      obtain rfl : key = k := by simpa using hj
      rw [DataNode.get_deletes_of_notMem _ hkey, DataNode.get_delete]
      cases s.outcomes <;> simp
    | succ j =>
      have hmem : keys[j]? = some k := by simpa using hj
      have hne : k ≠ key := fun h => hkey (h ▸ List.mem_of_getElem? hmem)
      have houtcomes : (s.delete key).2.outcomes.getD j true = s.outcomes.getD (j + 1) true := by
        show s.outcomes.tail.getD j true = _
        cases s.outcomes <;> simp
      have hother : (s.delete key).2.get k = s.get k := by
        rw [DataNode.get_delete, if_neg fun h => hne h.1]
      rw [ih _ hrest hmem, houtcomes, hother]

/-- A range deletion does what it is for exactly when the storage accepts a write for each key of the
range. -/
theorem deletesRange_iff_accepted (s : StorageEngine) (start end_ : Bytes) :
    s.DeletesRange start end_ ↔ ∀ j < (s.rangeStats start end_).1, s.outcomes.getD j true = true := by
  have hcount : (s.rangeStats start end_).1 = ((s.rangeQuery start end_).map Prod.fst).length := rfl
  have hdeleted : ∀ j k, ((s.rangeQuery start end_).map Prod.fst)[j]? = some k →
      (s.deleteRange start end_).2.get k
        = if s.outcomes.getD j true = true then none else s.get k :=
    fun j k hj => get_deletes s (nodup_keys_rangeQuery s start end_) hj
  rw [hcount]
  constructor
  · intro h j hj
    have hget := List.getElem?_eq_getElem hj
    obtain ⟨hstored, hin⟩ := mem_keys_rangeQuery.mp (List.mem_of_getElem? hget)
    have hgone := h.inside rfl _ hin
    by_contra hrefused
    rw [hdeleted j _ hget, if_neg hrefused] at hgone
    exact hstored hgone
  · intro haccepted
    refine ⟨fun k hk => get_deleteRange_of_not_inRange hk, fun _ k hk => ?_⟩
    by_cases hmem : k ∈ (s.rangeQuery start end_).map Prod.fst
    · obtain ⟨j, hj⟩ := List.mem_iff_getElem?.mp hmem
      rw [hdeleted j k hj, if_pos (haccepted j (List.getElem?_eq_some_iff.mp hj).1)]
    · have hnone : s.get k = none := by
        by_contra hstored
        exact hmem (mem_keys_rangeQuery.mpr ⟨hstored, hk⟩)
      show (((s.rangeQuery start end_).map Prod.fst).foldl (fun s key => (s.delete key).2) s).get k = none
      rw [DataNode.get_deletes_of_notMem s hmem, hnone]

end StorageEngine

/-! ## The answer, and what the Master makes of it -/

section Answer

variable {st : StorageEngine} {start end_ : Bytes}

theorem DataNode.handle_deleteRange (st : StorageEngine) (hstart : Short start) (hend : Short end_)
    (reqId : UInt32) :
    DataNode.handleBinaryRequest reqId (rangePayload OP_DELETE_RANGE start end_) ⟨some st⟩
      = some ([ST_OK], ⟨some (st.deleteRange start end_).2⟩) :=
  DataNode.handleBinaryRequest_deleteRange _ hstart hend reqId

/-- `SendDeleteRange` to a node with storage, where nothing is lost or late. -/
theorem run_sendDeleteRange_quiet (m : Master) {s : Cluster} (hquiet : s.Quiet) {node : UInt32}
    (hconn : (s.connections node).connected = true) (hst : (s.nodes node).storage = some st)
    (hstart : Short start) (hend : Short end_) :
    ∃ s', Cluster.env.run (sendDeleteRange node start end_) (m, s) = (some true, (m, s')) ∧
      s'.nodes = Function.update s.nodes node ⟨some (st.deleteRange start end_).2⟩ := by
  let q : Request := ⟨node, 1, rangePayload OP_DELETE_RANGE start end_⟩
  let r : KeyRange := ⟨start, end_, hstart, hend⟩
  have hfit : FitsFrame q.payload := r.fitsFrame OP_DELETE_RANGE
  have hanswer : DataNode.handleBinaryRequest 1 q.payload (s.nodes node)
      = some ([ST_OK], ⟨some (st.deleteRange start end_).2⟩) := by
    have hnode : s.nodes node = ⟨some st⟩ := by rw [← hst]
    rw [hnode]
    exact DataNode.handle_deleteRange st hstart hend 1
  have hreply := hquiet.reply (q := q) hconn hfit hanswer (by norm_num) 10000
  refine ⟨s.after q 10000, ?_, ?_⟩
  · rw [run_sendDeleteRange m s node hconn, hreply]
    rfl
  · exact (hquiet.after (q := q) hconn hfit hanswer (by norm_num) 10000).2

/-- A range deletion answers `ST_OK`, and `SendDeleteRange` returns `true`, whatever the single
deletions came to. The range is empty then, and all else as before, exactly when the storage accepts a
write for each key of the range. -/
theorem deletesRange_iff (st : StorageEngine) (start end_ : Bytes) :
    (st.DeletesRange start end_ ↔
      ∀ j < (st.rangeStats start end_).1, st.outcomes.getD j true = true) ∧
    (st.deleteRange start end_).1 = true ∧
    (Short start → Short end_ →
      (∀ reqId, DataNode.handleBinaryRequest reqId (rangePayload OP_DELETE_RANGE start end_) ⟨some st⟩
        = some ([ST_OK], ⟨some (st.deleteRange start end_).2⟩)) ∧
      ∀ (m : Master) (s : Cluster) (node : UInt32), s.Quiet →
        (s.connections node).connected = true → (s.nodes node).storage = some st →
        ∃ s', Cluster.env.run (sendDeleteRange node start end_) (m, s) = (some true, (m, s')) ∧
          s'.nodes = Function.update s.nodes node ⟨some (st.deleteRange start end_).2⟩) := by
  refine ⟨st.deletesRange_iff_accepted start end_, rfl, fun hstart hend => ⟨?_, ?_⟩⟩
  · exact DataNode.handle_deleteRange st hstart hend
  · intro m s node hquiet hconn hst
    exact run_sendDeleteRange_quiet m hquiet hconn hst hstart hend

/-- One key, which is deleted, and the Master is told so. -/
theorem deletesRange_iff_oneKey :
    StorageEngine.DeletesRange ⟨SortedMap.empty.insert [0x61] [0x31], []⟩ [] [0x6D] ∧
      ∃ s', Cluster.env.run (sendDeleteRange 2 [] [0x6D]) (initialMaster, oneKey [])
          = (some true, (initialMaster, s')) ∧ (s'.nodes 2).lookup [0x61] = none := by
  obtain ⟨hiff, -, hsent⟩ :=
    deletesRange_iff ⟨SortedMap.empty.insert [0x61] [0x31], []⟩ [] [0x6D]
  have hquiet : (oneKey []).Quiet := fun _ _ => Connection.quiet_fresh
  have hnil : Short [] := Nat.two_pow_pos 16
  have hend : Short [0x6D] := Nat.one_lt_two_pow (by norm_num)
  obtain ⟨s', hrun, hnodes⟩ := (hsent hnil hend).2 initialMaster (oneKey []) 2 hquiet rfl rfl
  refine ⟨hiff.mpr fun _ _ => rfl, s', hrun, ?_⟩
  rw [hnodes]
  decide

/-- One key, whose deletion fails. -/
theorem not_deletesRange :
    ¬∀ (s : StorageEngine) (start end_ : Bytes), s.DeletesRange start end_ := by
  intro h
  have hgone := (h ⟨SortedMap.empty.insert [0x61] [0x31], [false]⟩ [] []).inside rfl [0x61]
    ⟨by decide, .inl rfl⟩
  exact absurd hgone (by decide)

end Answer

end LeKV
