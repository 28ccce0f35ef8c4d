import LeKV.Kv.Counts

/-!
# Range requests, from one end to the other

The Master encodes the boundaries of a tablet with lengths of two bytes. Every boundary of a reachable
table fits (`Reachable.short`): the initial ones do, and a split takes its boundary from a reply that
has two bytes for its length. So a DataNode decodes the range it was sent, and the Master reads the
statistics of that range (`tabletStats_endToEnd`).
-/

namespace LeKV

open Bytes BinaryProtocol Balancer

/-! ## Boundaries -/

/-- No change of the table makes a boundary too long for its length field. -/
theorem Boundaries.change {connected : UInt32 → Prop} {m m' : Master}
    (h : Boundaries Short m.tablets) (hchange : TableChange connected m m') :
    Boundaries Short m'.tablets := by
  cases hchange with
  | keep htablets _ _ => exact h.of_assignment_eq htablets
  | split keyCount hidx hpoint => exact short_splitAt keyCount hidx hpoint h
  | move hidx _ _ htablets _ _ => exact htablets ▸ short_moveTo hidx h

theorem short_buildInitialTablets {peers : List PeerInfo} {tablets : List Tablet}
    (hinit : buildInitialTablets peers = some tablets) : Boundaries Short tablets := by
  have hnil : Short [] := Nat.two_pow_pos 16
  have hm : Short [0x6D] := Nat.one_lt_two_pow (by norm_num)
  unfold buildInitialTablets at hinit
  rcases hdn : dataNodes peers with _ | ⟨a, _ | ⟨b, l⟩⟩
  · rw [hdn] at hinit
    obtain rfl := Option.some.inj hinit
    exact fun t ht => absurd ht List.not_mem_nil
  · rw [hdn] at hinit
    exact absurd hinit (by simp)
  · rw [hdn] at hinit
    obtain rfl := Option.some.inj hinit
    intro t ht
    rcases List.mem_cons.mp ht with rfl | ht
    · exact ⟨hnil, hm⟩
    · obtain rfl := List.mem_singleton.mp ht
      exact ⟨hm, hnil⟩

/-- Every boundary of a reachable table fits its length field. -/
theorem Reachable.short {peers : List PeerInfo} {m : Master} (h : Reachable peers m) :
    Boundaries Short m.tablets := by
  induction h with
  | init hnodes hinit => exact short_buildInitialTablets hinit
  | load h hsave ih =>
    rw [Balancer.loadTablets, FileContent.parse, dump_eq_some hsave]
    exact ih
  | @act m h σ E hE s a ih => exact ih.change (after_change E m s a)

/-! ## Requests that are answered -/

namespace Environment

variable {σ : Type}

/-- The request is sent, and what `RecvFrame` then cuts off is the answer of the DataNode `n` to it,
as far as its length field goes. -/
structure Answers (E : Environment σ) (s : σ) (q : Request) (timeoutMs : ℤ) (n : DataNode) :
    Prop where
  connected : E.isConnected q.node s = true
  sent : (E.send q.node q.data s).1 = true
  received : (E.recvFrame q.node timeoutMs (E.send q.node q.data s).2).1
    = some ((n.serve q.data).1.take (frameLength (n.serve q.data).1))

end Environment

/-- The median of a range of keys that fit their length field fits its own. -/
theorem DataNode.length_medianIn {n : DataNode} (hkeys : ∀ k, n.lookup k ≠ none → Short k)
    (t : Tablet) : Short (n.medianIn t) := by
  rw [DataNode.medianIn, List.getD_eq_getElem?_getD]
  rcases hmed : (n.keysIn t)[(n.keysIn t).length / 2]? with _ | key
  · exact Nat.two_pow_pos 16
  · exact hkeys key (DataNode.mem_keysIn.mp (List.mem_of_getElem? hmed)).1

/-- The answer of a DataNode to a statistics query, decoded. -/
theorem decodeReply_stats {n : DataNode} {t : Tablet} (hbounded : t.Bounded)
    (hkeys : ∀ k, n.lookup k ≠ none → Short k) :
    let reply := (n.serve (encodeCustomRequest 1
      (rangePayload OP_TABLET_STATS t.startKey t.endKey))).1
    ∃ valLen, decodeReply (some (reply.take (frameLength reply)))
      = some (ST_OK :: (be 4 valLen ++ (be 4 (n.keysIn t).length ++
          (be 2 (n.medianIn t).length ++ n.medianIn t)))) := by
  intro reply
  have hmedian := DataNode.length_medianIn hkeys t
  generalize hvalue : be 4 (n.keysIn t).length ++ (be 2 (n.medianIn t).length ++ n.medianIn t) = value
  have hanswer : DataNode.handleBinaryRequest 1
      (rangePayload OP_TABLET_STATS t.startKey t.endKey) n = some (ST_OK :: value, n) := by
    rw [DataNode.handleBinaryRequest_tabletStats n hbounded.1 hbounded.2, DataNode.tabletStats,
      n.dataNodeGetTabletStats_eq t, ← hvalue]
  have hserve : reply = packResponse 1 (ST_OK :: value) :=
    congrArg Prod.fst (serve_request ((t.range hbounded).fitsFrame OP_TABLET_STATS) hanswer)
  have hlen : 15 + value.length < 2 ^ 32 := by
    rw [← hvalue, List.length_append, List.length_append, length_be, length_be]
    unfold Short at hmedian
    omega
  have hdecode := decodeReply_whole 1 ST_OK hlen
  obtain ⟨-, hwhole⟩ := packResponse_whole 1 ST_OK hlen
  refine ⟨value.length, ?_⟩
  rw [hserve, hwhole, List.take_length]
  exact hdecode

/-- `QueryTabletStats` on the answer of a DataNode returns the number of keys and the median. -/
theorem run_queryTabletStats_answered {σ : Type} {E : Environment σ} {s : σ} {t : Tablet}
    {node : UInt32} {n : DataNode} (m : Master) (hbounded : t.Bounded)
    (hkeys : ∀ k, n.lookup k ≠ none → Short k)
    (h : E.Answers s ⟨node, 1, rangePayload OP_TABLET_STATS t.startKey t.endKey⟩ 3000 n) :
    ∃ s', E.run (queryTabletStats node t.startKey t.endKey) (m, s)
      = (some (some (n.reported t)), (m, s')) := by
  obtain ⟨hconnected, hsent, hreceived⟩ := h
  obtain ⟨valLen, hdecode⟩ := decodeReply_stats hbounded hkeys
  have hparse := parseStats_response (n.keysIn t).length (DataNode.length_medianIn hkeys t) valLen
  dsimp only [Request.data] at hconnected hsent hreceived
  unfold queryTabletStats
  rw [Environment.run_isConnected, hconnected, if_neg (not_not.mpr rfl),
    Environment.run_bind_some (Environment.run_call hsent 3000), hreceived, hdecode]
  dsimp only
  rw [hparse]
  exact ⟨_, rfl⟩

/-! ## The three range requests -/

/-- In every reachable table the boundaries fit their length fields. So a DataNode with fewer than
`2 ^ 32` keys, all of which fit theirs, answers a statistics query with the number of keys in the
range and the one in the middle of them, the Master reads just these, and the range of a scan or a
deletion is the one it was sent. -/
theorem rangeRequests_endToEnd {peers : List PeerInfo} {m : Master} (h : Reachable peers m)
    {t : Tablet} (ht : t ∈ m.tablets) :
    (t.startKey.length ≤ 65535 ∧ t.endKey.length ≤ 65535) ∧
      (∀ n : DataNode, (∀ k, n.lookup k ≠ none → k.length ≤ 65535) → n.keys.length < 2 ^ 32 →
        ∀ (σ : Type) (E : Environment σ) (s : σ),
        E.Answers s ⟨t.nodeId, 1, rangePayload OP_TABLET_STATS t.startKey t.endKey⟩ 3000 n →
        ∃ (keys : List Bytes) (keyCount : UInt64) (s' : σ), keys.Pairwise (· < ·) ∧
          (∀ k, k ∈ keys ↔ n.lookup k ≠ none ∧ t.startKey ≤ k ∧ (t.endKey = [] ∨ k < t.endKey)) ∧
          keyCount.toNat = keys.length ∧
          E.run (queryTabletStats t.nodeId t.startKey t.endKey) (m, s)
            = (some (some (keyCount, keys.getD (keys.length / 2) [])), (m, s'))) ∧
      ∀ n : DataNode,
        n.serve (encodeCustomRequest 1 (rangePayload OP_SCAN_RANGE t.startKey t.endKey))
            = (packResponse 1 (n.scanRange t.startKey t.endKey).1,
                (n.scanRange t.startKey t.endKey).2) ∧
          n.serve (encodeCustomRequest 1 (rangePayload OP_DELETE_RANGE t.startKey t.endKey))
            = (packResponse 1 (n.deleteRange t.startKey t.endKey).1,
                (n.deleteRange t.startKey t.endKey).2) := by
  have hbounded : t.Bounded := h.short t ht
  refine ⟨⟨Nat.le_of_lt_succ hbounded.1, Nat.le_of_lt_succ hbounded.2⟩, ?_, fun n => ⟨?_, ?_⟩⟩
  · intro n hkeys hcount σ E s hanswers
    have hlen : (n.keysIn t).length ≤ n.keys.length := List.length_filter_le _ _
    obtain ⟨s', hrun⟩ := run_queryTabletStats_answered m hbounded
      (fun k hk => Nat.lt_succ_of_le (hkeys k hk)) hanswers
    rw [DataNode.reported_eq (hlen.trans_lt hcount)] at hrun
    have hnat : (UInt64.ofNat (n.keysIn t).length).toNat = (n.keysIn t).length := by
      rw [UInt64.toNat_ofNat']
      exact Nat.mod_eq_of_lt (by omega)
    exact ⟨n.keysIn t, _, s', n.keysIn_sorted t, fun k => DataNode.mem_keysIn, hnat, hrun⟩
  · exact serve_request ((t.range hbounded).fitsFrame OP_SCAN_RANGE)
      (DataNode.handleBinaryRequest_scanRange n hbounded.1 hbounded.2 1)
  · exact serve_request ((t.range hbounded).fitsFrame OP_DELETE_RANGE)
      (DataNode.handleBinaryRequest_deleteRange n hbounded.1 hbounded.2 1)

/-- An environment of DataNodes `n` that answers every request. Its state is the last request. -/
def answering (n : DataNode) : Environment Bytes where
  isConnected _ _ := true
  send _ data _ := (true, data)
  recvFrame _ _ data := (some ((n.serve data).1.take (frameLength (n.serve data).1)), data)
  openTmp s := (true, s)
  writeTmp _ s := s
  renameTmp s := (true, s)
  now s := (0, s)

theorem answers_answering (n : DataNode) (s : Bytes) (q : Request) (timeoutMs : ℤ) :
    (answering n).Answers s q timeoutMs n := ⟨rfl, rfl, rfl⟩

/-- The keys `a`, `b` and `z`. -/
def threeKeys : DataNode :=
  ⟨some ⟨((SortedMap.empty.insert [0x61] [1]).insert [0x62] [2]).insert [0x7A] [3], []⟩⟩

theorem keys_threeKeys : threeKeys.keys = [[0x61], [0x62], [0x7A]] := by decide +kernel

/-- The first tablet of the initial table, on a node with the keys `a`, `b` and `z`. -/
theorem rangeRequests_endToEnd_threeKeys :
    ∃ (keys : List Bytes) (keyCount : UInt64) (s' : Bytes), keys.Pairwise (· < ·) ∧
      (∀ k, k ∈ keys ↔ threeKeys.lookup k ≠ none ∧ [] ≤ k ∧ (([0x6D] : Bytes) = [] ∨ k < [0x6D])) ∧
      keyCount.toNat = keys.length ∧
      (answering threeKeys).run (queryTabletStats 2 [] [0x6D]) (initialMaster, [])
        = (some (some (keyCount, keys.getD (keys.length / 2) [])), (initialMaster, s')) := by
  have hinit : Reachable twoNodes initialMaster := .init (by decide) (by decide)
  have hkeys : ∀ k, threeKeys.lookup k ≠ none → k.length ≤ 65535 := by
    intro k hk
    have hmem := DataNode.mem_keys.mpr hk
    rw [keys_threeKeys] at hmem
    simp only [List.mem_cons, List.not_mem_nil, or_false] at hmem
    obtain rfl | rfl | rfl := hmem <;> norm_num
  exact (rangeRequests_endToEnd hinit List.mem_cons_self).2.1 threeKeys hkeys
    (by rw [keys_threeKeys]; norm_num) Bytes (answering threeKeys) [] (answers_answering _ _ _ _)

end LeKV
