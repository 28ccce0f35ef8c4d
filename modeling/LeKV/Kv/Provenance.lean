import LeKV.Kv.DeletedKeys

/-!
# Where values come from

A reply is paired with a request by its place in the stream only, so after a lost or late reply a
call reads the answer to an earlier request: statistics where it asked for a scan, a scan where it
asked for statistics. Whatever is misread in this way, nothing is made up. `Traced` is the invariant:
the stores hold traced pairs only, and so do the replies under way, whichever call reads them
(`Vouched`).
-/

namespace LeKV

open Bytes BinaryProtocol DataNode Balancer

variable {P : Bytes → Bytes → Prop}

/-! ## What a reply can be taken for -/

/-- Read as the reply to a scan the payload gives pairs of `P`, and read as statistics a key of `P`
or none. -/
structure Vouched (P : Bytes → Bytes → Prop) (resp : Bytes) : Prop where
  pairs : ∀ count, scanCount resp = some count → ∀ e ∈ pairsFrom resp count 9, P e.1 e.2
  median : ∀ count key, parseStats resp = some (count, key) → key = [] ∨ ∃ value, P key value

/-- A whole frame with a payload that is vouched for. -/
structure VouchedFrame (P : Bytes → Bytes → Prop) (f : Bytes) : Prop where
  isFrame : IsFrame f
  payload : ∀ resp, decodeReply (some f) = some resp → Vouched P resp

/-- Bytes that consist of such frames. -/
def VouchedStream (P : Bytes → Bytes → Prop) (bytes : Bytes) : Prop :=
  ∃ frames : List Bytes, bytes = frames.flatten ∧ ∀ f ∈ frames, VouchedFrame P f

theorem Vouched.mono {Q : Bytes → Bytes → Prop} (hPQ : ∀ k v, P k v → Q k v) {resp : Bytes}
    (h : Vouched P resp) : Vouched Q resp where
  pairs count hcount e he := hPQ _ _ (h.pairs count hcount e he)
  median count key hkey := (h.median count key hkey).imp_right fun ⟨v, hv⟩ => ⟨v, hPQ _ _ hv⟩

theorem VouchedStream.mono {Q : Bytes → Bytes → Prop} (hPQ : ∀ k v, P k v → Q k v) {bytes : Bytes}
    (h : VouchedStream P bytes) : VouchedStream Q bytes := by
  obtain ⟨frames, rfl, hframes⟩ := h
  exact ⟨frames, rfl, fun f hf => ⟨(hframes f hf).isFrame,
    fun resp hresp => ((hframes f hf).payload resp hresp).mono hPQ⟩⟩

theorem VouchedStream.nil : VouchedStream P [] := ⟨[], rfl, fun _ hf => absurd hf List.not_mem_nil⟩

/-- A reply goes to the end of the stream. -/
theorem VouchedStream.append {bytes f : Bytes} (h : VouchedStream P bytes) (hf : VouchedFrame P f) :
    VouchedStream P (bytes ++ f) := by
  obtain ⟨frames, rfl, hframes⟩ := h
  refine ⟨frames ++ [f], by simp, fun g hg => ?_⟩
  rcases List.mem_append.mp hg with hg | hg
  · exact hframes g hg
  · rw [List.mem_singleton.mp hg]
    exact hf

/-- What `RecvFrame` cuts off the front is one of the frames. -/
theorem VouchedStream.front {bytes : Bytes} (h : VouchedStream P bytes)
    (hten : 10 ≤ frameLength bytes) :
    VouchedFrame P (bytes.take (frameLength bytes)) ∧
      VouchedStream P (bytes.drop (frameLength bytes)) := by
  obtain ⟨frames, rfl, hframes⟩ := h
  rcases frames with _ | ⟨f, frames⟩
  · exact absurd hten (by simp [frameLength, readBE])
  have hf := hframes f List.mem_cons_self
  have hlen : frameLength (f :: frames).flatten = f.length := by
    have hten := hf.isFrame.ten_le
    rw [List.flatten_cons, frameLength_append _ (by omega), hf.isFrame.length_eq]
  rw [hlen, List.flatten_cons, List.take_left, List.drop_left]
  exact ⟨hf, frames, rfl, fun g hg => hframes g (List.mem_cons_of_mem _ hg)⟩

/-! ## The replies of a DataNode -/

/-- A count of pairs stands behind the status and the length. -/
theorem length_of_scanCount {resp : Bytes} {count : ℕ} (h : scanCount resp = some count) :
    9 ≤ resp.length := by
  unfold scanCount at h
  simp only [Option.bind_eq_bind] at h
  by_cases hstatus : resp.head? ≠ some ST_OK
  · rw [if_pos hstatus] at h
    exact absurd h (by simp)
  rw [if_neg hstatus] at h
  by_cases hshort : resp.length < 5
  · rw [if_pos hshort] at h
    exact absurd h (by simp)
  rw [if_neg hshort] at h
  obtain ⟨valLen, -, h⟩ := Option.bind_eq_some_iff.mp h
  by_cases hlong : resp.length < (5 + valLen) % 2 ^ 32
  · rw [if_pos hlong] at h
    exact absurd h (by simp)
  rw [if_neg hlong] at h
  by_contra hlt
  rw [numAt_eq_none.mpr (by omega)] at h
  exact absurd h (by simp)

/-- The median is the key behind a two-byte length at offset 9. -/
theorem median_of_parseStats {resp key : Bytes} {count : UInt64}
    (h : parseStats resp = some (count, key)) :
    11 ≤ resp.length ∧ ∃ len, numAt resp 9 2 = some len ∧ bytesAt resp 11 len = some key := by
  unfold parseStats at h
  simp only [Option.bind_eq_bind] at h
  by_cases hshort : resp.length < 11
  · rw [if_pos hshort] at h
    exact absurd h (by simp)
  rw [if_neg hshort] at h
  by_cases hstatus : resp.head? ≠ some ST_OK
  · rw [if_pos hstatus] at h
    exact absurd h (by simp)
  rw [if_neg hstatus] at h
  obtain ⟨keyCount, -, h⟩ := Option.bind_eq_some_iff.mp h
  obtain ⟨len, hlen, h⟩ := Option.bind_eq_some_iff.mp h
  by_cases hlong : resp.length < 11 + len
  · rw [if_pos hlong] at h
    exact absurd h (by simp)
  rw [if_neg hlong] at h
  obtain ⟨median, hmedian, h⟩ := Option.bind_eq_some_iff.mp h
  obtain ⟨-, rfl⟩ := Prod.mk.inj (Option.some.inj h)
  exact ⟨Nat.le_of_not_lt hshort, len, hlen, hmedian⟩

/-- Where a scan reply has its first key, statistics have the median. -/
theorem key_of_pairAt {resp : Bytes} {e : Bytes × Bytes} {pos len : ℕ} {key : Bytes}
    (h : pairAt resp 9 = some (e, pos)) (hlen : numAt resp 9 2 = some len)
    (hkey : bytesAt resp 11 len = some key) : key = e.1 := by
  unfold pairAt at h
  simp only [Option.bind_eq_bind, hlen, Option.bind_some, hkey] at h
  obtain ⟨vlen, -, h⟩ := Option.bind_eq_some_iff.mp h
  obtain ⟨value, -, h⟩ := Option.bind_eq_some_iff.mp h
  obtain ⟨rfl, -⟩ := Prod.mk.inj (Option.some.inj h)
  rfl

/-- A response whose value fits the frame is vouched for with its payload. -/
theorem vouchedFrame_packResponse (reqId : UInt32) {status : UInt8} {value : Bytes}
    (hfits : 15 + value.length < 2 ^ 32) (h : Vouched P (status :: (be 4 value.length ++ value))) :
    VouchedFrame P (packResponse reqId (status :: value)) := by
  obtain ⟨hlen, hframe⟩ := packResponse_whole reqId status hfits
  refine ⟨⟨hframe, by omega⟩, fun resp hresp => ?_⟩
  rw [decodeReply_whole reqId status hfits] at hresp
  rwa [← Option.some.inj hresp]

/-- A status says nothing. -/
theorem vouchedFrame_status (reqId : UInt32) (status : UInt8) :
    VouchedFrame P (packResponse reqId [status]) := by
  refine vouchedFrame_packResponse reqId (by simp) ⟨fun count hcount => ?_, fun count key hkey => ?_⟩
  · exact absurd (length_of_scanCount hcount) (by simp)
  · exact absurd (median_of_parseStats hkey).1 (by simp)

/-- Statistics name a key of the store. Read as a scan they give no pair: nothing follows the key. -/
theorem vouchedFrame_stats (reqId : UInt32) {count : ℕ} {median : Bytes}
    (hshort : median.length < 2 ^ 16) (hmedian : median = [] ∨ ∃ value, P median value) :
    VouchedFrame P (packResponse reqId (ST_OK :: (be 4 count ++ (be 2 median.length ++ median)))) := by
  have hlen : (be 4 count ++ (be 2 median.length ++ median)).length = 6 + median.length := by
    simp only [List.length_append, length_be]
    omega
  refine vouchedFrame_packResponse reqId (by omega) ?_
  rw [hlen]
  have hfield : numAt (ST_OK :: (be 4 (6 + median.length) ++ (be 4 count ++
      (be 2 median.length ++ median)))) 9 2 = some median.length := by
    have h := num16At_append (ST_OK :: (be 4 (6 + median.length) ++ be 4 count)) median
      median.length (rfl : 9 = _)
    rwa [List.cons_append, List.append_assoc, Nat.mod_eq_of_lt hshort] at h
  have hkey : bytesAt (ST_OK :: (be 4 (6 + median.length) ++ (be 4 count ++
      (be 2 median.length ++ median)))) 11 median.length = some median := by
    have h := bytesAt_append (ST_OK :: (be 4 (6 + median.length) ++ (be 4 count ++
      be 2 median.length))) median [] (rfl : 11 = _) rfl
    simpa only [List.cons_append, List.append_assoc, List.append_nil] using h
  have hend : (ST_OK :: (be 4 (6 + median.length) ++ (be 4 count ++
      (be 2 median.length ++ median)))).length = 11 + median.length := by
    simp only [List.length_cons, List.length_append, length_be]
    omega
  refine ⟨fun rounds _ e he => ?_, fun c key h => ?_⟩
  · have hnone : pairAt (ST_OK :: (be 4 (6 + median.length) ++ (be 4 count ++
        (be 2 median.length ++ median)))) 9 = none := by
      unfold pairAt
      simp only [Option.bind_eq_bind, hfield, Option.bind_some, hkey,
        numAt_eq_none.mpr (by omega : (ST_OK :: (be 4 (6 + median.length) ++ (be 4 count ++
          (be 2 median.length ++ median)))).length < 9 + 2 + median.length + 4), Option.bind_none]
    cases rounds with
    | zero => exact absurd he List.not_mem_nil
    | succ rounds =>
      rw [pairsFrom, hnone] at he
      exact absurd he List.not_mem_nil
  · obtain ⟨-, len, hlen', hkey'⟩ := median_of_parseStats h
    obtain rfl := Option.some.inj (hfield.symm.trans hlen')
    obtain rfl := Option.some.inj (hkey.symm.trans hkey')
    exact hmedian

/-- A scan reply gives pairs of the store. Read as statistics it gives the first of their keys. -/
theorem vouchedFrame_scan (reqId : UInt32) {pairs : List (Bytes × Bytes)}
    (hfits : 15 + (scanBody pairs).length < 2 ^ 32) (hpairs : ∀ e ∈ pairs, Storable e)
    (hP : ∀ e ∈ pairs, P e.1 e.2) :
    VouchedFrame P (packResponse reqId (ST_OK :: scanBody pairs)) := by
  refine vouchedFrame_packResponse reqId hfits ?_
  obtain ⟨hread, hannounced⟩ := scanReadable_of_fits hfits
  have hroom : bodyRoom pairs = (scanBody pairs).length := Nat.mod_eq_of_lt (by omega)
  have hpayload : ST_OK :: (be 4 (scanBody pairs).length ++ scanBody pairs) = scanPayload pairs := by
    rw [scanPayload, hroom, List.take_length]
  rw [hpayload]
  refine ⟨fun count hcount e he => ?_, fun c key h => ?_⟩
  · rw [scanCount_scanPayload hread.fits, if_pos hread.four_le] at hcount
    obtain rfl := Option.some.inj hcount
    exact hP e (mem_of_mem_pairsFrom hpairs he)
  · obtain ⟨hlen, len, hfield, hkey⟩ := median_of_parseStats h
    rcases pairs with _ | ⟨e, pairs⟩
    · rw [length_scanPayload, hroom, length_scanBody] at hlen
      exact absurd hlen (by simp [pairBytes])
    · have hat : pairAt (scanPayload (e :: pairs)) 9
          = some (e, 9 + (encodePair e).length) := by
        have hpair := pairAt_encodePair (scanFront (e :: pairs)) (pairBytes pairs)
          (hpairs e List.mem_cons_self)
        rw [length_scanFront, ← pairBytes_cons] at hpair
        rw [scanPayload_eq_take, List.take_of_length_le]
        · exact hpair
        · rw [List.length_append, length_scanFront, hroom, length_scanBody]
          omega
      rw [key_of_pairAt hat hfield hkey]
      exact .inr ⟨e.2, hP e List.mem_cons_self⟩

/-! ## The cluster -/

/-- Stores and connections hold pairs of `P` only, whichever call reads the replies under way. -/
structure Traced (P : Bytes → Bytes → Prop) (nodes : UInt32 → DataNode)
    (connections : UInt32 → Connection) : Prop where
  stored : ∀ node k v, (nodes node).lookup k = some v → P k v
  storables : ∀ node, (nodes node).Storables
  replies : ∀ node, VouchedStream P (connections node).pending

theorem Traced.mono {Q : Bytes → Bytes → Prop} (hPQ : ∀ k v, P k v → Q k v)
    {nodes : UInt32 → DataNode} {connections : UInt32 → Connection} (h : Traced P nodes connections) :
    Traced Q nodes connections where
  stored node k v hk := hPQ k v (h.stored node k v hk)
  storables := h.storables
  replies node := (h.replies node).mono hPQ

section Cluster

variable {s : Cluster}

/-- A request is sent whose reply is vouched for and which leaves pairs of `P` behind. -/
theorem Traced.send (h : Traced P s.nodes s.connections) {q : Request} {resp : Bytes} {n' : DataNode}
    (hfit : FitsFrame q.payload)
    (hh : DataNode.handleBinaryRequest q.reqId q.payload (s.nodes q.node) = some (resp, n'))
    (hstored : ∀ k v, n'.lookup k = some v → P k v) (hstorables : n'.Storables)
    (hreply : VouchedFrame P (packResponse q.reqId resp)) :
    Traced P (s.send q.node q.data).nodes (s.send q.node q.data).connections := by
  unfold Cluster.send
  dsimp only
  rw [Request.data, serve_request hfit hh]
  split_ifs with hexecuted
  · refine ⟨fun node k v => ?_, fun node => ?_, fun node => ?_⟩
    · by_cases hnode : node = q.node
      · subst hnode
        rw [Cluster.nodes_setNode_self]
        exact hstored k v
      · rw [Cluster.nodes_setNode_of_ne _ _ _ hnode]
        exact h.stored node k v
    · by_cases hnode : node = q.node
      · subst hnode
        rw [Cluster.nodes_setNode_self]
        exact hstorables
      · rw [Cluster.nodes_setNode_of_ne _ _ _ hnode]
        exact h.storables node
    · by_cases hnode : node = q.node
      · subst hnode
        rw [Cluster.connections_setNode_self, Connection.pending_answer, Connection.pending_send]
        exact (h.replies q.node).append hreply
      · rw [Cluster.connections_setNode_of_ne _ _ _ hnode]
        exact h.replies node
  · refine ⟨h.stored, h.storables, fun node => ?_⟩
    show VouchedStream P (Function.update s.connections q.node _ node).pending
    by_cases hnode : node = q.node
    · subst hnode
      rw [Function.update_self, Connection.pending_send]
      exact h.replies q.node
    · rw [Function.update_of_ne hnode]
      exact h.replies node

/-- `RecvFrame` takes one of the replies, or leaves them all. -/
theorem VouchedStream.recvFrame {c : Connection} (h : VouchedStream P c.pending) (timeoutMs : ℤ) :
    VouchedStream P (c.recvFrame timeoutMs).2.pending ∧
      ∀ f, (c.recvFrame timeoutMs).1 = some f → VouchedFrame P f := by
  by_cases hready : c.Ready
  · obtain ⟨hframe, hpending⟩ := @Connection.recvFrame_of_ready _ timeoutMs hready
    obtain ⟨hfront, hrest⟩ := h.front hready.1
    rw [hframe, hpending]
    refine ⟨hrest, fun f hf => ?_⟩
    rwa [← Option.some.inj hf]
  · obtain ⟨hframe, hpending⟩ := @Connection.recvFrame_of_not_ready _ timeoutMs hready
    rw [hframe, hpending]
    exact ⟨h, fun f hf => absurd hf (by simp)⟩

theorem Traced.recvFrame (h : Traced P s.nodes s.connections) (node : UInt32) (timeoutMs : ℤ) :
    Traced P (s.recvFrame node timeoutMs).nodes (s.recvFrame node timeoutMs).connections := by
  refine ⟨h.stored, h.storables, fun other => ?_⟩
  show VouchedStream P (Function.update s.connections node _ other).pending
  by_cases hnode : other = node
  · subst hnode
    rw [Function.update_self]
    exact ((h.replies other).recvFrame timeoutMs).1
  · rw [Function.update_of_ne hnode]
    exact h.replies other

/-- A request and the wait for its reply. -/
theorem Traced.after {q : Request} (timeoutMs : ℤ)
    (h : Traced P (s.send q.node q.data).nodes (s.send q.node q.data).connections) :
    Traced P (s.after q timeoutMs).nodes (s.after q timeoutMs).connections := by
  unfold Cluster.after
  split_ifs
  · exact h.recvFrame q.node timeoutMs
  · exact h

theorem fitsFrame_of_decodeReply {f resp : Bytes} (hf : IsFrame f)
    (h : decodeReply (some f) = some resp) : FitsFrame resp := by
  unfold decodeReply at h
  dsimp only at h
  rcases hdec : tryDecode f with _ | ⟨c⟩ | ⟨c, reqId, payload⟩
  · rw [hdec] at h
    exact absurd h (by simp)
  · rw [hdec] at h
    exact absurd h (by simp)
  · rw [hdec] at h
    have hlen := hf.length_payload hdec
    have hlt := hf.length_eq ▸ frameLength_lt f
    rw [← Option.some.inj h]
    unfold FitsFrame
    omega

/-- What a call decodes is vouched for, whatever request it answers. -/
theorem Traced.reply {q : Request} {timeoutMs : ℤ} {resp : Bytes}
    (h : Traced P (s.send q.node q.data).nodes (s.send q.node q.data).connections)
    (hreply : s.reply q timeoutMs = some resp) : Vouched P resp ∧ FitsFrame resp := by
  unfold Cluster.reply Cluster.received at hreply
  split_ifs at hreply with hok
  · rcases hframe : ((s.send q.node q.data).connections q.node |>.recvFrame timeoutMs).1 with _ | f
    · rw [hframe] at hreply
      exact absurd hreply (by simp [decodeReply])
    · rw [hframe] at hreply
      have hf := ((h.replies q.node).recvFrame timeoutMs).2 f hframe
      exact ⟨hf.payload resp hreply, fitsFrame_of_decodeReply hf.isFrame hreply⟩
  · exact absurd hreply (by simp [decodeReply])

/-! ## The Master's requests -/

/-- A statistics request names no new key. -/
theorem Traced.sendStats (h : Traced P s.nodes s.connections) (node : UInt32) (r : KeyRange) :
    let q : Request := ⟨node, 1, rangePayload OP_TABLET_STATS r.start r.end_⟩
    Traced P (s.send q.node q.data).nodes (s.send q.node q.data).connections := by
  intro q
  have hstats : (s.nodes node).tabletStats r.start r.end_
      = (((s.nodes node).tabletStats r.start r.end_).1, s.nodes node) := rfl
  refine h.send (r.fitsFrame _) ((DataNode.handleBinaryRequest_tabletStats _ r.start_lt r.end_lt 1).trans
    (congrArg some hstats)) (h.stored node) (h.storables node) ?_
  unfold tabletStats dataNodeGetTabletStats
  rcases hst : (s.nodes node).storage with _ | st
  · exact vouchedFrame_stats 1 (by simp) (.inl rfl)
  · -- the median is the key in the middle, or empty
    generalize hkeys : (st.rangeQuery r.start r.end_).map Prod.fst = keys
    have hmem : keys.getD (keys.length / 2) [] = [] ∨
        ∃ v, (keys.getD (keys.length / 2) [], v) ∈ st.rangeQuery r.start r.end_ := by
      rcases hat : keys[keys.length / 2]? with _ | key
      · exact .inl (by rw [List.getD_eq_getElem?_getD, hat, Option.getD_none])
      · obtain ⟨e, he, rfl⟩ := List.mem_map.mp (hkeys ▸ List.mem_of_getElem? hat)
        exact .inr ⟨e.2, by rwa [List.getD_eq_getElem?_getD, hat, Option.getD_some]⟩
    have hrange : st.rangeStats r.start r.end_ = (keys.length, keys.getD (keys.length / 2) []) := by
      rw [StorageEngine.rangeStats, hkeys]
    dsimp only
    rw [hrange]
    rcases hmem with hnil | ⟨v, hv⟩
    · refine vouchedFrame_stats 1 ?_ (.inl hnil)
      rw [hnil]
      norm_num
    · have hlookup : (s.nodes node).lookup (keys.getD (keys.length / 2) []) = some v := by
        rw [DataNode.lookup, hst]
        exact (StorageEngine.mem_rangeQuery.mp hv).1
      exact vouchedFrame_stats 1 (storable_of_mem_rangeQuery (h.storables node) hst _ hv).1
        (.inr ⟨v, h.stored node _ v hlookup⟩)

/-- A deletion leaves fewer pairs. -/
theorem Traced.sendDeleteRange (h : Traced P s.nodes s.connections) (node : UInt32) (r : KeyRange) :
    let q : Request := ⟨node, 1, rangePayload OP_DELETE_RANGE r.start r.end_⟩
    Traced P (s.send q.node q.data).nodes (s.send q.node q.data).connections := by
  intro q
  have hhandle : DataNode.handleBinaryRequest 1 q.payload (s.nodes node)
      = some (((s.nodes node).deleteRange r.start r.end_).1,
          ((s.nodes node).deleteRange r.start r.end_).2) :=
    DataNode.handleBinaryRequest_deleteRange _ r.start_lt r.end_lt 1
  refine h.send (r.fitsFrame _) hhandle (fun k v hk => h.stored node k v (lookup_of_deleteRange hk))
    ((h.storables node).deleteRange r.start r.end_) ?_
  unfold DataNode.deleteRange
  split <;> exact vouchedFrame_status 1 _

/-- A `PUT` of a pair of `P`. -/
theorem Traced.sendPut (h : Traced P s.nodes s.connections) (node reqId : UInt32) {e : Bytes × Bytes}
    (hfit : FitsPut e) (he : P e.1 e.2) :
    let q : Request := ⟨node, reqId, kvPayload OP_PUT e.1 e.2⟩
    Traced P (s.send q.node q.data).nodes (s.send q.node q.data).connections := by
  intro q
  have hlen : FitsFrame q.payload := by
    show 10 + (kvPayload OP_PUT e.1 e.2).length < 2 ^ 32
    rw [length_kvPayload]
    have hsum := hfit.2
    omega
  have hvalue : e.2.length < 2 ^ 32 := by
    have hsum := hfit.2
    omega
  have hhandle : DataNode.handleBinaryRequest reqId q.payload (s.nodes node)
      = some (((s.nodes node).put e.1 e.2).1, ((s.nodes node).put e.1 e.2).2) :=
    DataNode.handleBinaryRequest_put _ reqId hfit.1 (by have hsum := hfit.2; omega)
  refine h.send hlen hhandle (fun k v hk => ?_) ((h.storables node).put ⟨hfit.1, hvalue⟩) ?_
  · rw [DataNode.lookup_put] at hk
    split_ifs at hk with hkey
    · rw [hkey.1, ← Option.some.inj hk]
      exact he
    · exact h.stored node k v hk
  · unfold DataNode.put
    split <;> exact vouchedFrame_status reqId _

/-- A scan whose pairs fit a frame. -/
theorem Traced.sendScan (h : Traced P s.nodes s.connections) (node : UInt32) (r : KeyRange)
    (hfits : ∀ st, (s.nodes node).storage = some st →
      15 + (scanBody (st.rangeQuery r.start r.end_)).length < 2 ^ 32) :
    let q : Request := ⟨node, 1, rangePayload OP_SCAN_RANGE r.start r.end_⟩
    Traced P (s.send q.node q.data).nodes (s.send q.node q.data).connections := by
  intro q
  refine h.send (r.fitsFrame _) (DataNode.handleBinaryRequest_scanRange' _ r.start_lt r.end_lt 1)
    (h.stored node) (h.storables node) ?_
  unfold scanRange
  rcases hst : (s.nodes node).storage with _ | st
  · exact vouchedFrame_status 1 _
  · refine vouchedFrame_scan 1 (hfits st hst) (storable_of_mem_rangeQuery (h.storables node) hst)
      fun e he => h.stored node e.1 e.2 ?_
    rw [DataNode.lookup, hst]
    exact (StorageEngine.mem_rangeQuery.mp he).1

end Cluster

/-! ## Balancer actions -/

section Calls

variable {s : Cluster} (m : Master) (h : Traced P s.nodes s.connections)

include h

/-- A statistics query, with the right reply or another one, names a key of `P` or none. -/
theorem Traced.queryTabletStats (node : UInt32) (r : KeyRange) :
    ∃ result s', Cluster.env.run (Balancer.queryTabletStats node r.start r.end_) (m, s)
        = (some result, (m, s')) ∧ Traced P s'.nodes s'.connections ∧
      ∀ count key, result = some (count, key) → key = [] ∨ ∃ v, P key v := by
  by_cases hconn : (s.connections node).connected = true
  · have hsent := h.sendStats node r
    refine ⟨_, _, run_queryTabletStats m s node hconn r.start r.end_, hsent.after 3000,
      fun count key hresult => ?_⟩
    obtain ⟨resp, hreply, hparse⟩ := Option.bind_eq_some_iff.mp hresult
    exact (hsent.reply hreply).1.median count key hparse
  · exact ⟨none, s, run_queryTabletStats_closed m s node hconn r.start r.end_, h,
      fun count key hresult => absurd hresult (by simp)⟩

/-- A transfer, of the right pairs or others, brings pairs of `P`. -/
theorem Traced.scanAndTransferData (src dst : UInt32) (r : KeyRange)
    (hfits : ∀ st, (s.nodes src).storage = some st →
      15 + (scanBody (st.rangeQuery r.start r.end_)).length < 2 ^ 32) :
    ∃ ok s', Cluster.env.run (Balancer.scanAndTransferData src dst r.start r.end_) (m, s)
      = (some ok, (m, s')) ∧ Traced P s'.nodes s'.connections := by
  by_cases hconn : (s.connections src).connected = true ∧ (s.connections dst).connected = true
  swap
  · exact ⟨false, s, run_scanAndTransferData_disconnected m s hconn r.start r.end_, h⟩
  have hrun := run_scanAndTransferData m s hconn.1 hconn.2 r.start r.end_
  have hsent := h.sendScan src r hfits
  have hafter := hsent.after 30000
  dsimp only at hrun
  rcases hresp : s.reply ⟨src, 1, rangePayload OP_SCAN_RANGE r.start r.end_⟩ 30000 with _ | resp
  · rw [hresp] at hrun
    exact ⟨false, _, hrun, hafter⟩
  obtain ⟨hvouched, hframe⟩ := hsent.reply hresp
  rw [hresp] at hrun
  dsimp only at hrun
  rcases hcount : scanCount resp with _ | count
  · rw [hcount] at hrun
    exact ⟨false, _, hrun, hafter⟩
  rw [hcount] at hrun
  dsimp only at hrun
  -- the loop puts pairs of the reply, whichever reply this is
  obtain ⟨n, s', hloop, -, hs'⟩ := (transferLoop_requests
    (R := fun q => ∃ e ∈ pairsFrom resp count 9, FitsPut e ∧
      ∃ reqId, q = ⟨dst, reqId, kvPayload OP_PUT e.1 e.2⟩) hframe 0 le_rfl 0
    (fun e he reqId => ⟨e, he, fitsPut_of_mem_pairsFrom hframe le_rfl e he, reqId, rfl⟩)).run
    (J := fun s => Traced P s.nodes s.connections) (by
      rintro _ timeoutMs s₁ ⟨e, he, hfit, reqId, rfl⟩ hs₁
      exact (hs₁.sendPut dst reqId hfit (hvouched.pairs count hcount e he)).after timeoutMs) m hafter
  rw [Environment.run_bind_some hloop] at hrun
  exact ⟨_, s', hrun, hs'⟩

/-- What follows a transfer deletes pairs only. -/
theorem Traced.finish (src : UInt32) (r : KeyRange) :
    ∃ result s', Cluster.env.run (do
        Balancer.saveTablets
        let _deleted ← Balancer.sendDeleteRange src r.start r.end_
        return true) (m, s) = (result, (m, s')) ∧ Traced P s'.nodes s'.connections := by
  obtain ⟨saved, s₁, hsave, hs₁⟩ :=
    Environment.run_saveTablets (keepsFiles_of (Traced P)) m h
  rcases saved with _ | _
  · exact ⟨none, s₁, Environment.run_bind_none hsave _, hs₁⟩
  · have hrequests : Requests (fun q => q = ⟨src, 1, rangePayload OP_DELETE_RANGE r.start r.end_⟩)
        (fun _ => True) (Balancer.sendDeleteRange src r.start r.end_) := sendDeleteRange_requests rfl
    obtain ⟨deleted, s₂, hdel, -, hs₂⟩ := hrequests.run
      (J := fun s => Traced P s.nodes s.connections) (by
        rintro q t s' rfl hs'
        exact (hs'.sendDeleteRange src r).after t) m hs₁
    exact ⟨some true, s₂, (Environment.run_bind_some hsave _).trans
      (Environment.run_bind_some hdel _), hs₂⟩

end Calls

/-- The stores, the replies under way and the boundaries of the table hold nothing that does not come
from `P`, or from the boundaries `B` at the start. -/
structure TracedWorld (P : Bytes → Bytes → Prop) (B : Bytes → Prop) (w : World) : Prop where
  traced : Traced P w.2.nodes w.2.connections
  short : Boundaries Short w.1.tablets
  known : Boundaries (fun key => B key ∨ ∃ v, P key v) w.1.tablets

section Action

variable {B : Bytes → Prop} {w w' : World}

theorem TracedWorld.mono {Q : Bytes → Bytes → Prop} (hPQ : ∀ k v, P k v → Q k v)
    (h : TracedWorld P B w) : TracedWorld Q B w where
  traced := h.traced.mono hPQ
  short := h.short
  known t ht := by
    have hkey : ∀ key, (B key ∨ ∃ v, P key v) → B key ∨ ∃ v, Q key v :=
      fun key hkey => hkey.imp_right fun ⟨v, hv⟩ => ⟨v, hPQ key v hv⟩
    exact ⟨hkey _ (h.known t ht).1, hkey _ (h.known t ht).2⟩

theorem TracedWorld.sync (h : TracedWorld P B w) {r : Option Unit}
    (hrun : Cluster.env.run syncAllTabletStats w = (r, w')) : TracedWorld P B w' := by
  have hqueries : Cluster.env.KeepsQuery Short fun s => Traced P s.nodes s.connections := by
    intro node start end_ hstart hend m s hs
    obtain ⟨result, s', hquery, hs', -⟩ := hs.queryTabletStats m node ⟨start, end_, hstart, hend⟩
    exact ⟨result, s', hquery, hs'⟩
  obtain ⟨ts, s', hrun', hts, hs'⟩ :=
    Environment.run_syncAllTabletStats hqueries w.1 h.short h.traced
  obtain ⟨-, rfl⟩ := Prod.mk.inj (hrun'.symm.trans hrun)
  exact ⟨hs', h.short.of_assignment_eq hts, h.known.of_assignment_eq hts⟩

/-- A split takes a boundary from a reply: a key of `P`, also where the reply is another one. -/
theorem TracedWorld.split (h : TracedWorld P B w) {idx : ℕ} {r : Option Bool}
    (hrun : Cluster.env.run (trySplitTablet idx) w = (r, w')) : TracedWorld P B w' := by
  obtain ⟨m, s⟩ := w
  by_cases hsmall : ∀ old, m.tablets[idx]? = some old → old.keyCount < SPLIT_THRESHOLD
  · obtain ⟨-, rfl⟩ := Prod.mk.inj ((Environment.run_trySplitTablet_of_small hsmall).symm.trans hrun)
    exact h
  simp only [not_forall, exists_prop] at hsmall
  obtain ⟨old, hidx, hbig⟩ := hsmall
  have hbounded : old.Bounded := h.short old (List.mem_of_getElem? hidx)
  obtain ⟨result, s₁, hquery, hs₁, hkey⟩ :=
    h.traced.queryTabletStats m old.nodeId (old.range hbounded)
  rcases result with _ | ⟨count, median⟩
  · obtain ⟨-, rfl⟩ := Prod.mk.inj
      ((Environment.run_trySplitTablet_none hidx hbig hquery).symm.trans hrun)
    exact ⟨hs₁, h.short, h.known⟩
  by_cases hpoint : SplitPoint old median
  · obtain ⟨r', s₂, hs₂, -, hrun'⟩ := Environment.run_trySplitTablet_point hidx hbig
      hquery (keepsFiles_of (Traced P)) hs₁ hpoint
    obtain ⟨-, rfl⟩ := Prod.mk.inj (hrun'.symm.trans hrun)
    have hmedian : ∃ v, P median v :=
      (hkey count median rfl).resolve_left (Bytes.ne_nil_of_lt hpoint.start_lt)
    exact ⟨hs₂, short_splitAt count hidx hpoint h.short,
      boundaries_splitAt count hidx (.inr hmedian) h.known⟩
  · obtain ⟨-, rfl⟩ := Prod.mk.inj
      ((Environment.run_trySplitTablet_refused hidx hbig hquery hpoint).symm.trans hrun)
    exact ⟨hs₁, h.short, h.known⟩

theorem TracedWorld.migrate (h : TracedWorld P B w) {idx : ℕ} {dst : UInt32}
    (hfits : ∀ t, w.1.tablets[idx]? = some t → ScanFits w.2 t) {r : Option Bool}
    (hrun : Cluster.env.run (migrateTablet idx dst) w = (r, w')) : TracedWorld P B w' := by
  obtain ⟨m, s⟩ := w
  by_cases hstay : ∀ t, m.tablets[idx]? = some t → t.nodeId = dst
  · obtain ⟨-, rfl⟩ := Prod.mk.inj ((Environment.run_migrateTablet_of_stay hstay).symm.trans hrun)
    exact h
  push Not at hstay
  obtain ⟨t, hidx, hne⟩ := hstay
  have hbounded : t.Bounded := h.short t (List.mem_of_getElem? hidx)
  obtain ⟨ok, s₁, hscan, hs₁⟩ :=
    h.traced.scanAndTransferData m t.nodeId dst (t.range hbounded) (hfits t hidx)
  rw [Environment.run_migrateTablet hidx hne hscan] at hrun
  cases ok with
  | false =>
    obtain ⟨-, rfl⟩ := Prod.mk.inj hrun
    exact ⟨hs₁, h.short, h.known⟩
  | true =>
    obtain ⟨result, s₂, hfinish, hs₂⟩ := hs₁.finish (m.moveTo idx dst) t.nodeId (t.range hbounded)
    obtain ⟨-, rfl⟩ := Prod.mk.inj (hfinish.symm.trans hrun)
    exact ⟨hs₂, short_moveTo hidx h.short, boundaries_moveTo hidx h.known⟩

theorem TracedWorld.action (h : TracedWorld P B w) {a : BalancerAction} (hfits : a.Fits w)
    {r : Option Bool} (hrun : Cluster.env.run a.prog w = (r, w')) : TracedWorld P B w' := by
  cases a with
  | sync =>
    rcases hsync : Cluster.env.run syncAllTabletStats w with ⟨_ | _, w₁⟩
    · rw [BalancerAction.prog, Environment.run_bind_none hsync] at hrun
      obtain ⟨-, rfl⟩ := Prod.mk.inj hrun
      exact h.sync hsync
    · rw [BalancerAction.prog, Environment.run_bind_some hsync] at hrun
      obtain ⟨-, rfl⟩ := Prod.mk.inj hrun
      exact h.sync hsync
  | split idx => exact h.split hrun
  | migrate idx dst => exact h.migrate (fun t ht => hfits idx dst t rfl ht) hrun
  | balance =>
    obtain ⟨m, s⟩ := w
    rcases htarget : balanceTarget m.tablets with _ | ⟨target, dst⟩
    · obtain ⟨-, rfl⟩ := Prod.mk.inj ((Environment.run_doLoadBalance_none htarget).symm.trans hrun)
      exact h
    · have hclock : TracedWorld P B (m, (Cluster.env.now s).2) := ⟨h.traced, h.short, h.known⟩
      rcases hmig : Cluster.env.run (migrateTablet target dst) (m, (Cluster.env.now s).2)
        with ⟨r', m₁, s₁⟩
      obtain ⟨count, time, s₂, hrun', hs₂⟩ := Environment.run_doLoadBalance_some htarget hmig
      obtain ⟨-, rfl⟩ := Prod.mk.inj (hrun'.symm.trans hrun)
      have h₁ := hclock.migrate (fun t ht => hfits target dst t htarget ht) hmig
      rcases hs₂ with rfl | rfl
      · exact ⟨h₁.traced, h₁.short, h₁.known⟩
      · exact ⟨h₁.traced, h₁.short, h₁.known⟩

end Action

/-! ## Whole runs -/

/-- The pairs that the stores hold at the start, and those that a client writes. -/
def Written (w₀ : World) (ops : List ClientOp) (k v : Bytes) : Prop :=
  (∃ node, (w₀.2.nodes node).lookup k = some v) ∨ .put k v ∈ ops

theorem Written.append {w₀ : World} {ops : List ClientOp} {k v : Bytes} (h : Written w₀ ops k v)
    (o : ClientOp) : Written w₀ (ops ++ [o]) k v :=
  h.imp_right fun hput => List.mem_append_left [o] hput

/-- A key at which a tablet starts or ends. -/
def IsBoundary (tablets : List Tablet) (key : Bytes) : Prop :=
  ∃ t ∈ tablets, key = t.startKey ∨ key = t.endKey

/-- At the start no reply is under way, and keys and boundaries have the lengths that requests allow.
The stores may hold anything, or be missing. -/
structure NoReplies (w₀ : World) : Prop where
  pending : ∀ node, (w₀.2.connections node).pending = []
  storables : ∀ node, (w₀.2.nodes node).Storables
  short : Boundaries Short w₀.1.tablets

theorem NoReplies.traced {w₀ : World} (h : NoReplies w₀) :
    TracedWorld (Written w₀ []) (IsBoundary w₀.1.tablets) w₀ where
  traced := ⟨fun node _ _ hk => .inl ⟨node, hk⟩, h.storables, fun node => h.pending node ▸ .nil⟩
  short := h.short
  known t ht := ⟨.inl ⟨t, ht, .inl rfl⟩, .inl ⟨t, ht, .inr rfl⟩⟩

section Runs

variable {w₀ w w' : World} {ops : List ClientOp} {B : Bytes → Prop}

/-- A client's operation stores its own pair, or nothing new. -/
theorem TracedWorld.exec (h : TracedWorld (Written w₀ ops) B w) {o : ClientOp} (hfits : o.Fits)
    {reqId : UInt32} {resp : Bytes} (hexec : o.exec reqId w = some (resp, w')) :
    TracedWorld (Written w₀ (ops ++ [o])) B w' := by
  have h' : TracedWorld (Written w₀ (ops ++ [o])) B w := h.mono fun k v hk => hk.append o
  obtain ⟨t, -, hexec⟩ := Option.bind_eq_some_iff.mp hexec
  obtain ⟨⟨resp', n⟩, hhandle, hw⟩ := Option.bind_eq_some_iff.mp hexec
  obtain ⟨-, rfl⟩ := Prod.mk.inj (Option.some.inj hw)
  have hnode : (∀ k v, n.lookup k = some v → Written w₀ (ops ++ [o]) k v) ∧ n.Storables := by
    cases o with
    | put key value =>
      have hput := DataNode.handleBinaryRequest_put (w.2.nodes t.nodeId) reqId hfits.1
        (by have hsum := hfits.2; omega : 7 + key.length + value.length < 2 ^ 32)
      obtain rfl : ((w.2.nodes t.nodeId).put key value).2 = n :=
        (Prod.mk.inj (Option.some.inj (hput.symm.trans hhandle))).2
      have hvalue : value.length < 2 ^ 32 := by
        have hsum := hfits.2
        omega
      refine ⟨fun k v hk => ?_, (h.traced.storables _).put ⟨hfits.1, hvalue⟩⟩
      rw [DataNode.lookup_put] at hk
      split_ifs at hk with hkey
      · -- a value that was not there before is that of the operation just added
        rw [hkey.1, ← Option.some.inj hk]
        exact .inr (List.mem_append_right ops List.mem_cons_self)
      · exact h'.traced.stored _ k v hk
    | get key =>
      have hget := DataNode.handleBinaryRequest_get (w.2.nodes t.nodeId) reqId hfits
      obtain rfl : w.2.nodes t.nodeId = n :=
        (DataNode.get_snd _ key).symm.trans
          (congrArg Prod.snd (Option.some.inj (hget.symm.trans hhandle)))
      exact ⟨h'.traced.stored _, h.traced.storables _⟩
    | delete key =>
      have hdelete := DataNode.handleBinaryRequest_delete (w.2.nodes t.nodeId) reqId hfits
      obtain rfl : ((w.2.nodes t.nodeId).delete key).2 = n :=
        (Prod.mk.inj (Option.some.inj (hdelete.symm.trans hhandle))).2
      exact ⟨fun k v hk => h'.traced.stored _ k v (DataNode.lookup_of_delete hk),
        (h.traced.storables _).delete key⟩
  refine ⟨⟨fun node k v hk => ?_, fun node => ?_, h'.traced.replies⟩, h.short, h'.known⟩
  · have hk' : (Function.update w.2.nodes t.nodeId n node).lookup k = some v := hk
    rw [Function.update_apply] at hk'
    split_ifs at hk' with hnode'
    · exact hnode.1 k v hk'
    · exact h'.traced.stored node k v hk'
  · show (Function.update w.2.nodes t.nodeId n node).Storables
    rw [Function.update_apply]
    split_ifs
    · exact hnode.2
    · exact h.traced.storables node

/-- In every run, whatever fails and whichever replies are misread. -/
theorem FaultyRun.traced (hstart : NoReplies w₀) (h : FaultyRun (fun w a => a.Fits w) w₀ ops w) :
    TracedWorld (Written w₀ ops) (IsBoundary w₀.1.tablets) w := by
  induction h with
  | start => exact hstart.traced
  | client h hfits hexec ih => exact ih.exec hfits hexec
  | @action ops w h a s hs ha ok w' hrun ih =>
    have ih' : TracedWorld (Written w₀ ops) (IsBoundary w₀.1.tablets) (w.1, s) := by
      refine ⟨⟨hs.nodes ▸ ih.traced.stored, hs.nodes ▸ ih.traced.storables, fun node => ?_⟩, ih.short,
        ih.known⟩
      obtain ⟨connected, sends, arrivals, hconn⟩ := hs.connections node
      rw [hconn]
      exact ih.traced.replies node
    exact ih'.action ha hrun

end Runs

/-! ## A copy without a request -/

section Examples

theorem emptyCluster_noReplies : NoReplies (initialMaster, emptyCluster) where
  pending node := by
    show (if node ∈ dataNodes twoNodes then Connection.fresh
      else { Connection.fresh with connected := false }).pending = []
    split_ifs <;> rfl
  storables node := emptyCluster_start.refines.storables node
  short := emptyCluster_start.refines.short

end Examples

end LeKV
