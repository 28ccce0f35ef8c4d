import LeKV.Rpc.Server
import LeKV.Storage.StorageEngine

/-!
# The DataNode's handlers (`kv/raft_node.cpp`)

A DataNode holds a storage engine, or none where LevelDB did not open. Every handler maps a request
payload to a response payload; `none` is a read outside the payload. The three range requests share
their layout and its checks, `parseRange`.
-/

namespace LeKV

open Bytes BinaryProtocol

/-- A DataNode's state. -/
structure DataNode where
  storage : Option StorageEngine

namespace DataNode

/-! ## What a request does, once its payload is taken apart -/

/-- `PUT`: `ST_TIMEOUT` without storage, or where the storage refuses the write. -/
def put (n : DataNode) (key value : Bytes) : Bytes × DataNode :=
  match n.storage with
  | none => ([ST_TIMEOUT], n)
  | some s => ([if (s.put key value).1 then ST_OK else ST_TIMEOUT], ⟨some (s.put key value).2⟩)

/-- `GET`. -/
def get (n : DataNode) (key : Bytes) : Bytes × DataNode :=
  match n.storage with
  | none => ([ST_TIMEOUT], n)
  | some s =>
    match s.get key with
    | some value => (ST_OK :: value, n)
    | none => ([ST_NOT_FOUND], n)

/-- `DELETE`. -/
def delete (n : DataNode) (key : Bytes) : Bytes × DataNode :=
  match n.storage with
  | none => ([ST_TIMEOUT], n)
  | some s => ([if (s.delete key).1 then ST_OK else ST_TIMEOUT], ⟨some (s.delete key).2⟩)

/-- `RaftNode::DataNodeGetTabletStats`: without storage the results stay zero and empty. -/
def dataNodeGetTabletStats (n : DataNode) (start end_ : Bytes) : ℕ × Bytes :=
  match n.storage with
  | none => (0, [])
  | some s => s.rangeStats start end_

/-- The statistics of a range: `[status][4B key_count][2B median_len][median]`, always `ST_OK`. -/
def tabletStats (n : DataNode) (start end_ : Bytes) : Bytes × DataNode :=
  let stats := n.dataNodeGetTabletStats start end_
  (ST_OK :: (be 4 stats.1 ++ (be 2 stats.2.length ++ stats.2)), n)

/-- `[2B key_len][key][4B val_len][value]`, one pair of a scan response. -/
def encodePair (e : Bytes × Bytes) : Bytes :=
  be 2 e.1.length ++ (e.1 ++ (be 4 e.2.length ++ e.2))

/-- The body of a scan response: `[4B count]` and the pairs. -/
def scanBody (pairs : List (Bytes × Bytes)) : Bytes :=
  be 4 pairs.length ++ (pairs.map encodePair).flatten

/-- The pairs of a range. -/
def scanRange (n : DataNode) (start end_ : Bytes) : Bytes × DataNode :=
  match n.storage with
  | none => ([ST_TIMEOUT], n)
  | some s => (ST_OK :: scanBody (s.rangeQuery start end_), n)

@[simp] theorem tabletStats_snd (n : DataNode) (start end_ : Bytes) :
    (n.tabletStats start end_).2 = n := rfl

@[simp] theorem scanRange_snd (n : DataNode) (start end_ : Bytes) :
    (n.scanRange start end_).2 = n := by
  unfold scanRange
  split <;> rfl

/-- The deletion of a range. -/
def deleteRange (n : DataNode) (start end_ : Bytes) : Bytes × DataNode :=
  match n.storage with
  | none => ([ST_TIMEOUT], n)
  | some s =>
    ([if (s.deleteRange start end_).1 then ST_OK else ST_TIMEOUT],
      ⟨some (s.deleteRange start end_).2⟩)

/-! ## The handlers -/

/-- `RaftNode::HandleDataNodePut`. The length check adds in `uint32_t`. -/
def handleDataNodePut (payload : Bytes) (n : DataNode) : Option (Bytes × DataNode) := do
  if payload.length < 7 then return ([ST_BAD_REQUEST], n)
  let keyLen ← numAt payload 1 2
  let valLen ← numAt payload 3 4
  if payload.length < (7 + keyLen + valLen) % 2 ^ 32 then return ([ST_BAD_REQUEST], n)
  let key ← bytesAt payload 7 keyLen
  let value ← bytesAt payload (7 + keyLen) valLen
  return n.put key value

/-- `RaftNode::HandleDataNodeGet`. The end of the key is not checked against the payload. -/
def handleDataNodeGet (payload : Bytes) (n : DataNode) : Option (Bytes × DataNode) := do
  if payload.length < 7 then return ([ST_BAD_REQUEST], n)
  let keyLen ← numAt payload 1 2
  let valLen ← numAt payload 3 4
  if valLen ≠ 0 then return ([ST_BAD_REQUEST], n)
  let key ← bytesAt payload 7 keyLen
  return n.get key

/-- `RaftNode::HandleDataNodeDelete`. -/
def handleDataNodeDelete (payload : Bytes) (n : DataNode) : Option (Bytes × DataNode) := do
  if payload.length < 7 then return ([ST_BAD_REQUEST], n)
  let keyLen ← numAt payload 1 2
  let valLen ← numAt payload 3 4
  if valLen ≠ 0 then return ([ST_BAD_REQUEST], n)
  if payload.length < 7 + keyLen then return ([ST_BAD_REQUEST], n)
  let key ← bytesAt payload 7 keyLen
  return n.delete key

/-- `[1B opcode][2B start_len][start][2B end_len][end]`: the two keys, `some none` where the payload
is too short for them. -/
def parseRange (payload : Bytes) : Option (Option (Bytes × Bytes)) := do
  if payload.length < 5 then return none
  let sl ← numAt payload 1 2
  if payload.length < 1 + 2 + sl + 2 then return none
  let start ← bytesAt payload 3 sl
  let el ← numAt payload (3 + sl) 2
  if payload.length < 1 + 2 + sl + 2 + el then return none
  let end_ ← bytesAt payload (3 + sl + 2) el
  return some (start, end_)

/-- A range request: take the payload apart, then do `act`. -/
def handleRange (act : DataNode → Bytes → Bytes → Bytes × DataNode) (payload : Bytes)
    (n : DataNode) : Option (Bytes × DataNode) :=
  match parseRange payload with
  | none => none
  | some none => some ([ST_BAD_REQUEST], n)
  | some (some (start, end_)) => some (act n start end_)

/-- `RaftNode::HandleDataNodeTabletStats`. -/
def handleDataNodeTabletStats : Bytes → DataNode → Option (Bytes × DataNode) :=
  handleRange tabletStats

/-- `RaftNode::HandleDataNodeScanRange`. -/
def handleDataNodeScanRange : Bytes → DataNode → Option (Bytes × DataNode) :=
  handleRange scanRange

/-- `RaftNode::HandleDataNodeDeleteRange`. -/
def handleDataNodeDeleteRange : Bytes → DataNode → Option (Bytes × DataNode) :=
  handleRange deleteRange

/-- `RaftNode::HandleBinaryRequest` on a DataNode. -/
def handleBinaryRequest : BinaryHandler DataNode := fun _ payload n =>
  match payload with
  | [] => some ([ST_BAD_REQUEST], n)
  | opcode :: _ =>
    if opcode = OP_PUT then handleDataNodePut payload n
    else if opcode = OP_GET then handleDataNodeGet payload n
    else if opcode = OP_DELETE then handleDataNodeDelete payload n
    else if opcode = OP_TABLET_STATS then handleDataNodeTabletStats payload n
    else if opcode = OP_SCAN_RANGE then handleDataNodeScanRange payload n
    else if opcode = OP_DELETE_RANGE then handleDataNodeDeleteRange payload n
    else some ([ST_BAD_REQUEST], n)

/-! ## What a request comes to -/

/-- What a DataNode can do with a payload: refuse it, or one of the six requests. Keys and values are
as long as their fields can say. -/
inductive Handled (payload : Bytes) (n : DataNode) : Bytes × DataNode → Prop where
  | refused : Handled payload n ([ST_BAD_REQUEST], n)
  | put {key value : Bytes} (hkey : key.length < 2 ^ 16) (hvalue : value.length < 2 ^ 32)
      (hop : payload.head? = some OP_PUT) : Handled payload n (n.put key value)
  | get (key : Bytes) (hop : payload.head? = some OP_GET) : Handled payload n (n.get key)
  | delete (key : Bytes) (hop : payload.head? = some OP_DELETE) : Handled payload n (n.delete key)
  | tabletStats {start end_ : Bytes} (hop : payload.head? = some OP_TABLET_STATS)
      (hrange : parseRange payload = some (some (start, end_))) :
      Handled payload n (n.tabletStats start end_)
  | scanRange (start end_ : Bytes) (hop : payload.head? = some OP_SCAN_RANGE) :
      Handled payload n (n.scanRange start end_)
  | deleteRange (start end_ : Bytes) (hop : payload.head? = some OP_DELETE_RANGE) :
      Handled payload n (n.deleteRange start end_)

section Handled

variable {payload : Bytes} {n : DataNode} {r : Bytes × DataNode}

theorem handleDataNodePut_cases (h : handleDataNodePut payload n = some r) :
    r = ([ST_BAD_REQUEST], n) ∨
      ∃ key value : Bytes, key.length < 2 ^ 16 ∧ value.length < 2 ^ 32 ∧ r = n.put key value := by
  unfold handleDataNodePut at h
  simp only [Option.bind_eq_bind] at h
  split_ifs at h with hshort
  · exact .inl (Option.some.inj h).symm
  obtain ⟨keyLen, hkl, h⟩ := Option.bind_eq_some_iff.mp h
  obtain ⟨valLen, hvl, h⟩ := Option.bind_eq_some_iff.mp h
  split_ifs at h with hlong
  · exact .inl (Option.some.inj h).symm
  obtain ⟨key, hkey, h⟩ := Option.bind_eq_some_iff.mp h
  obtain ⟨value, hvalue, h⟩ := Option.bind_eq_some_iff.mp h
  refine .inr ⟨key, value, ?_, ?_, (Option.some.inj h).symm⟩
  · exact length_of_bytesAt hkey ▸ numAt_lt hkl
  · exact length_of_bytesAt hvalue ▸ numAt_lt hvl

theorem handleDataNodeGet_cases (h : handleDataNodeGet payload n = some r) :
    r = ([ST_BAD_REQUEST], n) ∨ ∃ key, r = n.get key := by
  unfold handleDataNodeGet at h
  simp only [Option.bind_eq_bind] at h
  split_ifs at h with hshort
  · exact .inl (Option.some.inj h).symm
  obtain ⟨keyLen, -, h⟩ := Option.bind_eq_some_iff.mp h
  obtain ⟨valLen, -, h⟩ := Option.bind_eq_some_iff.mp h
  split_ifs at h with hvalue
  · exact .inl (Option.some.inj h).symm
  obtain ⟨key, -, h⟩ := Option.bind_eq_some_iff.mp h
  exact .inr ⟨key, (Option.some.inj h).symm⟩

theorem handleDataNodeDelete_cases (h : handleDataNodeDelete payload n = some r) :
    r = ([ST_BAD_REQUEST], n) ∨ ∃ key, r = n.delete key := by
  unfold handleDataNodeDelete at h
  simp only [Option.bind_eq_bind] at h
  split_ifs at h with hshort
  · exact .inl (Option.some.inj h).symm
  obtain ⟨keyLen, -, h⟩ := Option.bind_eq_some_iff.mp h
  obtain ⟨valLen, -, h⟩ := Option.bind_eq_some_iff.mp h
  split_ifs at h with hvalue hlong
  · exact .inl (Option.some.inj h).symm
  · exact .inl (Option.some.inj h).symm
  obtain ⟨key, -, h⟩ := Option.bind_eq_some_iff.mp h
  exact .inr ⟨key, (Option.some.inj h).symm⟩

theorem handleRange_cases {act : DataNode → Bytes → Bytes → Bytes × DataNode}
    (h : handleRange act payload n = some r) :
    r = ([ST_BAD_REQUEST], n) ∨
      ∃ start end_, parseRange payload = some (some (start, end_)) ∧ r = act n start end_ := by
  unfold handleRange at h
  rcases hparse : parseRange payload with _ | _ | ⟨start, end_⟩
  · rw [hparse] at h
    exact absurd h (by simp)
  · rw [hparse] at h
    exact .inl (Option.some.inj h).symm
  · rw [hparse] at h
    exact .inr ⟨start, end_, rfl, (Option.some.inj h).symm⟩

/-- Every answer is that of one of the requests, or a refusal. -/
theorem handled_of_handleBinaryRequest {reqId : UInt32}
    (h : handleBinaryRequest reqId payload n = some r) : Handled payload n r := by
  unfold handleBinaryRequest at h
  rcases payload with _ | ⟨opcode, rest⟩
  · obtain rfl := Option.some.inj h
    exact .refused
  dsimp only at h
  split_ifs at h with hput hget hdelete hstats hscan hdeleteRange
  · rcases handleDataNodePut_cases h with rfl | ⟨key, value, hkey, hvalue, rfl⟩
    · exact .refused
    · exact .put hkey hvalue (congrArg some hput)
  · rcases handleDataNodeGet_cases h with rfl | ⟨key, rfl⟩
    · exact .refused
    · exact .get key (congrArg some hget)
  · rcases handleDataNodeDelete_cases h with rfl | ⟨key, rfl⟩
    · exact .refused
    · exact .delete key (congrArg some hdelete)
  · rcases handleRange_cases h with rfl | ⟨start, end_, hrange, rfl⟩
    · exact .refused
    · exact .tabletStats (congrArg some hstats) hrange
  · rcases handleRange_cases h with rfl | ⟨start, end_, -, rfl⟩
    · exact .refused
    · exact .scanRange start end_ (congrArg some hscan)
  · rcases handleRange_cases h with rfl | ⟨start, end_, -, rfl⟩
    · exact .refused
    · exact .deleteRange start end_ (congrArg some hdeleteRange)
  · obtain rfl := Option.some.inj h
    exact .refused

end Handled

/-! ## Requests as the clients and the Master build them -/

/-- The key length of a key-value payload, as the handlers read it. -/
theorem numAt_kvPayload_key (opcode : UInt8) {key : Bytes} (value : Bytes)
    (hkey : key.length < 2 ^ 16) : numAt (kvPayload opcode key value) 1 2 = some key.length := by
  have h := num16At_append [opcode] (be 4 value.length ++ (key ++ value)) key.length rfl
  rwa [Nat.mod_eq_of_lt hkey] at h

theorem numAt_kvPayload_value (opcode : UInt8) (key : Bytes) {value : Bytes}
    (hvalue : value.length < 2 ^ 32) :
    numAt (kvPayload opcode key value) 3 4 = some value.length := by
  have h := num32At_append (opcode :: be 2 key.length) (key ++ value) value.length rfl
  rwa [Nat.mod_eq_of_lt hvalue] at h

theorem bytesAt_kvPayload_key (opcode : UInt8) (key value : Bytes) :
    bytesAt (kvPayload opcode key value) 7 key.length = some key := by
  have h := bytesAt_append (opcode :: (be 2 key.length ++ be 4 value.length)) key value
    (rfl : 7 = _) rfl
  rwa [List.cons_append, List.append_assoc] at h

theorem bytesAt_kvPayload_value (opcode : UInt8) (key value : Bytes) :
    bytesAt (kvPayload opcode key value) (7 + key.length) value.length = some value := by
  have hlen : 7 + key.length = (opcode :: (be 2 key.length ++ (be 4 value.length ++ key))).length := by
    simp only [List.length_cons, List.length_append, length_be]
    omega
  have h := bytesAt_append (opcode :: (be 2 key.length ++ (be 4 value.length ++ key))) value []
    hlen rfl
  simpa [kvPayload] using h

section Requests

variable {key value : Bytes} (n : DataNode)

theorem handleDataNodePut_kvPayload (opcode : UInt8) (hkey : key.length < 2 ^ 16)
    (hfit : 7 + key.length + value.length < 2 ^ 32) :
    handleDataNodePut (kvPayload opcode key value) n = some (n.put key value) := by
  unfold handleDataNodePut
  rw [length_kvPayload, if_neg (by omega), numAt_kvPayload_key opcode value hkey,
    numAt_kvPayload_value opcode key (by omega : value.length < 2 ^ 32)]
  simp only [Option.bind_eq_bind, Option.bind_some, Nat.mod_eq_of_lt hfit, lt_irrefl, if_false,
    bytesAt_kvPayload_key, bytesAt_kvPayload_value]
  rfl

theorem handleDataNodeGet_kvPayload (opcode : UInt8) (hkey : key.length < 2 ^ 16) :
    handleDataNodeGet (kvPayload opcode key []) n = some (n.get key) := by
  unfold handleDataNodeGet
  rw [length_kvPayload, if_neg (by omega), numAt_kvPayload_key opcode [] hkey,
    numAt_kvPayload_value opcode key (by norm_num : ([] : Bytes).length < 2 ^ 32)]
  simp only [Option.bind_eq_bind, Option.bind_some, List.length_nil, bytesAt_kvPayload_key]
  rfl

theorem handleDataNodeDelete_kvPayload (opcode : UInt8) (hkey : key.length < 2 ^ 16) :
    handleDataNodeDelete (kvPayload opcode key []) n = some (n.delete key) := by
  unfold handleDataNodeDelete
  rw [length_kvPayload, if_neg (by omega), numAt_kvPayload_key opcode [] hkey,
    numAt_kvPayload_value opcode key (by norm_num : ([] : Bytes).length < 2 ^ 32)]
  simp only [Option.bind_eq_bind, Option.bind_some, List.length_nil, bytesAt_kvPayload_key,
    Nat.add_zero, lt_irrefl, if_false]
  rfl

theorem handleBinaryRequest_put (reqId : UInt32) (hkey : key.length < 2 ^ 16)
    (hfit : 7 + key.length + value.length < 2 ^ 32) :
    handleBinaryRequest reqId (kvPayload OP_PUT key value) n = some (n.put key value) :=
  handleDataNodePut_kvPayload n _ hkey hfit

theorem handleBinaryRequest_get (reqId : UInt32) (hkey : key.length < 2 ^ 16) :
    handleBinaryRequest reqId (kvPayload OP_GET key []) n = some (n.get key) :=
  handleDataNodeGet_kvPayload n _ hkey

theorem handleBinaryRequest_delete (reqId : UInt32) (hkey : key.length < 2 ^ 16) :
    handleBinaryRequest reqId (kvPayload OP_DELETE key []) n = some (n.delete key) :=
  handleDataNodeDelete_kvPayload n _ hkey

variable {start end_ : Bytes} (hstart : start.length < 2 ^ 16) (hend : end_.length < 2 ^ 16)

include hstart hend in
/-- A range payload is taken apart into the keys it was built from. -/
theorem parseRange_rangePayload (opcode : UInt8) :
    parseRange (rangePayload opcode start end_) = some (some (start, end_)) := by
  have hsl : numAt (rangePayload opcode start end_) 1 2 = some start.length := by
    have h := num16At_append [opcode] (start ++ (be 2 end_.length ++ end_)) start.length rfl
    rwa [Nat.mod_eq_of_lt hstart] at h
  have hs : bytesAt (rangePayload opcode start end_) 3 start.length = some start := by
    have h := bytesAt_append (opcode :: be 2 start.length) start (be 2 end_.length ++ end_)
      (rfl : 3 = _) rfl
    rwa [List.cons_append] at h
  have hel : numAt (rangePayload opcode start end_) (3 + start.length) 2 = some end_.length := by
    have hlen : 3 + start.length = (opcode :: (be 2 start.length ++ start)).length := by
      simp only [List.length_cons, List.length_append, length_be]
      omega
    have h := num16At_append _ end_ end_.length hlen
    rw [List.cons_append, List.append_assoc, Nat.mod_eq_of_lt hend] at h
    exact h
  have he : bytesAt (rangePayload opcode start end_) (3 + start.length + 2) end_.length
      = some end_ := by
    have hlen : 3 + start.length + 2
        = (opcode :: (be 2 start.length ++ (start ++ be 2 end_.length))).length := by
      simp only [List.length_cons, List.length_append, length_be]
      omega
    have h := bytesAt_append _ end_ [] hlen rfl
    simpa [rangePayload] using h
  unfold parseRange
  rw [length_rangePayload, if_neg (by omega), hsl]
  simp only [Option.bind_eq_bind, Option.bind_some]
  rw [if_neg (by omega), hs, Option.bind_some, hel, Option.bind_some, if_neg (by omega), he,
    Option.bind_some]
  rfl

include hstart hend in
theorem handleRange_rangePayload (act : DataNode → Bytes → Bytes → Bytes × DataNode)
    (opcode : UInt8) :
    handleRange act (rangePayload opcode start end_) n = some (act n start end_) := by
  rw [handleRange, parseRange_rangePayload hstart hend]

include hstart hend in
theorem handleBinaryRequest_tabletStats (reqId : UInt32) :
    handleBinaryRequest reqId (rangePayload OP_TABLET_STATS start end_) n
      = some (n.tabletStats start end_) :=
  handleRange_rangePayload n hstart hend _ _

include hstart hend in
theorem handleBinaryRequest_scanRange (reqId : UInt32) :
    handleBinaryRequest reqId (rangePayload OP_SCAN_RANGE start end_) n
      = some (n.scanRange start end_) :=
  handleRange_rangePayload n hstart hend _ _

include hstart hend in
/-- A scan leaves the DataNode as it is. -/
theorem handleBinaryRequest_scanRange' (reqId : UInt32) :
    handleBinaryRequest reqId (rangePayload OP_SCAN_RANGE start end_) n
      = some ((n.scanRange start end_).1, n) := by
  have hpair : n.scanRange start end_ = ((n.scanRange start end_).1, n) :=
    Prod.ext rfl (n.scanRange_snd start end_)
  rw [handleBinaryRequest_scanRange n hstart hend, ← hpair]

include hstart hend in
theorem handleBinaryRequest_deleteRange (reqId : UInt32) :
    handleBinaryRequest reqId (rangePayload OP_DELETE_RANGE start end_) n
      = some (n.deleteRange start end_) :=
  handleRange_rangePayload n hstart hend _ _

end Requests

/-- The stored map, `none` without storage. -/
def contents (n : DataNode) : Option (SortedMap Bytes Bytes) := n.storage.map StorageEngine.db

/-- The value stored under a key. -/
def lookup (n : DataNode) (key : Bytes) : Option Bytes := n.storage.bind fun s => s.get key

/-- The storage will accept the `j`-th write from now. -/
def accepts (n : DataNode) (j : ℕ) : Bool := n.storage.any fun s => s.outcomes.getD j true

/-! ## Writes, seen from the stored values -/

theorem lookup_put (n : DataNode) (key value k : Bytes) :
    (n.put key value).2.lookup k = if k = key ∧ n.accepts 0 then some value else n.lookup k := by
  obtain ⟨_ | ⟨db, outcomes⟩⟩ := n
  · rw [if_neg fun h => Bool.false_ne_true h.2]
    rfl
  · have haccepts : (DataNode.mk (some ⟨db, outcomes⟩)).accepts 0 = outcomes.headD true := by
      cases outcomes <;> rfl
    rw [haccepts]
    show (if outcomes.headD true then db.insert key value else db).find? k = _
    by_cases hok : outcomes.headD true = true
    · rw [if_pos hok]
      by_cases hk : k = key
      · rw [if_pos ⟨hk, hok⟩, hk, SortedMap.find?_insert_self]
      · rw [if_neg fun h => hk h.1, SortedMap.find?_insert_of_ne _ _ hk]
        rfl
    · rw [if_neg hok, if_neg fun h => hok h.2]
      rfl

theorem accepts_put (n : DataNode) (key value : Bytes) (j : ℕ) :
    (n.put key value).2.accepts j = n.accepts (j + 1) := by
  obtain ⟨_ | ⟨db, outcomes⟩⟩ := n
  · rfl
  · show outcomes.tail.getD j true = outcomes.getD (j + 1) true
    cases outcomes <;> simp

/-- A DataNode after a list of `PUT`s. -/
def putAll (n : DataNode) (pairs : List (Bytes × Bytes)) : DataNode :=
  pairs.foldl (fun n e => (n.put e.1 e.2).2) n

theorem putAll_cons (n : DataNode) (e : Bytes × Bytes) (pairs : List (Bytes × Bytes)) :
    n.putAll (e :: pairs) = ((n.put e.1 e.2).2).putAll pairs := rfl

theorem lookup_putAll_of_notMem (n : DataNode) {pairs : List (Bytes × Bytes)} {k : Bytes}
    (h : ∀ e ∈ pairs, e.1 ≠ k) : (n.putAll pairs).lookup k = n.lookup k := by
  induction pairs generalizing n with
  | nil => rfl
  | cons e pairs ih =>
    have hne := h e List.mem_cons_self
    rw [putAll_cons, ih _ fun e' he' => h e' (List.mem_cons_of_mem e he'), lookup_put,
      if_neg fun hk => hne hk.1.symm]

/-- Of pairs with different keys, the `j`-th is stored exactly when the `j`-th write is accepted. -/
theorem lookup_putAll (n : DataNode) {pairs : List (Bytes × Bytes)}
    (hsorted : pairs.Pairwise fun a b => a.1 < b.1) {j : ℕ} {e : Bytes × Bytes}
    (hj : pairs[j]? = some e) :
    (n.putAll pairs).lookup e.1 = if n.accepts j then some e.2 else n.lookup e.1 := by
  induction pairs generalizing n j with
  | nil => exact absurd hj (by simp)
  | cons f pairs ih =>
    obtain ⟨hhead, htail⟩ := List.pairwise_cons.mp hsorted
    rw [putAll_cons]
    cases j with
    | zero =>
      obtain rfl : f = e := by simpa using hj
      rw [lookup_putAll_of_notMem _ fun e' he' => (hhead e' he').ne', lookup_put]
      simp
    | succ j =>
      have hmem : pairs[j]? = some e := by simpa using hj
      have hlt := hhead e (List.mem_of_getElem? hmem)
      have hother : ¬(e.1 = f.1 ∧ n.accepts 0 = true) := fun hk => hlt.ne' hk.1
      rw [ih _ htail hmem, accepts_put, lookup_put, if_neg hother]

/-! ## Any list of writes -/

section Writes

variable {n : DataNode} {puts : List (Bytes × Bytes)} {e f : Bytes × Bytes} {j : ℕ} {k v : Bytes}

/-- The `j`-th `PUT` is of the pair `e`, and the storage accepts it. -/
def Writes (n : DataNode) (puts : List (Bytes × Bytes)) (j : ℕ) (e : Bytes × Bytes) : Prop :=
  puts[j]? = some e ∧ n.accepts j = true

theorem not_writes_nil : ¬n.Writes [] j e := fun h => absurd h.1 (by simp)

theorem writes_cons_zero : n.Writes (f :: puts) 0 e ↔ f = e ∧ n.accepts 0 = true := by
  rw [Writes, List.getElem?_cons_zero, Option.some_inj]

theorem writes_cons_succ : n.Writes (f :: puts) (j + 1) e ↔ (n.put f.1 f.2).2.Writes puts j e := by
  rw [Writes, Writes, List.getElem?_cons_succ, accepts_put]

/-- The DataNode holds `v` under `k` after the `PUT`s: this is what the last accepted one under the
key stores, or none is accepted under the key and it held `v` before. -/
def EndsWith (n : DataNode) (puts : List (Bytes × Bytes)) (k v : Bytes) : Prop :=
  (∃ j, n.Writes puts j (k, v) ∧ ∀ j' e, n.Writes puts j' e → e.1 = k → j' ≤ j) ∨
    (n.lookup k = some v ∧ ∀ j e, n.Writes puts j e → e.1 ≠ k)

theorem endsWith_cons :
    n.EndsWith (f :: puts) k v ↔ (n.put f.1 f.2).2.EndsWith puts k v := by
  have hfirst : (n.put f.1 f.2).2.lookup k
      = if k = f.1 ∧ n.accepts 0 = true then some f.2 else n.lookup k := lookup_put n f.1 f.2 k
  constructor
  · rintro (⟨_ | j, hwrites, hlast⟩ | ⟨hv, hnone⟩)
    · -- the first pair is the last one written under the key
      obtain ⟨rfl, hok⟩ := writes_cons_zero.mp hwrites
      rw [if_pos ⟨rfl, hok⟩] at hfirst
      refine .inr ⟨hfirst, fun j e he hk => ?_⟩
      exact absurd (hlast (j + 1) e (writes_cons_succ.mpr he) hk) (Nat.not_succ_le_zero j)
    · refine .inl ⟨j, writes_cons_succ.mp hwrites, fun j' e he hk => ?_⟩
      exact Nat.le_of_succ_le_succ (hlast (j' + 1) e (writes_cons_succ.mpr he) hk)
    · have hother : ¬(k = f.1 ∧ n.accepts 0 = true) := fun h =>
        hnone 0 f (writes_cons_zero.mpr ⟨rfl, h.2⟩) h.1.symm
      rw [if_neg hother] at hfirst
      exact .inr ⟨hfirst.trans hv, fun j e he => hnone (j + 1) e (writes_cons_succ.mpr he)⟩
  · rintro (⟨j, hwrites, hlast⟩ | ⟨hv, hnone⟩)
    · refine .inl ⟨j + 1, writes_cons_succ.mpr hwrites, fun j' e he hk => ?_⟩
      cases j' with
      | zero => exact Nat.zero_le _
      | succ j' => exact Nat.succ_le_succ (hlast j' e (writes_cons_succ.mp he) hk)
    · rw [hfirst] at hv
      split_ifs at hv with hput
      · obtain ⟨rfl, hok⟩ := hput
        obtain rfl := Option.some.inj hv
        refine .inl ⟨0, writes_cons_zero.mpr ⟨rfl, hok⟩, fun j' e he hk => ?_⟩
        cases j' with
        | zero => exact le_rfl
        | succ j' => exact absurd hk (hnone j' e (writes_cons_succ.mp he))
      · refine .inr ⟨hv, fun j e he hk => ?_⟩
        cases j with
        | zero =>
          obtain ⟨rfl, hok⟩ := writes_cons_zero.mp he
          exact hput ⟨hk.symm, hok⟩
        | succ j => exact hnone j e (writes_cons_succ.mp he) hk

/-- What a list of `PUT`s leaves under a key, whichever of them are accepted. -/
theorem lookup_putAll_iff : (n.putAll puts).lookup k = some v ↔ n.EndsWith puts k v := by
  induction puts generalizing n with
  | nil =>
    refine ⟨fun hv => .inr ⟨hv, fun j e he => absurd he not_writes_nil⟩, ?_⟩
    rintro (⟨j, hwrites, -⟩ | ⟨hv, -⟩)
    · exact absurd hwrites not_writes_nil
    · exact hv
  | cons f puts ih => rw [putAll_cons, ih, endsWith_cons]

/-- Where nothing else is written under its key, a value stays. -/
theorem lookup_putAll_of_same (hv : n.lookup k = some v)
    (hsame : ∀ j e, n.Writes puts j e → e.1 = k → e.2 = v) : (n.putAll puts).lookup k = some v := by
  induction puts generalizing n with
  | nil => exact hv
  | cons f puts ih =>
    rw [putAll_cons]
    refine ih ?_ fun j e he => hsame (j + 1) e (writes_cons_succ.mpr he)
    rw [lookup_put]
    split_ifs with hput
    · rw [hsame 0 f (writes_cons_zero.mpr ⟨rfl, hput.2⟩) hput.1.symm]
    · exact hv

/-- A value is there after every part of the `PUT`s exactly when it is there before, and no other one
is written under its key. -/
theorem lookup_putAll_take_iff : (∀ i, (n.putAll (puts.take i)).lookup k = some v) ↔
    n.lookup k = some v ∧ ∀ j e, n.Writes puts j e → e.1 = k → e.2 = v := by
  have htake : ∀ {i j e}, n.Writes (puts.take i) j e ↔ n.Writes puts j e ∧ j < i := by
    intro i j e
    rw [Writes, Writes, List.getElem?_take]
    split_ifs with hlt <;> simp [hlt]
  simp only [lookup_putAll_iff]
  constructor
  · intro h
    have hstart : n.lookup k = some v := by
      rcases h 0 with ⟨j, hwrites, -⟩ | ⟨hv, -⟩
      · exact absurd (htake.mp hwrites).2 (Nat.not_lt_zero j)
      · exact hv
    refine ⟨hstart, fun j e he hk => ?_⟩
    -- after this write, it is the last one under the key
    rcases h (j + 1) with ⟨j', hwrites, hlast⟩ | ⟨-, hnone⟩
    · have hle := hlast j e (htake.mpr ⟨he, Nat.lt_succ_self j⟩) hk
      obtain ⟨hwrites, hlt⟩ := htake.mp hwrites
      obtain rfl : j = j' := le_antisymm hle (Nat.lt_succ_iff.mp hlt)
      obtain rfl := Option.some.inj (he.1.symm.trans hwrites.1)
      rfl
    · exact absurd hk (hnone j e (htake.mpr ⟨he, Nat.lt_succ_self j⟩))
  · rintro ⟨hv, hsame⟩ i
    rw [← lookup_putAll_iff]
    exact lookup_putAll_of_same hv fun j e he => hsame j e (htake.mp he).1

end Writes

end DataNode

end LeKV
