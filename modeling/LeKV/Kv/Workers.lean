import LeKV.Kv.DataNode
import LeKV.Lib.Monitor
import LeKV.Storage.Steps

/-!
# A DataNode that serves any number of connections

`BinaryRpcServer` starts a thread for every connection, and all of them call the DataNode's handlers on
one storage engine. The engine's mutex is held by `Put`, `Delete` and `DeleteRange`, not by `Get` and
`RangeQuery`. `worker` is this object: a call is a request, and its program makes the LevelDB calls of
its handler. `workers_serial` says that the requests are served as if one after the other, unless one of
them reads in the middle of a range deletion; `workers_state` says what it reads there.
-/

namespace LeKV

open Bytes BinaryProtocol Effects Prog Monitor

/-! ## What a request asks of the storage -/

/-- What a payload asks for. -/
inductive StorageRequest where
  | refused
  | put (key value : Bytes)
  | get (key : Bytes)
  | delete (key : Bytes)
  | tabletStats (start end_ : Bytes)
  | scanRange (start end_ : Bytes)
  | deleteRange (start end_ : Bytes)

namespace StorageRequest

/-- The request of `RaftNode::HandleDataNodePut`. -/
def ofPut (payload : Bytes) : Option StorageRequest := do
  if payload.length < 7 then return refused
  let keyLen ← numAt payload 1 2
  let valLen ← numAt payload 3 4
  if payload.length < (7 + keyLen + valLen) % 2 ^ 32 then return refused
  let key ← bytesAt payload 7 keyLen
  let value ← bytesAt payload (7 + keyLen) valLen
  return put key value

/-- The request of `RaftNode::HandleDataNodeGet`. -/
def ofGet (payload : Bytes) : Option StorageRequest := do
  if payload.length < 7 then return refused
  let keyLen ← numAt payload 1 2
  let valLen ← numAt payload 3 4
  if valLen ≠ 0 then return refused
  let key ← bytesAt payload 7 keyLen
  return get key

/-- The request of `RaftNode::HandleDataNodeDelete`. -/
def ofDelete (payload : Bytes) : Option StorageRequest := do
  if payload.length < 7 then return refused
  let keyLen ← numAt payload 1 2
  let valLen ← numAt payload 3 4
  if valLen ≠ 0 then return refused
  if payload.length < 7 + keyLen then return refused
  let key ← bytesAt payload 7 keyLen
  return delete key

/-- The request of a range handler. -/
def ofRange (make : Bytes → Bytes → StorageRequest) (payload : Bytes) : Option StorageRequest :=
  (DataNode.parseRange payload).map fun
    | none => refused
    | some (start, end_) => make start end_

/-- The request of a payload; `none` is a read outside the payload. -/
def ofPayload : Bytes → Option StorageRequest
  | [] => some refused
  | opcode :: rest =>
    if opcode = OP_PUT then ofPut (opcode :: rest)
    else if opcode = OP_GET then ofGet (opcode :: rest)
    else if opcode = OP_DELETE then ofDelete (opcode :: rest)
    else if opcode = OP_TABLET_STATS then ofRange tabletStats (opcode :: rest)
    else if opcode = OP_SCAN_RANGE then ofRange scanRange (opcode :: rest)
    else if opcode = OP_DELETE_RANGE then ofRange deleteRange (opcode :: rest)
    else some refused

/-- The reply of a DataNode, and its state afterwards. -/
def answer : StorageRequest → DataNode → Bytes × DataNode
  | refused, n => ([ST_BAD_REQUEST], n)
  | put key value, n => n.put key value
  | get key, n => n.get key
  | delete key, n => n.delete key
  | tabletStats start end_, n => n.tabletStats start end_
  | scanRange start end_, n => n.scanRange start end_
  | deleteRange start end_, n => n.deleteRange start end_

section Handlers

variable (payload : Bytes) (n : DataNode)

theorem handleDataNodePut_eq :
    DataNode.handleDataNodePut payload n = (ofPut payload).map (·.answer n) := by
  unfold DataNode.handleDataNodePut ofPut
  simp only [Option.bind_eq_bind, apply_ite (Option.map _), Option.map_bind, Function.comp_def]
  rfl

theorem handleDataNodeGet_eq :
    DataNode.handleDataNodeGet payload n = (ofGet payload).map (·.answer n) := by
  unfold DataNode.handleDataNodeGet ofGet
  simp only [Option.bind_eq_bind, apply_ite (Option.map _), Option.map_bind, Function.comp_def]
  rfl

theorem handleDataNodeDelete_eq :
    DataNode.handleDataNodeDelete payload n = (ofDelete payload).map (·.answer n) := by
  unfold DataNode.handleDataNodeDelete ofDelete
  simp only [Option.bind_eq_bind, apply_ite (Option.map _), Option.map_bind, Function.comp_def]
  rfl

theorem handleRange_eq (make : Bytes → Bytes → StorageRequest) :
    DataNode.handleRange (fun n start end_ => (make start end_).answer n) payload n
      = (ofRange make payload).map (·.answer n) := by
  unfold DataNode.handleRange ofRange
  rcases DataNode.parseRange payload with _ | _ | ⟨start, end_⟩ <;> rfl

/-- A DataNode answers what the payload asks for. -/
theorem handleBinaryRequest_eq (reqId : UInt32) :
    DataNode.handleBinaryRequest reqId payload n = (ofPayload payload).map (·.answer n) := by
  unfold DataNode.handleBinaryRequest ofPayload
  cases payload with
  | nil => rfl
  | cons opcode rest =>
    simp only [apply_ite (Option.map _), handleDataNodePut_eq, handleDataNodeGet_eq,
      handleDataNodeDelete_eq, ← handleRange_eq]
    rfl

end Handlers

/-- The payload that the clients build asks for its pair to be stored. -/
theorem ofPayload_put {key value : Bytes} (hkey : key.length < 2 ^ 16)
    (hfit : 7 + key.length + value.length < 2 ^ 32) :
    ofPayload (kvPayload OP_PUT key value) = some (put key value) := by
  show ofPut (kvPayload OP_PUT key value) = _
  unfold ofPut
  rw [length_kvPayload, if_neg (by omega), DataNode.numAt_kvPayload_key OP_PUT value hkey,
    DataNode.numAt_kvPayload_value OP_PUT key (by omega : value.length < 2 ^ 32)]
  simp only [Option.bind_eq_bind, Option.bind_some, Nat.mod_eq_of_lt hfit, lt_irrefl, if_false,
    DataNode.bytesAt_kvPayload_key, DataNode.bytesAt_kvPayload_value]
  rfl

/-- The payload that the clients build asks for the value of its key. -/
theorem ofPayload_get {key : Bytes} (hkey : key.length < 2 ^ 16) :
    ofPayload (kvPayload OP_GET key []) = some (get key) := by
  show ofGet (kvPayload OP_GET key []) = _
  unfold ofGet
  rw [length_kvPayload, if_neg (by omega), DataNode.numAt_kvPayload_key OP_GET [] hkey,
    DataNode.numAt_kvPayload_value OP_GET key (by simp)]
  simp only [Option.bind_eq_bind, Option.bind_some, List.length_nil, ne_eq, not_true_eq_false,
    if_false, DataNode.bytesAt_kvPayload_key]
  rfl

theorem ofPayload_deleteRange {start end_ : Bytes} (hstart : start.length < 2 ^ 16)
    (hend : end_.length < 2 ^ 16) :
    ofPayload (rangePayload OP_DELETE_RANGE start end_) = some (deleteRange start end_) := by
  show ofRange deleteRange (rangePayload OP_DELETE_RANGE start end_) = _
  rw [ofRange, DataNode.parseRange_rangePayload hstart hend]
  rfl

/-! ## The handlers' programs -/

/-- The LevelDB calls of a request, and its reply. -/
def prog : StorageRequest → Prog LevelDb Bytes
  | refused => return [ST_BAD_REQUEST]
  | put key value => do
    let ok ← LevelDb.put key value
    return [if ok then ST_OK else ST_TIMEOUT]
  | get key => do
    match ← LevelDb.get key with
    | some value => return ST_OK :: value
    | none => return [ST_NOT_FOUND]
  | delete key => do
    let ok ← LevelDb.delete key
    return [if ok then ST_OK else ST_TIMEOUT]
  | tabletStats start end_ => do
    let stats ← LevelDb.rangeStats start end_
    return ST_OK :: (be 4 stats.1 ++ (be 2 stats.2.length ++ stats.2))
  | scanRange start end_ => do
    let pairs ← LevelDb.rangeQuery start end_
    return ST_OK :: DataNode.scanBody pairs
  | deleteRange start end_ => do
    let ok ← LevelDb.deleteRange start end_
    return [if ok then ST_OK else ST_TIMEOUT]

/-- The requests whose storage function takes the mutex. -/
def locked : StorageRequest → Bool
  | put .. | delete _ | deleteRange .. => true
  | _ => false

/-- A handler that runs alone replies as the DataNode does. -/
theorem run_prog (r : StorageRequest) (s : StorageEngine) : ∃ s',
    run LevelDb.handler r.prog s = (some (r.answer ⟨some s⟩).1, s') ∧ (r.answer ⟨some s⟩).2 = ⟨some s'⟩ := by
  cases r with
  | refused => exact ⟨s, rfl, rfl⟩
  | put key value => exact ⟨(s.put key value).2, rfl, rfl⟩
  | get key =>
    refine ⟨s, ?_⟩
    show run LevelDb.handler (match s.get key with
        | some value => .ret (ST_OK :: value)
        | none => .ret [ST_NOT_FOUND]) s = (some (DataNode.get ⟨some s⟩ key).1, s) ∧
      (DataNode.get ⟨some s⟩ key).2 = ⟨some s⟩
    unfold DataNode.get
    cases hget : s.get key <;> simp [hget]
  | delete key => exact ⟨(s.delete key).2, rfl, rfl⟩
  | tabletStats start end_ => exact ⟨s, rfl, rfl⟩
  | scanRange start end_ => exact ⟨s, rfl, rfl⟩
  | deleteRange start end_ =>
    refine ⟨(s.deleteRange start end_).2, ?_, rfl⟩
    show run LevelDb.handler (LevelDb.deleteRange start end_ >>= _) s = _
    rw [run_bind_some LevelDb.handler (LevelDb.run_deleteRange s start end_)]
    rfl

/-- A request that takes no lock only looks. -/
theorem uses_prog {r : StorageRequest} (h : r.locked = false) :
    r.prog.Uses fun o => ∀ s res s', LevelDb.handler o s = some (res, s') → s' = s := by
  cases r with
  | put key value | delete key | deleteRange start end_ => cases h
  | refused => exact trivial
  | get key =>
    refine ⟨fun s res s' hop => ?_, fun value => ?_⟩
    · cases hop
      rfl
    · cases value <;> exact trivial
  | tabletStats start end_ | scanRange start end_ =>
    refine ⟨fun s res s' hop => ?_, fun db => trivial⟩
    cases hop
    rfl

/-- Every request but a range deletion makes at most one call. -/
theorem single_prog {r : StorageRequest} (h : ∀ start end_, r ≠ deleteRange start end_) :
    SingleOp r.prog := by
  cases r with
  | deleteRange start end_ => exact absurd rfl (h start end_)
  | refused => exact .inl ⟨_, rfl⟩
  | get key =>
    refine .inr ⟨.get key, _, rfl, fun value => ?_⟩
    cases value <;> exact ⟨_, rfl⟩
  | put key value | delete key | tabletStats start end_ | scanRange start end_ =>
    exact .inr ⟨_, _, rfl, fun _ => ⟨_, rfl⟩⟩

end StorageRequest

/-! ## The worker threads -/

/-- A DataNode as its worker threads see it: a call is a request's id and payload, its result the
handler's reply, `none` for a read outside the payload. -/
def worker : Object LevelDb StorageEngine (UInt32 × Bytes) (Option Bytes) where
  handler := LevelDb.handler
  body c :=
    match StorageRequest.ofPayload c.2 with
    | none => .ret none
    | some r => do
      let reply ← r.prog
      return some reply
  locked c := (StorageRequest.ofPayload c.2).any StorageRequest.locked

theorem body_of_request {c : UInt32 × Bytes} {r : StorageRequest}
    (h : StorageRequest.ofPayload c.2 = some r) :
    worker.body c = r.prog >>= fun reply => .ret (some reply) := by
  simp only [worker, h]
  rfl

theorem body_of_none {c : UInt32 × Bytes} (h : StorageRequest.ofPayload c.2 = none) :
    worker.body c = .ret none := by
  simp only [worker, h]

/-- A DataNode that handles one request after the other: the replies, and its last state. -/
def DataNode.handleAll : List (UInt32 × Bytes) → DataNode → List (Option Bytes) × DataNode
  | [], n => ([], n)
  | (reqId, payload) :: requests, n =>
    match DataNode.handleBinaryRequest reqId payload n with
    | none => (none :: (handleAll requests n).1, (handleAll requests n).2)
    | some (reply, n') => (some reply :: (handleAll requests n').1, (handleAll requests n').2)

/-- Alone, a worker handles its request as the DataNode does. -/
theorem run_body (c : UInt32 × Bytes) (s : StorageEngine) : ∃ r s',
    run worker.handler (worker.body c) s = (some r, s') ∧
    r = (DataNode.handleBinaryRequest c.1 c.2 ⟨some s⟩).map Prod.fst ∧ ∀ requests,
      DataNode.handleAll (c :: requests) ⟨some s⟩
        = (r :: (DataNode.handleAll requests ⟨some s'⟩).1, (DataNode.handleAll requests ⟨some s'⟩).2) := by
  obtain ⟨reqId, payload⟩ := c
  cases hrequest : StorageRequest.ofPayload payload with
  | none =>
    refine ⟨none, s, ?_, ?_, fun requests => ?_⟩
    · rw [body_of_none hrequest]
      rfl
    · rw [StorageRequest.handleBinaryRequest_eq, hrequest]
      rfl
    · rw [DataNode.handleAll, StorageRequest.handleBinaryRequest_eq, hrequest]
      rfl
  | some r =>
    obtain ⟨s', hrun, hstate⟩ := r.run_prog s
    refine ⟨some (r.answer ⟨some s⟩).1, s', ?_, ?_, fun requests => ?_⟩
    · rw [body_of_request hrequest, run_bind_some worker.handler hrun]
      rfl
    · rw [StorageRequest.handleBinaryRequest_eq, hrequest]
      rfl
    · rw [DataNode.handleAll, StorageRequest.handleBinaryRequest_eq, hrequest, ← hstate]
      rfl

/-- Calls one after the other give what the DataNode gives. -/
theorem handleAll_of_replays {T : Type} {l : List (T × (UInt32 × Bytes) × Option Bytes)}
    {s s' : StorageEngine} (h : worker.Replays l s s') :
    DataNode.handleAll (l.map fun e => e.2.1) ⟨some s⟩ = (l.map fun e => e.2.2, ⟨some s'⟩) := by
  induction l generalizing s with
  | nil =>
    obtain rfl : s' = s := h
    rfl
  | cons e l ih =>
    obtain ⟨s₁, hrun, h⟩ := h
    obtain ⟨r, s₂, hbody, -, hall⟩ := run_body e.2.1 s
    obtain ⟨hr, rfl⟩ := Prod.mk.inj (hrun.symm.trans hbody)
    rw [List.map_cons, hall, ih h, ← Option.some.inj hr]
    rfl

theorem locked_worker {c : UInt32 × Bytes} (h : worker.locked c = false) {r : StorageRequest}
    (hr : StorageRequest.ofPayload c.2 = some r) : r.locked = false := by
  simpa [worker, hr] using h

/-- A request that deletes a range. -/
def DeletesRange (payload : Bytes) : Prop :=
  ∃ start end_, StorageRequest.ofPayload payload = some (.deleteRange start end_)

theorem single_body {c : UInt32 × Bytes} (h : ¬DeletesRange c.2) : SingleOp (worker.body c) := by
  cases hrequest : StorageRequest.ofPayload c.2 with
  | none => exact .inl ⟨none, body_of_none hrequest⟩
  | some r =>
    have hsingle : SingleOp r.prog :=
      StorageRequest.single_prog fun start end_ hr => h ⟨start, end_, hrequest.trans (congrArg some hr)⟩
    rw [body_of_request hrequest]
    exact hsingle.map some

theorem readersRead_worker {kept : UInt32 × Bytes → Bool}
    (hkept : ∀ c, worker.locked c = true → kept c = true) : ReadersRead worker kept where
  locked := hkept
  reads c hlocked := by
    cases hrequest : StorageRequest.ofPayload c.2 with
    | none =>
      rw [body_of_none hrequest]
      exact trivial
    | some r =>
      rw [body_of_request hrequest]
      exact (r.uses_prog (locked_worker hlocked hrequest)).bind fun _ => trivial
  single c hlocked _ := by
    refine single_body fun ⟨start, end_, hrequest⟩ => ?_
    exact absurd (locked_worker hlocked hrequest) (by simp [StorageRequest.locked])

/-! ## The requests of a connection -/

/-- What a connection brings: the outcomes of `recv`, and of sending the responses. -/
structure Inbound where
  evs : List Recv
  sends : List Bool

/-- The requests that `BinaryRpcServer::HandleClient` decodes. -/
def Inbound.requests (c : Inbound) : List (UInt32 × Bytes) :=
  (handleClient (fun _ payload _ => (StorageRequest.ofPayload payload).map fun _ => ([], ())) ()
    [] c.evs c.sends).decoded

/-- The requests do not depend on what is replied, only on where a handler reads outside its payload. -/
theorem decoded_congr {σ τ : Type} {h : BinaryHandler σ} {h' : BinaryHandler τ}
    (hsame : ∀ reqId payload s s', (h reqId payload s).isSome = (h' reqId payload s').isSome) (s : σ)
    (s' : τ) (buf : Bytes) (evs : List Recv) (sends : List Bool) :
    (handleClient h s buf evs sends).decoded = (handleClient h' s' buf evs sends).decoded := by
  generalize hn : buf.length + (Recv.bytes evs).length = n
  induction n using Nat.strong_induction_on generalizing s s' buf evs sends with
  | _ n ih =>
    cases hread : readFrame 5000 buf evs with
    | noData b rest => rw [handleClient_noData hread, handleClient_noData hread]; rfl
    | badLength b rest => rw [handleClient_badLength hread, handleClient_badLength hread]; rfl
    | frame f b rest =>
      have hlt := hn ▸ readFrame_size hread
      rw [handleClient_read hread, handleClient_read hread, serveFrame, serveFrame]
      rcases hdec : tryDecode f with _ | ⟨c⟩ | ⟨c, reqId, payload⟩
      · rfl
      · exact ih _ hlt s s' b rest sends rfl
      · have hdefined := hsame reqId payload s s'
        dsimp only
        cases hh : h reqId payload s with
        | none =>
          rw [hh] at hdefined
          rw [Option.isSome_eq_false_iff.mp hdefined.symm |> Option.isNone_iff_eq_none.mp]
          rfl
        | some r =>
          rw [hh] at hdefined
          obtain ⟨r', hh'⟩ := Option.isSome_iff_exists.mp hdefined.symm
          rw [hh']
          by_cases hsend : sends.headD true = true
          · simp only [if_pos hsend]
            rw [Session.decoded_after, Session.decoded_after, ih _ hlt _ _ b rest sends.tail rfl]
          · simp only [if_neg hsend]
            rfl

/-- A DataNode in any state decodes these requests. -/
theorem decoded_eq_requests (c : Inbound) (n : DataNode) :
    (handleClient DataNode.handleBinaryRequest n [] c.evs c.sends).decoded = c.requests := by
  refine decoded_congr (fun reqId payload s s' => ?_) n () [] c.evs c.sends
  rw [StorageRequest.handleBinaryRequest_eq, Option.isSome_map, Option.isSome_map]

/-! ## All connections together -/

section Runs

variable {T : Type} [DecidableEq T] {conns : T → Inbound} {s₀ : StorageEngine}
  {s s' : State LevelDb StorageEngine T (UInt32 × Bytes) (Option Bytes)}

/-- The worker `t` does not make a read while a range deletion is half-way. -/
abbrev ReadsCalm (s : State LevelDb StorageEngine T (UInt32 × Bytes) (Option Bytes)) (t : T) : Prop :=
  LooksCalm worker (fun _ => true) s t

/-- The connections at the start: each worker will handle the requests that its connection brings. -/
abbrev accepted (conns : T → Inbound) (s₀ : StorageEngine) :
    State LevelDb StorageEngine T (UInt32 × Bytes) (Option Bytes) :=
  .init s₀ fun t => (conns t).requests

/-- The DataNode serves its connections as if it handled all requests one after the other. -/
structure ServedInOrder (conns : T → Inbound) (s₀ : StorageEngine)
    (s : State LevelDb StorageEngine T (UInt32 × Bytes) (Option Bytes)) : Prop where
  replies : ∃ n, DataNode.handleAll (s.log.map fun e => e.2.1) ⟨some s₀⟩
      = (s.log.map fun e => e.2.2, ⟨some n⟩) ∧ (worker.Calm s → s.shared = n)
  order : ∀ t, (s.logOf t).map Prod.fst <+: (conns t).requests
  returned : ∀ t, s.returned t <+: s.logOf t

theorem servedInOrder (h : worker.Reach ReadsCalm (accepted conns s₀) s) :
    ServedInOrder conns s₀ s := by
  obtain ⟨n, hserial⟩ := reach_serial (readersRead_worker fun _ _ => rfl) h
  have horder := reach_inOrder h
  refine ⟨⟨n, ?_, fun hcalm => hserial.shared_of_calm hcalm⟩, fun t => ?_, fun t => ?_⟩
  · have hreplays := hserial.replays
    rw [List.filter_true] at hreplays
    exact handleAll_of_replays hreplays
  · exact ⟨_, horder.calls t⟩
  · rw [horder.results t]
    exact List.prefix_append _ _

/-- Workers stop only when every request has been answered. -/
theorem all_returned {ok : State LevelDb StorageEngine T (UInt32 × Bytes) (Option Bytes) → T → Prop}
    (h : worker.Reach ok (accepted conns s₀) s) (hstop : ∀ t s', ¬worker.Step t s s') (t : T) :
    (s.returned t).map Prod.fst = (conns t).requests := by
  have htotal : ∀ o x, worker.handler o x ≠ none := fun o x => by
    cases o <;> exact Option.some_ne_none _
  rcases progress htotal s with hdone | ⟨t', s', hstep⟩
  · obtain ⟨hidle, htodo⟩ := hdone t
    have hcalls := (reach_inOrder h).calls t
    rw [(reach_inOrder h).results t, hidle, htodo] at hcalls
    simpa [Phase.pending, Phase.leaving] using hcalls
  · exact absurd hstep (hstop t' s')

/-- Any number of connections: whatever they bring, and however their workers' steps interleave, one
order of all the requests explains all the replies. Each connection's requests keep their order in it,
and a request that was answered before another one came stands before that one. The workers stop only
when every request has been answered. -/
theorem workers_serial (h : worker.Reach ReadsCalm (accepted conns s₀) s)
    (h' : worker.Reach ReadsCalm s s') : ServedInOrder conns s₀ s' ∧ s.log <+: s'.log ∧
      ((∀ t s'', ¬worker.Step t s' s'') → ∀ t, (s'.returned t).map Prod.fst = (conns t).requests) :=
  ⟨servedInOrder (h.trans h'), log_prefix h', all_returned (h.trans h')⟩

/-- A connection with one request. -/
def oneRequest (reqId : UInt32) (payload : Bytes) : Inbound :=
  ⟨[.data (encodeCustomRequest reqId payload)], []⟩

theorem requests_oneRequest (reqId : UInt32) {payload : Bytes} (hfit : 10 + payload.length < 2 ^ 32)
    (hdefined : (StorageRequest.ofPayload payload).isSome) :
    (oneRequest reqId payload).requests = [(reqId, payload)] := by
  obtain ⟨r, hr⟩ := Option.isSome_iff_exists.mp hdefined
  have hchunks := handleClient_chunks
    (fun _ payload _ => (StorageRequest.ofPayload payload).map fun _ => ([], ())) () []
    [encodeCustomRequest reqId payload] []
  rw [Inbound.requests, oneRequest]
  refine hchunks.decoded.trans ?_
  rw [List.flatten_cons, List.flatten_nil, List.append_nil, List.nil_append,
    serveBytes_one hfit (by rw [hr]; rfl)]
  rfl

/-- Without range deletions no worker reads half-way. -/
theorem readsCalm_of_not_deletesRange (hno : ∀ t, ∀ c ∈ (conns t).requests, ¬DeletesRange c.2)
    {ok : State LevelDb StorageEngine T (UInt32 × Bytes) (Option Bytes) → T → Prop}
    (h : worker.Reach ok (accepted conns s₀) s) (t : T) : ReadsCalm s t := fun _ _ _ _ _ _ _ =>
  reach_calm h fun t c hc _ => single_body (hno t c hc)

/-- One connection brings a write, the other a read of its key. -/
def writeAndRead : Bool → Inbound
  | true => oneRequest 1 (kvPayload OP_PUT [0x61] [0x62])
  | false => oneRequest 2 (kvPayload OP_GET [0x61] [])

/-- The read takes place after the write's LevelDB call, and it is answered first. -/
theorem workers_serial_writeAndRead : ∃ s, ServedInOrder writeAndRead .fresh s ∧
    s.returned true = [((1, kvPayload OP_PUT [0x61] [0x62]), some [ST_OK])] ∧
    s.returned false = [((2, kvPayload OP_GET [0x61] []), some [ST_OK, 0x62])] := by
  have hput : StorageRequest.ofPayload (kvPayload OP_PUT [0x61] [0x62])
      = some (.put [0x61] [0x62]) := StorageRequest.ofPayload_put (by simp) (by simp)
  have hget : StorageRequest.ofPayload (kvPayload OP_GET [0x61] []) = some (.get [0x61]) :=
    StorageRequest.ofPayload_get (by simp)
  have htrue : (writeAndRead true).requests = [(1, kvPayload OP_PUT [0x61] [0x62])] :=
    requests_oneRequest 1
      (by rw [length_kvPayload]; norm_num : 10 + (kvPayload OP_PUT [0x61] [0x62]).length < 2 ^ 32)
      (by rw [hput]; rfl)
  have hfalse : (writeAndRead false).requests = [(2, kvPayload OP_GET [0x61] [])] :=
    requests_oneRequest 2
      (by rw [length_kvPayload]; norm_num : 10 + (kvPayload OP_GET [0x61] []).length < 2 ^ 32)
      (by rw [hget]; rfl)
  have hno : ∀ t, ∀ c ∈ (writeAndRead t).requests, ¬DeletesRange c.2 := by
    rintro (_ | _) c hc ⟨start, end_, hdeletes⟩
    · rw [hfalse, List.mem_singleton] at hc
      rw [hc, hget] at hdeletes
      cases hdeletes
    · rw [htrue, List.mem_singleton] at hc
      rw [hc, hput] at hdeletes
      cases hdeletes
  have hbodyPut : worker.body (1, kvPayload OP_PUT [0x61] [0x62])
      = .op (.put [0x61] [0x62]) fun ok : Bool => .ret (some [if ok then ST_OK else ST_TIMEOUT]) := by
    rw [body_of_request (c := (1, kvPayload OP_PUT [0x61] [0x62])) hput]
    rfl
  have hbodyGet : worker.body (2, kvPayload OP_GET [0x61] [])
      = .op (.get [0x61]) fun value : Option Bytes =>
        (match value with
          | some value => .ret (ST_OK :: value)
          | none => .ret [ST_NOT_FOUND]) >>= fun reply => .ret (some reply) := by
    rw [body_of_request (c := (2, kvPayload OP_GET [0x61] [])) hget]
    rfl
  obtain ⟨s, hstarted, hwriter, hreader, hshared, hreturned⟩ : ∃ s,
      worker.Reach (fun _ _ => True) (accepted writeAndRead .fresh) s ∧
      s.phase true = .running (1, kvPayload OP_PUT [0x61] [0x62]) false (worker.body _) ∧
      s.phase false = .running (2, kvPayload OP_GET [0x61] []) false (worker.body _) ∧
      s.shared = .fresh ∧ s.returned = fun _ => [] := by
    refine ⟨_, .step (.step (.step (.step .refl trivial (.call (t := true) rfl htrue))
      trivial (.call (t := false) rfl hfalse))
      trivial (.start (t := true) rfl fun _ t c b p hrunning => ?_))
      trivial (.start (t := false) rfl fun hlocked => ?_), rfl, rfl, rfl, rfl⟩
    · cases t <;> cases hrunning
    · simp [worker, hget, StorageRequest.locked] at hlocked
  -- The write's call is made, and its worker has not answered.
  obtain ⟨s', hwritten, hwriter', hreader', hshared', hreturned'⟩ : ∃ s',
      worker.Reach (fun _ _ => True) s s' ∧
      s'.phase true = .running (1, kvPayload OP_PUT [0x61] [0x62]) true (.ret (some [ST_OK])) ∧
      s'.phase false = s.phase false ∧
      s'.shared = (StorageEngine.fresh.put [0x61] [0x62]).2 ∧ s'.returned = s.returned := by
    refine ⟨_, .step .refl trivial (.op (r := true) (x := (StorageEngine.fresh.put [0x61] [0x62]).2)
      (hwriter.trans (congrArg (Phase.running _ false) hbodyPut)) ?_), phase_goOn,
      phase_goOn_of_ne (by decide), rfl, rfl⟩
    rw [hshared]
    rfl
  obtain ⟨s'', hread, hreturned''⟩ : ∃ s'', worker.Reach (fun _ _ => True) s' s'' ∧
      s''.returned = Function.update (Function.update s'.returned false (s'.returned false ++
        [((2, kvPayload OP_GET [0x61] []), some [ST_OK, 0x62])])) true (s'.returned true ++
        [((1, kvPayload OP_PUT [0x61] [0x62]), some [ST_OK])]) := by
    refine ⟨_, .step (.step (.step .refl trivial (.op (t := false)
      (r := (some [0x62] : Option Bytes)) (x := (StorageEngine.fresh.put [0x61] [0x62]).2)
      ((hreader'.trans hreader).trans (congrArg (Phase.running _ false) hbodyGet)) ?_)) trivial
      (.finish (t := false) (a := some [ST_OK, 0x62]) phase_goOn)) trivial
      (.finish (t := true) (a := some [ST_OK]) hwriter'), rfl⟩
    rw [hshared']
    rfl
  refine ⟨s'', (workers_serial
    ((hstarted.trans hwritten).always fun _ h => readsCalm_of_not_deletesRange hno h)
    (hread.always fun _ h => readsCalm_of_not_deletesRange hno
      ((hstarted.trans hwritten).trans h))).1, ?_, ?_⟩ <;>
    · rw [hreturned'', hreturned', hreturned]
      rfl

/-- Without range deletions nothing can be read half-way. -/
theorem workers_serial_of_not_deletesRange
    (hno : ∀ t, ∀ c ∈ (conns t).requests, ¬DeletesRange c.2)
    (h : worker.Reach (fun _ _ => True) (accepted conns s₀) s) : ServedInOrder conns s₀ s :=
  servedInOrder (h.always fun _ h₁ => readsCalm_of_not_deletesRange hno h₁)

/-- Some first keys of a range have been deleted. -/
structure PartlyDeleted (n : StorageEngine) (start end_ : Bytes) (x : StorageEngine) : Prop where
  keys : ∃ done, done <+: (n.rangeQuery start end_).map Prod.fst ∧ x = LevelDb.deleted n done
  values : ∀ k, x.get k = n.get k ∨ (start ≤ k ∧ (end_ = [] ∨ k < end_)) ∧ x.get k = none

theorem partlyDeleted_of_mem_trace {n x : StorageEngine} {start end_ : Bytes}
    (h : x ∈ trace LevelDb.handler (LevelDb.deleteRange start end_) n) :
    PartlyDeleted n start end_ x := by
  obtain ⟨done, hdone, rfl⟩ := LevelDb.mem_trace_deleteRange.mp h
  refine ⟨⟨done, hdone, rfl⟩, fun k => ?_⟩
  rcases LevelDb.find?_deleted n done k with hsame | ⟨hmem, hgone⟩
  · exact .inl hsame
  · obtain ⟨e, he, rfl⟩ := List.mem_map.mp (hdone.subset hmem)
    exact .inr ⟨(StorageEngine.mem_rangeQuery.mp he).2, hgone⟩

theorem trace_body_deleteRange {c : UInt32 × Bytes} {start end_ : Bytes}
    (h : StorageRequest.ofPayload c.2 = some (.deleteRange start end_)) (n : StorageEngine) :
    trace worker.handler (worker.body c) n
      = trace LevelDb.handler (LevelDb.deleteRange start end_) n := by
  rw [body_of_request h, trace_map]
  exact trace_map _ (LevelDb.deleteRange start end_) _ n

/-- The writes are serial, and the store is as they have left it, less some first keys of a range that
is being deleted. A read replies for the store as it is then. -/
structure WrittenInOrder (s₀ : StorageEngine)
    (s : State LevelDb StorageEngine T (UInt32 × Bytes) (Option Bytes)) : Prop where
  writes : ∃ n,
    DataNode.handleAll ((s.log.filter fun e => worker.locked e.2.1).map fun e => e.2.1) ⟨some s₀⟩
        = ((s.log.filter fun e => worker.locked e.2.1).map fun e => e.2.2, ⟨some n⟩) ∧
      (s.shared = n ∨ ∃ t c b p start end_, s.phase t = .running c b p ∧
        StorageRequest.ofPayload c.2 = some (.deleteRange start end_) ∧
        PartlyDeleted n start end_ s.shared)
  reads : ∀ t c b o k, s.phase t = .running c b (.op o k) → worker.locked c = false →
    run worker.handler (.op o k) s.shared
      = (some ((DataNode.handleBinaryRequest c.1 c.2 ⟨some s.shared⟩).map Prod.fst), s.shared)

/-- What the store holds at any moment of any run, also where reads fall into a range deletion. -/
theorem workers_state (h : worker.Reach (fun _ _ => True) (accepted conns s₀) s) :
    WrittenInOrder s₀ s := by
  have hread : ReadersRead worker worker.locked := readersRead_worker fun _ hlocked => hlocked
  have hbegun : Begun worker s := reach_begun h
  have hlooks : ∀ s₁, worker.Reach (fun _ _ => True) (accepted conns s₀) s₁ →
      ∀ t, LooksCalm worker worker.locked s₁ t :=
    fun s₁ _ t c b o k _ hfree hlocked => absurd hlocked (by simp [hfree])
  obtain ⟨n, hserial⟩ := reach_serial hread (h.always hlooks)
  refine ⟨⟨n, handleAll_of_replays hserial.replays, ?_⟩, fun t c b o k hrunning hfree => ?_⟩
  · by_cases hsettled : ∀ t c b o k, s.phase t = .running c b (.op o k) → worker.locked c = false
    · exact .inl (hserial.settled hsettled)
    push Not at hsettled
    obtain ⟨t, c, b, o, k, hrunning, hlocked⟩ := hsettled
    obtain ⟨htrace, -, hfirst⟩ := hserial.holder hrunning (by simpa using hlocked)
    by_cases hdelete : DeletesRange c.2
    · obtain ⟨start, end_, hrequest⟩ := hdelete
      refine .inr ⟨t, c, b, _, start, end_, hrunning, hrequest, partlyDeleted_of_mem_trace ?_⟩
      rw [← trace_body_deleteRange hrequest]
      exact htrace.subset (self_mem_trace _ _ _)
    · exact .inl (hfirst (hbegun.not_begun hrunning (single_body hdelete)))
  · have hsingle : SingleOp (worker.body c) := single_body fun ⟨start, end_, hrequest⟩ =>
      absurd (locked_worker hfree hrequest) (by simp [StorageRequest.locked])
    obtain ⟨r, s', hrun, hr, -⟩ := run_body c s.shared
    have hstate : s' = s.shared := by
      rw [← (hread.reads c hfree).run_snd s.shared, hrun]
    rw [hbegun.body_of_single hrunning hsingle, hrun, hr, hstate]

/-- A store with two keys. -/
def twoKeys : StorageEngine := ((StorageEngine.fresh.put [0x61] [0x31]).2.put [0x62] [0x32]).2

/-- In the middle of the deletion of all keys, the first of two keys is gone and the second is there. -/
theorem workers_state_halfway : ∃ s : State LevelDb StorageEngine Bool (UInt32 × Bytes) (Option Bytes),
    WrittenInOrder twoKeys s ∧ s.shared.get [0x61] = none ∧ s.shared.get [0x62] = some [0x32] := by
  have hrequest := StorageRequest.ofPayload_deleteRange
    (by simp : ([] : Bytes).length < 2 ^ 16) (by simp : ([] : Bytes).length < 2 ^ 16)
  have hreq := requests_oneRequest 1
    (by rw [length_rangePayload]; norm_num : 10 + (rangePayload OP_DELETE_RANGE [] []).length < 2 ^ 32)
    (by rw [hrequest]; rfl)
  obtain ⟨s₁, hreach₁, halone, hrunning, hshared⟩ :
    ∃ s', worker.Reach (LooksCalm worker fun _ => true) _ s' ∧ _ := reach_started (t := true)
      (s := accepted (fun _ : Bool => oneRequest 1 (rangePayload OP_DELETE_RANGE [] [])) twoKeys)
      (fun _ => rfl) hreq
  have hmem : LevelDb.deleted twoKeys [[0x61]]
      ∈ trace worker.handler (worker.body (1, rangePayload OP_DELETE_RANGE [] [])) s₁.shared := by
    rw [trace_body_deleteRange (c := (1, rangePayload OP_DELETE_RANGE [] [])) hrequest, hshared]
    exact LevelDb.mem_trace_deleteRange.mpr ⟨[[0x61]], ⟨[[0x62]], by decide +kernel⟩, rfl⟩
  obtain ⟨s, hreach, hhalf⟩ : ∃ s', worker.Reach (LooksCalm worker fun _ => true) s₁ s' ∧ _ :=
    reach_trace halone hrunning hmem
  refine ⟨s, workers_state ((hreach₁.trans hreach).always fun _ _ _ => trivial), ?_, ?_⟩ <;>
    · rw [hhalf]
      rfl

end Runs

end LeKV
