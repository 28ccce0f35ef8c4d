import LeKV.Cli.PythonFrames

/-!
# What a call does, whatever it is answered

Here the network is any `PyEnvironment`: connections may fail, replies may be late, wrong or missing.
`call_conduct` says what a call of the Python client does in all of them. It closes every socket that it
connects; what it sends is an initial part of one list of requests, of which the second half is for the
case that the first DataNode answers `NOT_MY_SHARD`; and it returns nothing that was not in a reply to
the last request it sent.
-/

namespace LeKV.LekvClient

open Bytes BinaryProtocol Effects

/-! ## Histories -/

abbrev PyEvent : Type := Event pySig

/-- The socket that an event opens. -/
def opened? : PyEvent → Option ℕ
  | ⟨.connect _ _, .ok sock⟩ => some sock
  | _ => none

/-- The socket that an event closes. -/
def closed? : PyEvent → Option ℕ
  | ⟨.close sock, _⟩ => some sock
  | _ => none

/-- What an event sends. -/
def sent? : PyEvent → Option Bytes
  | ⟨.sendall _ data, _⟩ => some data
  | _ => none

/-- The frame that an event brings back. -/
def received? : PyEvent → Option (ℕ × Bytes)
  | ⟨.recvFrame _, .ok frame⟩ => some frame
  | _ => none

def opened (l : List PyEvent) : List ℕ := l.filterMap opened?
def closed (l : List PyEvent) : List ℕ := l.filterMap closed?
def sent (l : List PyEvent) : List Bytes := l.filterMap sent?
def received (l : List PyEvent) : List (ℕ × Bytes) := l.filterMap received?

@[simp] theorem opened_append (l l' : List PyEvent) : opened (l ++ l') = opened l ++ opened l' :=
  List.filterMap_append

@[simp] theorem closed_append (l l' : List PyEvent) : closed (l ++ l') = closed l ++ closed l' :=
  List.filterMap_append

@[simp] theorem sent_append (l l' : List PyEvent) : sent (l ++ l') = sent l ++ sent l' :=
  List.filterMap_append

@[simp] theorem received_append (l l' : List PyEvent) :
    received (l ++ l') = received l ++ received l' :=
  List.filterMap_append

/-- The attributes change with the client's own operations only. -/
def attributes : Rely pySig LekvClient := fun o c r c' =>
  match o, r with
  | .get, r => r = c ∧ c' = c
  | .modify f, _ => c' = f c
  | _, _ => c' = c

/-- `Q` holds of what `p` does, of the attributes it leaves and of how it ends. -/
def Conducts {α : Type} (p : Py α) (c : LekvClient)
    (Q : List PyEvent → LekvClient → Except PyError α → Prop) : Prop :=
  Prog.Along attributes p.run c fun l c' x =>
    match x with
    | none => True
    | some r => Q l c' r

section Rules

variable {α β : Type} {p : Py α} {c : LekvClient}
  {Q Q' : List PyEvent → LekvClient → Except PyError α → Prop}

theorem Conducts.mono (h : Conducts p c Q) (hQ : ∀ l c' r, Q l c' r → Q' l c' r) :
    Conducts p c Q' := by
  refine Prog.Along.mono h fun l c' x => ?_
  cases x with
  | none => exact id
  | some r => exact hQ l c' r

/-- One program after another: an error of the first one is the last word. -/
theorem Conducts.bind {f : α → Py β} {Q' : List PyEvent → LekvClient → Except PyError β → Prop}
    (h : Conducts p c Q) (herror : ∀ l c' e, Q l c' (.error e) → Q' l c' (.error e))
    (hok : ∀ l c' a, Q l c' (.ok a) → Conducts (f a) c' fun l' c'' r => Q' (l ++ l') c'' r) :
    Conducts (p >>= f) c Q' := by
  refine Prog.Along.bind (Prog.Along.mono h fun l c' x => ?_)
  rcases x with _ | r
  · exact id
  cases r with
  | error e =>
    intro hQ
    refine ⟨trivial, ?_⟩
    show Q' (l ++ []) c' (.error e)
    rw [List.append_nil]
    exact herror l c' e hQ
  | ok a =>
    intro hQ
    refine Prog.Along.mono (hok l c' a hQ) fun l' c'' x => ?_
    cases x with
    | none => exact id
    | some r => exact id

theorem Conducts.and (h : Conducts p c Q) (h' : Conducts p c Q') :
    Conducts p c fun l c' r => Q l c' r ∧ Q' l c' r := by
  refine Prog.Along.mono (Prog.Along.and h h') fun l c' x => ?_
  cases x with
  | none => exact fun _ => trivial
  | some r => exact id

theorem conducts_lift {r : Except PyError α} (h : Q [] c r) : Conducts (liftM r : Py α) c Q :=
  ⟨trivial, h⟩

theorem conducts_pure {a : α} (h : Q [] c (.ok a)) : Conducts (pure a : Py α) c Q := ⟨trivial, h⟩

theorem conducts_throw {e : PyError} (h : Q [] c (.error e)) : Conducts (throw e : Py α) c Q :=
  ⟨trivial, h⟩

theorem conducts_get {f : LekvClient → Py α}
    (h : Conducts (f c) c fun l c' r => Q (⟨.get, c⟩ :: l) c' r) :
    Conducts (LekvClient.get >>= f) c Q := by
  refine ⟨trivial, ?_⟩
  rintro r c' ⟨rfl, rfl⟩
  exact h

theorem conducts_nextReqId {f : ℕ → Py α}
    (h : Conducts (f c.reqId) { c with reqId := c.reqId + 1 } fun l c' r =>
      Q (⟨.get, c⟩ :: ⟨.modify fun c => { c with reqId := c.reqId + 1 }, ()⟩ :: l) c' r) :
    Conducts (nextReqId >>= f) c Q := by
  refine ⟨trivial, ?_⟩
  rintro r c' ⟨rfl, rfl⟩
  refine ⟨trivial, ?_⟩
  rintro ⟨⟩ c'' rfl
  exact h

theorem conducts_sleep {f : Unit → Py α}
    (h : Conducts (f ()) c fun l c' r => Q (⟨.sleep, ()⟩ :: l) c' r) :
    Conducts (sleep >>= f) c Q := by
  refine ⟨trivial, ?_⟩
  rintro ⟨⟩ c' rfl
  exact h

section Binds

variable {f : β → Py α}

theorem conducts_lift_bind {r : Except PyError β} (herror : ∀ e, r = .error e → Q [] c (.error e))
    (hok : ∀ a, r = .ok a → Conducts (f a) c Q) : Conducts (liftM r >>= f) c Q := by
  cases r with
  | error e => exact ⟨trivial, herror e rfl⟩
  | ok a => exact hok a rfl

theorem conducts_connect {host : Str} {port : ℤ} {f : ℕ → Py α}
    (herror : ∀ e, Q [⟨.connect host port, .error e⟩] c (.error e))
    (hok : ∀ sock, Conducts (f sock) c fun l c' r => Q (⟨.connect host port, .ok sock⟩ :: l) c' r) :
    Conducts (connect host port >>= f) c Q := by
  refine ⟨trivial, ?_⟩
  rintro (e | sock) c' rfl
  · exact ⟨trivial, herror e⟩
  · exact hok sock

theorem conducts_sendall {sock : ℕ} {data : Bytes} {f : Unit → Py α}
    (herror : ∀ e, Q [⟨.sendall sock data, .error e⟩] c (.error e))
    (hok : Conducts (f ()) c fun l c' r => Q (⟨.sendall sock data, .ok ()⟩ :: l) c' r) :
    Conducts (sendall sock data >>= f) c Q := by
  refine ⟨trivial, ?_⟩
  rintro (e | ⟨⟩) c' rfl
  · exact ⟨trivial, herror e⟩
  · exact hok

theorem conducts_recv {sock : ℕ} {f : ℕ × Bytes → Py α}
    (herror : ∀ e, Q [⟨.recvFrame sock, .error e⟩] c (.error e))
    (hok : ∀ resp, Conducts (f resp) c fun l c' r => Q (⟨.recvFrame sock, .ok resp⟩ :: l) c' r) :
    Conducts (recv sock >>= f) c Q := by
  refine ⟨trivial, ?_⟩
  rintro (e | resp) c' rfl
  · exact ⟨trivial, herror e⟩
  · exact hok resp

end Binds

theorem conducts_closing {sock : ℕ}
    (h : Conducts p c fun l c' r => Q (l ++ [⟨.close sock, ()⟩]) c' r) :
    Conducts (closing sock p) c Q := by
  refine Prog.Along.bind (Prog.Along.mono h fun l c' x => ?_)
  rcases x with _ | r
  · exact id
  intro hQ
  refine ⟨trivial, ?_⟩
  rintro ⟨⟩ c'' rfl
  exact ⟨trivial, hQ⟩

/-- Every operation is answered, so a program ends. -/
theorem exists_run {σ : Type} (E : PyEnvironment σ) (q : Prog pySig α) (w : LekvClient × σ) :
    ∃ a, (Prog.run E.handler q w).1 = some a := by
  -- The handler is total: a network failure is a result too.
  induction q generalizing w with
  | ret a => exact ⟨a, rfl⟩
  | op o k ih =>
    obtain ⟨r, w', ho⟩ : ∃ r w', E.handler o w = some (r, w') := by
      cases o with
      | _ => exact ⟨_, _, rfl⟩
    rw [Prog.run_op_some _ ho]
    exact ih r w'

theorem attributes_handler {σ : Type} (E : PyEnvironment σ) (o : PyOp) (w : LekvClient × σ) (r : o.Res)
    (w' : LekvClient × σ) (h : E.handler o w = some (r, w')) : attributes o w.1 r w'.1 := by
  cases o with
  | get =>
    obtain ⟨rfl, rfl⟩ := Prod.mk.inj (Option.some.inj h)
    exact ⟨rfl, rfl⟩
  | _ =>
    obtain ⟨rfl, rfl⟩ := Prod.mk.inj (Option.some.inj h)
    rfl

/-- What is said of all that may happen is true of what happens in an environment. -/
theorem Conducts.history (h : Conducts p c Q) {σ : Type} (E : PyEnvironment σ) (s : σ) :
    ∃ r, (E.run p (c, s)).1 = some r ∧
      Q (Prog.history E.handler p.run (c, s)) (E.run p (c, s)).2.1 r := by
  obtain ⟨r, hr⟩ := exists_run E p.run (c, s)
  have hQ := @Prog.Along.history pySig _ LekvClient _ attributes p.run c _ h E.handler Prod.fst
    (attributes_handler E) (c, s) rfl
  rw [hr] at hQ
  exact ⟨r, hr, hQ⟩

end Rules

/-! ## Sockets -/

/-- Every socket that is opened is closed, once. -/
def Balanced {α : Type} (p : Py α) : Prop :=
  ∀ c, Conducts p c fun l _ _ => (opened l).Perm (closed l)

section Balanced

variable {α β : Type} {p : Py α}

theorem Balanced.bind {f : α → Py β} (hp : Balanced p) (hf : ∀ a, Balanced (f a)) :
    Balanced (p >>= f) := by
  intro c
  refine (hp c).bind (fun l c' e h => h) fun l c' a h => ?_
  refine (hf a c').mono fun l' c'' r h' => ?_
  rw [opened_append, closed_append]
  exact h.append h'

/-- A socket that is opened for a block of the program. -/
theorem balanced_connect {host : Str} {port : ℤ} {f : ℕ → Py α} (hf : ∀ sock, Balanced (f sock)) :
    Balanced (connect host port >>= fun sock => closing sock (f sock)) := by
  intro c
  refine conducts_connect (fun e => .refl _) fun sock => ?_
  refine conducts_closing ((hf sock c).mono fun l c' r h => ?_)
  have hopened : opened (⟨.connect host port, .ok sock⟩ :: (l ++ [⟨.close sock, ()⟩]))
      = sock :: opened l := by
    show sock :: opened (l ++ [⟨.close sock, ()⟩]) = sock :: opened l
    rw [opened_append]
    exact congrArg (sock :: ·) (List.append_nil _)
  have hclosed : closed (⟨.connect host port, .ok sock⟩ :: (l ++ [⟨.close sock, ()⟩]))
      = closed l ++ [sock] := by
    show closed (l ++ [⟨.close sock, ()⟩]) = closed l ++ [sock]
    rw [closed_append]
    rfl
  -- This socket is opened first and closed last.
  rw [hopened, hclosed]
  exact (h.cons sock).trans (List.perm_append_singleton sock _).symm

theorem balanced_lift (r : Except PyError α) : Balanced (liftM r : Py α) := fun _ =>
  conducts_lift (.refl _)

theorem balanced_pure (a : α) : Balanced (pure a : Py α) := fun _ => conducts_pure (.refl _)

theorem balanced_throw (e : PyError) : Balanced (throw e : Py α) := fun _ => conducts_throw (.refl _)

theorem balanced_sendAndRecv (sock : ℕ) (payload : Bytes) :
    Balanced (sendAndRecv sock payload) := fun _ =>
  conducts_nextReqId (conducts_lift_bind (fun _ _ => .refl _) fun _ _ =>
    conducts_sendall (fun _ => .refl _) (conducts_recv (fun _ => .refl _) fun _ =>
      conducts_lift (.refl _)))

theorem balanced_fetchRouteTable : Balanced fetchRouteTable := fun _ =>
  conducts_get (balanced_connect (fun _ => (balanced_lift _).bind fun _ =>
    (balanced_sendAndRecv _ _).bind fun _ => balanced_lift _) _)

theorem balanced_retry (key : Str) (payload : Bytes) : Balanced (retry key payload) := by
  intro c
  refine conducts_sleep (Balanced.bind balanced_fetchRouteTable (fun tablets => ?_) c)
  rcases findRoute key tablets with _ | addr
  · exact balanced_throw _
  · refine (balanced_lift _).bind fun hp => ?_
    exact balanced_connect fun sock => (balanced_sendAndRecv _ _).bind fun resp => balanced_pure _

theorem balanced_doKv (opcode : UInt8) (key value : Str) : Balanced (doKv opcode key value) := by
  refine balanced_fetchRouteTable.bind fun tablets => ?_
  rcases findRoute key tablets with _ | addr
  · exact balanced_throw _
  · refine (balanced_lift _).bind fun hp => ?_
    refine balanced_connect fun sock => ?_
    refine (balanced_lift _).bind fun payload => (balanced_sendAndRecv _ _).bind fun resp => ?_
    split_ifs
    · exact balanced_retry key payload
    · exact balanced_pure _

theorem balanced_call (call : Call) : Balanced call.prog := by
  cases call with
  | put key value => exact (balanced_doKv _ _ _).bind fun _ => balanced_pure _
  | get key => exact (balanced_doKv _ _ _).bind fun _ => balanced_lift _
  | delete key => exact (balanced_doKv _ _ _).bind fun _ => balanced_pure _
  | getTabletsInfo => exact balanced_fetchRouteTable.bind fun _ => balanced_pure _

end Balanced

/-! ## Requests -/

/-- The frame of a request. -/
def requestFrame (reqId : ℕ) (payload : Bytes) : Bytes :=
  frame (10 + payload.length) (UInt32.ofNat reqId) payload

/-- The payload of a request for the table. -/
def shardsRequest : Bytes := kvPayload OP_SHARDS [] []

/-- The answer says that the DataNode does not have the key. -/
def NotMyShard (resp : Bytes) : Prop := (parseKvResponse resp).1 = (ST_NOT_MY_SHARD.toNat : ℤ)

section Requests

variable {c : LekvClient}

theorem encodeFrame_ok {reqId : ℕ} {payload f : Bytes} (h : encodeFrame reqId payload = .ok f) :
    f = requestFrame reqId payload := by
  rw [encodeFrame_eq] at h
  split_ifs at h
  exact (Except.ok.inj h).symm

theorem encodeKvRequest_ok {opcode : UInt8} {key value : Str} {payload : Bytes}
    (h : encodeKvRequest opcode key value = .ok payload) :
    payload = kvPayload opcode (encode key) (encode value) := by
  rw [encodeKvRequest_eq] at h
  split_ifs at h
  exact (Except.ok.inj h).symm

/-- At most one request is sent, and a result is one that `P` relates to the answer with its id. -/
def OneRequest {α : Type} (reqId : ℕ) (payload : Bytes) (P : Bytes → α → Prop) (sent : List Bytes)
    (received : List (ℕ × Bytes)) (c : LekvClient) : Except PyError α → Prop
  | .error _ => sent <+: [requestFrame reqId payload]
  | .ok a => c.reqId = reqId + 1 ∧ sent = [requestFrame reqId payload] ∧
    ∃ resp, received = [(reqId, resp)] ∧ P resp a

theorem conducts_sendAndRecv (sock : ℕ) (payload : Bytes) :
    Conducts (sendAndRecv sock payload) c fun l c' r =>
      OneRequest c.reqId payload (fun resp a => a = resp) (sent l) (received l) c' r := by
  refine conducts_nextReqId (conducts_lift_bind (fun e he => List.nil_prefix) fun f hf => ?_)
  obtain rfl := encodeFrame_ok hf
  refine conducts_sendall (fun e => List.prefix_rfl) (conducts_recv (fun e => List.prefix_rfl) ?_)
  rintro ⟨id, resp⟩
  refine conducts_lift ?_
  rw [readReply]
  -- An answer with another id is an error of the call, not its result.
  by_cases hid : id = c.reqId
  · rw [if_neg (not_not.mpr hid), ← hid]
    exact ⟨rfl, rfl, resp, rfl, rfl⟩
  · rw [if_pos hid]
    exact List.prefix_rfl

/-- An exchange whose answer is read with `f`. -/
theorem conducts_reading {α : Type} (sock : ℕ) (payload : Bytes) (f : Bytes → Except PyError α) :
    Conducts (sendAndRecv sock payload >>= fun resp => liftM (f resp)) c fun l c' r =>
      OneRequest c.reqId payload (fun resp a => f resp = .ok a) (sent l) (received l) c' r := by
  refine (conducts_sendAndRecv sock payload).bind (fun l c' e h => h) ?_
  rintro l c' resp ⟨hid, hsent, _, hreceived, rfl⟩
  refine conducts_lift ?_
  rw [List.append_nil]
  rcases hf : f resp with e | a
  · exact hsent ▸ List.prefix_rfl
  · exact ⟨hid, hsent, resp, hreceived, hf⟩

/-- What is said of a block with a socket of its own, where opening and closing do not count. -/
theorem conducts_socket {α : Type} {host : Str} {port : ℤ} {f : ℕ → Py α}
    {Q : List Bytes → List (ℕ × Bytes) → LekvClient → Except PyError α → Prop}
    (herror : ∀ e, Q [] [] c (.error e))
    (hok : ∀ sock, Conducts (f sock) c fun l c' r => Q (sent l) (received l) c' r) :
    Conducts (connect host port >>= fun sock => closing sock (f sock)) c fun l c' r =>
      Q (sent l) (received l) c' r := by
  refine conducts_connect herror fun sock => conducts_closing ((hok sock).mono fun l c' r h => ?_)
  have hsent : sent (⟨.connect host port, .ok sock⟩ :: (l ++ [⟨.close sock, ()⟩])) = sent l := by
    show sent (l ++ [⟨.close sock, ()⟩]) = sent l
    rw [sent_append]
    exact List.append_nil _
  have hreceived : received (⟨.connect host port, .ok sock⟩ :: (l ++ [⟨.close sock, ()⟩]))
      = received l := by
    show received (l ++ [⟨.close sock, ()⟩]) = received l
    rw [received_append]
    exact List.append_nil _
  rw [hsent, hreceived]
  exact h

/-- One request for the table, and the table that came with its id. -/
theorem conducts_fetchRouteTable :
    Conducts fetchRouteTable c fun l c' r => OneRequest c.reqId shardsRequest
      (fun resp tablets => readTable resp = .ok tablets) (sent l) (received l) c' r := by
  refine conducts_get (conducts_socket (Q := OneRequest c.reqId shardsRequest fun resp tablets =>
    readTable resp = .ok tablets) (fun e => List.nil_prefix) fun sock => ?_)
  refine conducts_lift_bind (fun e he => List.nil_prefix) fun payload hpayload => ?_
  obtain rfl := encodeKvRequest_ok hpayload
  exact conducts_reading sock _ readTable

/-- The second try: the table and the request again, with new ids. -/
theorem conducts_retry (key : Str) (payload : Bytes) :
    Conducts (retry key payload) c fun l _ r =>
      match r with
      | .error _ => sent l <+: [requestFrame c.reqId shardsRequest,
          requestFrame (c.reqId + 1) payload]
      | .ok v => sent l = [requestFrame c.reqId shardsRequest, requestFrame (c.reqId + 1) payload] ∧
        ∃ table resp, received l = [(c.reqId, table), (c.reqId + 1, resp)] ∧
          v = parseKvResponse resp := by
  refine conducts_sleep (conducts_fetchRouteTable.bind (fun l c' e h => ?_) ?_)
  · exact h.trans (List.prefix_append [_] [_])
  rintro l c' tablets ⟨hid, hsent, table, hreceived, -⟩
  have hprefix : sent l <+: [requestFrame c.reqId shardsRequest,
      requestFrame (c.reqId + 1) payload] := hsent ▸ List.prefix_append [_] [_]
  -- No route, or an address that cannot be taken apart: only the table was asked for.
  rcases findRoute key tablets with _ | addr
  · refine conducts_throw ?_
    rw [List.append_nil]
    exact hprefix
  refine conducts_lift_bind (fun e he => by rw [List.append_nil]; exact hprefix) fun hp hhp => ?_
  refine Conducts.mono (conducts_socket (Q := OneRequest c'.reqId payload fun resp v =>
    Except.ok (parseKvResponse resp) = (.ok v : Except PyError (ℤ × Str))) (fun e => List.nil_prefix)
    fun sock => conducts_reading sock payload fun resp => .ok (parseKvResponse resp)) ?_
  -- The request takes the id after that of the table.
  rintro l' c'' (e | v) h
  · show sent (l ++ l') <+: _
    rw [sent_append, hsent, ← hid]
    exact List.cons_prefix_cons.mpr ⟨rfl, h⟩
  · obtain ⟨-, hsent', resp, hreceived', hv⟩ := h
    show sent (l ++ l') = _ ∧ ∃ table resp, received (l ++ l') = _ ∧ _
    rw [sent_append, received_append, hsent, hsent', hreceived, hreceived', hid]
    exact ⟨rfl, table, resp, rfl, (Except.ok.inj hv).symm⟩

/-- What is sent to the first DataNode and after it. -/
def dataRequests (reqId : ℕ) (payload : Bytes) : List Bytes :=
  [requestFrame reqId payload, requestFrame (reqId + 1) shardsRequest,
    requestFrame (reqId + 2) payload]

/-- One request to a DataNode, and a second try only after `NOT_MY_SHARD`. -/
structure AsksDataNode (reqId : ℕ) (payload : Bytes) (sent : List Bytes)
    (received : List (ℕ × Bytes)) (r : Except PyError (ℤ × Str)) : Prop where
  sends : sent <+: dataRequests reqId payload
  again : 1 < sent.length → ∃ resp, received[0]? = some (reqId, resp) ∧ NotMyShard resp
  answered : ∀ v, r = .ok v → received.map Prod.fst = List.range' reqId sent.length ∧
    ∃ id resp, received.getLast? = some (id, resp) ∧ v = parseKvResponse resp

/-- A failure with at most the first request sent. -/
theorem asksDataNode_error {reqId : ℕ} {payload : Bytes} {sent : List Bytes}
    (h : sent <+: [requestFrame reqId payload]) (received : List (ℕ × Bytes)) (e : PyError) :
    AsksDataNode reqId payload sent received (.error e) where
  sends := h.trans (List.prefix_append [_] [_, _])
  again hlt := absurd h.length_le (Nat.not_le.mpr hlt)
  answered v hv := absurd hv (by simp)

theorem conducts_exchange (sock : ℕ) (opcode : UInt8) (key value : Str) :
    Conducts (exchange sock opcode key value) c fun l _ r =>
      AsksDataNode c.reqId (kvPayload opcode (encode key) (encode value)) (sent l) (received l) r := by
  refine conducts_lift_bind (fun e he => asksDataNode_error List.nil_prefix _ e)
    fun payload hpayload => ?_
  obtain rfl := encodeKvRequest_ok hpayload
  generalize kvPayload opcode (encode key) (encode value) = payload
  refine (conducts_sendAndRecv sock payload).bind (fun l c' e h => asksDataNode_error h _ e) ?_
  rintro l c' resp ⟨hid, hsent, _, hreceived, rfl⟩
  by_cases hstale : (parseKvResponse resp).1 = (ST_NOT_MY_SHARD.toNat : ℤ)
  -- The second try, while the socket of the first one is still open.
  · rw [if_pos hstale]
    refine (conducts_retry key payload).mono fun l' c'' r h => ?_
    rw [sent_append, received_append, hsent, hreceived]
    rw [hid] at h
    cases r with
    | error e =>
      exact ⟨List.cons_prefix_cons.mpr ⟨rfl, h⟩, fun _ => ⟨resp, rfl, hstale⟩,
        fun v hv => absurd hv (by simp)⟩
    | ok v =>
      obtain ⟨hsent', table, resp', hreceived', hv⟩ := h
      rw [hsent', hreceived']
      refine ⟨List.prefix_rfl, fun _ => ⟨resp, rfl, hstale⟩, fun v' hv' => ?_⟩
      exact ⟨rfl, _, resp', rfl, (Except.ok.inj hv').symm.trans hv⟩
  · rw [if_neg hstale]
    refine conducts_pure ?_
    rw [List.append_nil, hsent, hreceived]
    exact ⟨List.prefix_append [_] [_, _], fun h => absurd h (by simp),
      fun v hv => ⟨rfl, _, resp, rfl, (Except.ok.inj hv).symm⟩⟩

/-- All that a call may send. -/
def callRequests (reqId : ℕ) (payload : Bytes) : List Bytes :=
  requestFrame reqId shardsRequest :: dataRequests (reqId + 1) payload

/-- What a program does that makes the requests `requests` in turn and returns what it reads in the
last answer: its third request is for the case that the second answer is `NOT_MY_SHARD`. -/
structure Asks {α : Type} (reqId : ℕ) (requests : List Bytes) (read : Bytes → Except PyError α)
    (l : List PyEvent) (r : Except PyError α) : Prop where
  sends : sent l <+: requests
  again : 2 < (sent l).length →
    ∃ resp, (received l)[1]? = some (reqId + 1, resp) ∧ NotMyShard resp
  answered : ∀ v, r = .ok v → (received l).map Prod.fst = List.range' reqId (sent l).length ∧
    ∃ id resp, (received l).getLast? = some (id, resp) ∧ read resp = .ok v

theorem conducts_doKv (opcode : UInt8) (key value : Str) :
    Conducts (doKv opcode key value) c fun l _ r =>
      Asks c.reqId (callRequests c.reqId (kvPayload opcode (encode key) (encode value)))
        (fun resp => .ok (parseKvResponse resp)) l r := by
  have hshort : ∀ (l : List PyEvent) (e : PyError),
      sent l <+: [requestFrame c.reqId shardsRequest] →
      Asks c.reqId (callRequests c.reqId (kvPayload opcode (encode key) (encode value)))
        (fun resp => .ok (parseKvResponse resp)) l (.error e) := by
    intro l e h
    have hlen : (sent l).length ≤ 1 := h.length_le
    exact ⟨h.trans (List.prefix_append [_] [_, _, _]), fun hlt => by omega,
      fun v hv => absurd hv (by simp)⟩
  refine conducts_fetchRouteTable.bind (fun l c' e h => hshort l e h) ?_
  rintro l c' tablets ⟨hid, hsent, table, hreceived, -⟩
  have hprefix : sent l <+: [requestFrame c.reqId shardsRequest] := hsent ▸ List.prefix_rfl
  rcases findRoute key tablets with _ | addr
  · refine conducts_throw ?_
    rw [List.append_nil]
    exact hshort l _ hprefix
  refine conducts_lift_bind (fun e he => ?_) fun hp hhp => ?_
  · rw [List.append_nil]
    exact hshort l e hprefix
  -- From here on the table is in front of what the DataNode is asked, so its ids start one later.
  refine Conducts.mono (conducts_socket (Q := fun sent received _ r =>
    AsksDataNode c'.reqId (kvPayload opcode (encode key) (encode value)) sent received r)
    (fun e => asksDataNode_error List.nil_prefix _ e)
    fun sock => conducts_exchange sock opcode key value) ?_
  rintro l' c'' r ⟨hsends, hagain, hanswered⟩
  rw [hid] at hsends hagain hanswered
  have hsent' : sent (l ++ l') = requestFrame c.reqId shardsRequest :: sent l' := by
    rw [sent_append, hsent, List.singleton_append]
  have hreceived' : received (l ++ l') = (c.reqId, table) :: received l' := by
    rw [received_append, hreceived, List.singleton_append]
  refine ⟨?_, fun hlt => ?_, fun v hv => ?_⟩
  · rw [hsent', callRequests]
    exact List.cons_prefix_cons.mpr ⟨rfl, hsends⟩
  · rw [hreceived', List.getElem?_cons_succ]
    refine hagain ?_
    rw [hsent', List.length_cons] at hlt
    omega
  · obtain ⟨hids, id, resp, hlast, hv'⟩ := hanswered v hv
    rw [hsent', hreceived', List.map_cons, hids, List.length_cons, List.range'_succ]
    refine ⟨rfl, id, resp, ?_, congrArg Except.ok hv'.symm⟩
    rw [List.getLast?_cons, hlast]
    rfl

/-- A result that is read further. -/
theorem Asks.bind {α β : Type} {reqId : ℕ} {requests : List Bytes} {read : Bytes → Except PyError α}
    {l : List PyEvent} {r : Except PyError α} (h : Asks reqId requests read l r)
    (f : α → Except PyError β) :
    Asks reqId requests (fun resp => read resp >>= f) l (r >>= f) := by
  refine ⟨h.sends, h.again, fun v hv => ?_⟩
  rcases r with e | a
  · cases hv
  obtain ⟨hids, id, resp, hlast, hread⟩ := h.answered a rfl
  exact ⟨hids, id, resp, hlast, by rw [hread]; exact hv⟩

theorem Conducts.asks_bind {α β : Type} {p : Py α} {requests : List Bytes}
    {read : Bytes → Except PyError α} (h : Conducts p c fun l _ r => Asks c.reqId requests read l r)
    (f : α → Except PyError β) :
    Conducts (p >>= fun a => liftM (f a)) c fun l _ r =>
      Asks c.reqId requests (fun resp => read resp >>= f) l r := by
  refine h.bind (fun l c' e h => h.bind f) fun l c' a h => conducts_lift ?_
  rw [List.append_nil]
  exact h.bind f

/-! ## Calls -/

/-- All that a call may send, in turn. -/
def Call.requests (reqId : ℕ) : Call → List Bytes
  | put key value => callRequests reqId (kvPayload OP_PUT (encode key) (encode value))
  | get key => callRequests reqId (kvPayload OP_GET (encode key) [])
  | delete key => callRequests reqId (kvPayload OP_DELETE (encode key) [])
  | getTabletsInfo => [requestFrame reqId shardsRequest]

/-- What a call returns for the last answer. -/
def Call.read (resp : Bytes) : Call → Except PyError Returned
  | put _ _ => .ok (.bool (decide ((parseKvResponse resp).1 = (ST_OK.toNat : ℤ))))
  | get _ => readGet (parseKvResponse resp)
  | delete _ => .ok (.bool (decide ((parseKvResponse resp).1 = (ST_OK.toNat : ℤ))))
  | getTabletsInfo => readTable resp >>= fun tablets => .ok (.tablets tablets)

theorem conducts_call (call : Call) :
    Conducts call.prog c fun l _ r =>
      Asks c.reqId (call.requests c.reqId) (fun resp => call.read resp) l r := by
  cases call with
  | put key value =>
    exact (conducts_doKv OP_PUT key value).asks_bind fun r =>
      .ok (Returned.bool (decide (r.1 = (ST_OK.toNat : ℤ))))
  | get key => exact (conducts_doKv OP_GET key []).asks_bind readGet
  | delete key =>
    exact (conducts_doKv OP_DELETE key []).asks_bind fun r =>
      .ok (Returned.bool (decide (r.1 = (ST_OK.toNat : ℤ))))
  | getTabletsInfo =>
    -- One request and no second try, so there is nothing to show for a third request.
    have htable : Conducts fetchRouteTable c fun l _ r =>
        Asks c.reqId [requestFrame c.reqId shardsRequest] readTable l r := ?_
    · exact htable.asks_bind fun tablets => .ok (Returned.tablets tablets)
    refine conducts_fetchRouteTable.mono fun l c' r h => ?_
    cases r with
    | error e =>
      have hlen : (sent l).length ≤ 1 := h.length_le
      exact ⟨h, fun hlt => by omega, fun v hv => absurd hv (by simp)⟩
    | ok tablets =>
      obtain ⟨-, hsent, resp, hreceived, htable⟩ := h
      refine ⟨hsent ▸ List.prefix_rfl, fun hlt => by simp [hsent] at hlt, fun v hv => ?_⟩
      rw [hsent, hreceived, ← Except.ok.inj hv]
      exact ⟨rfl, _, resp, rfl, htable⟩

end Requests

/-- Whatever the network does, a call ends, since what arrives while it waits is a finite list. It has
closed each socket that it connected, once; what it sent is an initial part of its list of requests,
which have ids of their own; it went on after the first answer of a DataNode only for `NOT_MY_SHARD`; and
a result was read in the answer to its last request, all of which were answered. -/
theorem call_conduct {σ : Type} (E : PyEnvironment σ) (call : Call) (c : LekvClient) (s : σ) :
    ∃ r, (E.run call.prog (c, s)).1 = some r ∧
      (opened (Prog.history E.handler call.prog.run (c, s))).Perm
        (closed (Prog.history E.handler call.prog.run (c, s))) ∧
      Asks c.reqId (call.requests c.reqId) (fun resp => call.read resp)
        (Prog.history E.handler call.prog.run (c, s)) r :=
  ((balanced_call call c).and (conducts_call call)).history E s

end LeKV.LekvClient
