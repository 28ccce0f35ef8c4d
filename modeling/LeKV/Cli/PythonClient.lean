import LeKV.Cli.LekvClient
import LeKV.Lib.Histories
import LeKV.Lib.Utf8

/-!
# The Python client (`test/lekv_client.py`)

The client as programs over its operations on the outside: it opens a new socket for each exchange, and
an exchange can raise. `PyEnvironment` answers the operations; what `recv` returns on a socket, one call
after another, is a list, which `recvFrame` reads up to the end of a frame.
-/

namespace LeKV

open Bytes BinaryProtocol Effects

/-- The client's attributes. -/
structure LekvClient where
  proxyHost : LekvClient.Str
  proxyPort : ℤ
  reqId : ℕ
deriving DecidableEq, Repr

/-- What is raised: by `struct.pack`, by `int` and by unpacking, by a socket, and by the client
itself. -/
inductive PyError where
  | structError
  | valueError
  | indexError
  | overflowError
  | connectionError (message : LekvClient.Str)
  | runtimeError (message : LekvClient.Str)
  | timeout
  | osError (errno : ℤ)
deriving DecidableEq, Repr

/-- The operations of the client. A socket is a number. -/
inductive PyOp where
  | get
  | modify (f : LekvClient → LekvClient)
  | connect (host : LekvClient.Str) (port : ℤ)
  | sendall (sock : ℕ) (data : Bytes)
  | recvFrame (sock : ℕ)
  | close (sock : ℕ)
  | sleep

/-- The results of the operations. -/
def PyOp.Res : PyOp → Type
  | .get => LekvClient
  | .modify _ => Unit
  | .connect _ _ => Except PyError ℕ
  | .sendall _ _ => Except PyError Unit
  | .recvFrame _ => Except PyError (ℕ × Bytes)
  | .close _ => Unit
  | .sleep => Unit

abbrev pySig : Signature := ⟨PyOp, PyOp.Res⟩

/-- A program of the client. -/
abbrev Py (α : Type) : Type := ExceptT PyError (Prog pySig) α

namespace LekvClient

/-! ## Frames -/

/-- `struct.pack(">H", n)`. -/
def packH (n : ℕ) : Except PyError Bytes := if n < 2 ^ 16 then .ok (be 2 n) else .error .structError

/-- `struct.pack(">I", n)`. -/
def packI (n : ℕ) : Except PyError Bytes := if n < 2 ^ 32 then .ok (be 4 n) else .error .structError

/-- `LekvClient._encode_frame`. -/
def encodeFrame (reqId : ℕ) (payload : Bytes) : Except PyError Bytes := do
  let frameLen := 4 + 1 + 1 + 4 + payload.length
  let len ← packI frameLen
  let id ← packI reqId
  return len ++ [MAGIC, VERSION] ++ id ++ payload

/-- `LekvClient._decode_frame`. -/
def decodeFrame (buf : Bytes) : Option (ℕ × Bytes) :=
  if buf.length < 10 then none
  else
    let frameLen := readBE (buf.take 4)
    if buf.length < frameLen then none
    else if buf[4]? ≠ some MAGIC ∨ buf[5]? ≠ some VERSION then none
    else some (readBE ((buf.take 10).drop 6), (buf.take frameLen).drop 10)

/-- What one call of `recv` comes to. -/
inductive Incoming where
  | chunk (bytes : Bytes)
  | raised (e : PyError)
deriving DecidableEq, Repr

/-- `LekvClient._recv_frame`, from `buf` on. Where nothing more comes, `recv` times out. -/
def recvFrame : Bytes → List Incoming → Except PyError (ℕ × Bytes)
  | buf, [] =>
    match decodeFrame buf with
    | some result => .ok result
    | none => .error .timeout
  | buf, e :: es =>
    match decodeFrame buf with
    | some result => .ok result
    | none =>
      match e with
      | .raised error => .error error
      | .chunk bytes =>
        if bytes = [] then .error (.connectionError "Socket closed".toList)
        else recvFrame (buf ++ bytes) es

/-- `LekvClient._encode_kv_request`. -/
def encodeKvRequest (opcode : UInt8) (key value : Str) : Except PyError Bytes := do
  let keyLen ← packH (encode key).length
  let valueLen ← packI (encode value).length
  return opcode :: (keyLen ++ valueLen ++ encode key ++ encode value)

/-- `LekvClient._parse_kv_response`: the status, and the value as text. -/
def parseKvResponse (payload : Bytes) : ℤ × Str :=
  match payload with
  | [] => (-1, [])
  | status :: _ =>
    if payload.length < 5 then (status.toNat, [])
    else
      let valLen := readBE ((payload.take 5).drop 1)
      (status.toNat, if 0 < valLen then Utf8.decodeReplace ((payload.take (5 + valLen)).drop 5) else [])

/-! ## Programs -/

def perform (o : PyOp) : Prog pySig o.Res := Prog.perform (S := pySig) o

def get : Py LekvClient := ExceptT.lift (perform .get)
def modify (f : LekvClient → LekvClient) : Py Unit := ExceptT.lift (perform (.modify f))

/-- `LekvClient._connect`. -/
def connect (host : Str) (port : ℤ) : Py ℕ := ExceptT.mk (perform (.connect host port))

def sendall (sock : ℕ) (data : Bytes) : Py Unit := ExceptT.mk (perform (.sendall sock data))
def recv (sock : ℕ) : Py (ℕ × Bytes) := ExceptT.mk (perform (.recvFrame sock))
def sleep : Py Unit := ExceptT.lift (perform .sleep)

/-- `try: body finally: sock.close()`. -/
def closing {α : Type} (sock : ℕ) (body : Py α) : Py α := ExceptT.mk do
  let r ← body.run
  let _ ← perform (.close sock)
  return r

/-- `LekvClient._next_req_id`. -/
def nextReqId : Py ℕ := do
  let c ← get
  modify fun c => { c with reqId := c.reqId + 1 }
  return c.reqId

/-- A number in a message. -/
def shown (n : ℤ) : Str := (toString n).toList

/-- A number in a message, with `:#x`. -/
def shownHex (n : ℤ) : Str :=
  (if n < 0 then ['-'] else []) ++ '0' :: 'x' :: Nat.toDigits 16 n.natAbs

/-- The check of the id of a reply. -/
def readReply (reqId : ℕ) (resp : ℕ × Bytes) : Except PyError Bytes :=
  if resp.1 ≠ reqId then
    throw (.runtimeError ("ReqID mismatch: sent ".toList ++ shown reqId ++ ", got ".toList ++
      shown resp.1))
  else return resp.2

/-- `LekvClient._send_and_recv`. -/
def sendAndRecv (sock : ℕ) (payload : Bytes) : Py Bytes := do
  let reqId ← nextReqId
  let frame ← encodeFrame reqId payload
  sendall sock frame
  let resp ← recv sock
  readReply reqId resp

/-- The reply to `SHARDS`, and the table in it. -/
def readTable (resp : Bytes) : Except PyError (List TabletInfo) :=
  let (status, body) := parseKvResponse resp
  if status ≠ (ST_OK.toNat : ℤ) then
    throw (.runtimeError ("SHARDS failed: status=".toList ++ shown status))
  else
    match parseShardsBody body with
    | none => throw .valueError
    | some tablets => return tablets

/-- `LekvClient.fetch_route_table`. -/
def fetchRouteTable : Py (List TabletInfo) := do
  let c ← get
  let sock ← connect c.proxyHost c.proxyPort
  closing sock do
    let payload ← encodeKvRequest OP_SHARDS [] []
    let resp ← sendAndRecv sock payload
    readTable resp

/-- `host, port_str = addr.split(":")` and `int(port_str)`. -/
def hostPort (addr : Str) : Except PyError (Str × ℤ) :=
  match addr.splitOn ':' with
  | [host, port] =>
    match int port with
    | none => throw .valueError
    | some port => return (host, port)
  | _ => throw .valueError

/-- `addr.split(":")[0]` and `int(addr.split(":")[1])`. -/
def hostPortAt (addr : Str) : Except PyError (Str × ℤ) :=
  match addr.splitOn ':' with
  | host :: port :: _ =>
    match int port with
    | none => throw .valueError
    | some port => return (host, port)
  | _ => throw .indexError

/-- The second try of `_do_kv`, with a new table. -/
def retry (key : Str) (payload : Bytes) : Py (ℤ × Str) := do
  sleep
  let tablets ← fetchRouteTable
  match findRoute key tablets with
  | none => throw (.runtimeError ("No route found for key on retry: ".toList ++ key))
  | some addr =>
    let (host, port) ← hostPortAt addr
    let sock ← connect host port
    closing sock do
      let resp ← sendAndRecv sock payload
      return parseKvResponse resp

/-- The exchange of `_do_kv` with a DataNode. -/
def exchange (sock : ℕ) (opcode : UInt8) (key value : Str) : Py (ℤ × Str) := do
  let payload ← encodeKvRequest opcode key value
  let resp ← sendAndRecv sock payload
  if (parseKvResponse resp).1 = (ST_NOT_MY_SHARD.toNat : ℤ) then retry key payload
  else return parseKvResponse resp

/-- `LekvClient._do_kv`. -/
def doKv (opcode : UInt8) (key value : Str) : Py (ℤ × Str) := do
  let tablets ← fetchRouteTable
  match findRoute key tablets with
  | none => throw (.runtimeError ("No route found for key: ".toList ++ key))
  | some addr =>
    let (host, port) ← hostPort addr
    let sock ← connect host port
    closing sock (exchange sock opcode key value)

/-- The methods of the client. -/
inductive Call where
  | put (key value : Str)
  | get (key : Str)
  | delete (key : Str)
  | getTabletsInfo
deriving DecidableEq, Repr

/-- What they return. -/
inductive Returned where
  | bool (b : Bool)
  | value (v : Option Str)
  | tablets (ts : List TabletInfo)
deriving DecidableEq, Repr

/-- `LekvClient.get` on the status and the value. -/
def readGet (r : ℤ × Str) : Except PyError Returned :=
  if r.1 = (ST_OK.toNat : ℤ) then return .value (some r.2)
  else if r.1 = (ST_NOT_FOUND.toNat : ℤ) then return .value none
  else throw (.runtimeError ("GET failed: status=".toList ++ shownHex r.1))

/-- `LekvClient.put`, `get`, `delete` and `get_tablets_info`. -/
def Call.prog : Call → Py Returned
  | put key value => do
    let r ← doKv OP_PUT key value
    return .bool (decide (r.1 = (ST_OK.toNat : ℤ)))
  | get key => do
    let r ← doKv OP_GET key []
    readGet r
  | delete key => do
    let r ← doKv OP_DELETE key []
    return .bool (decide (r.1 = (ST_OK.toNat : ℤ)))
  | getTabletsInfo => do
    let tablets ← fetchRouteTable
    return .tablets tablets

end LekvClient

/-! ## What the client runs in -/

/-- Answers to the client's operations on the outside. -/
structure PyEnvironment (σ : Type) where
  connect : LekvClient.Str → ℤ → σ → Except PyError ℕ × σ
  sendall : ℕ → Bytes → σ → Except PyError Unit × σ
  recv : ℕ → σ → List LekvClient.Incoming × σ
  close : ℕ → σ → σ
  sleep : σ → σ

namespace PyEnvironment

variable {σ α β : Type} (E : PyEnvironment σ)

/-- The client's operations in an environment. -/
def handler : Handler pySig (LekvClient × σ) := fun o w =>
  match o with
  | .get => some (w.1, w)
  | .modify f => some ((), (f w.1, w.2))
  | .connect host port => some ((E.connect host port w.2).1, (w.1, (E.connect host port w.2).2))
  | .sendall sock data => some ((E.sendall sock data w.2).1, (w.1, (E.sendall sock data w.2).2))
  | .recvFrame sock =>
    some (LekvClient.recvFrame [] (E.recv sock w.2).1, (w.1, (E.recv sock w.2).2))
  | .close sock => some ((), (w.1, E.close sock w.2))
  | .sleep => some ((), (w.1, E.sleep w.2))

/-- Run a program of the client. -/
def run (p : Py α) (w : LekvClient × σ) : Option (Except PyError α) × (LekvClient × σ) :=
  Prog.run E.handler p.run w

variable {E} {c : LekvClient} {s : σ}

@[simp] theorem run_pure (a : α) (w : LekvClient × σ) : E.run (pure a) w = (some (.ok a), w) := rfl

@[simp] theorem run_lift (r : Except PyError α) (w : LekvClient × σ) :
    E.run (liftM r : Py α) w = (some r, w) := rfl

theorem run_bind_ok {p : Py α} {w w' : LekvClient × σ} {a : α} (hp : E.run p w = (some (.ok a), w'))
    (f : α → Py β) : E.run (p >>= f) w = E.run (f a) w' :=
  Prog.run_bind_some _ hp _

theorem run_bind_error {p : Py α} {w w' : LekvClient × σ} {e : PyError}
    (hp : E.run p w = (some (.error e), w')) (f : α → Py β) :
    E.run (p >>= f) w = (some (.error e), w') :=
  Prog.run_bind_some _ hp _

@[simp] theorem run_get (f : LekvClient → Py α) :
    E.run (LekvClient.get >>= f) (c, s) = E.run (f c) (c, s) := rfl

@[simp] theorem run_nextReqId (f : ℕ → Py α) :
    E.run (LekvClient.nextReqId >>= f) (c, s)
      = E.run (f c.reqId) ({ c with reqId := c.reqId + 1 }, s) := rfl

theorem run_connect (host : LekvClient.Str) (port : ℤ) :
    E.run (LekvClient.connect host port) (c, s)
      = (some (E.connect host port s).1, (c, (E.connect host port s).2)) := rfl

theorem run_sendall (sock : ℕ) (data : Bytes) :
    E.run (LekvClient.sendall sock data) (c, s)
      = (some (E.sendall sock data s).1, (c, (E.sendall sock data s).2)) := rfl

theorem run_recv (sock : ℕ) :
    E.run (LekvClient.recv sock) (c, s)
      = (some (LekvClient.recvFrame [] (E.recv sock s).1), (c, (E.recv sock s).2)) := rfl

theorem run_closing {sock : ℕ} {body : Py α} {w : LekvClient × σ} {r : Except PyError α}
    (hbody : E.run body w = (some r, (c, s))) :
    E.run (LekvClient.closing sock body) w = (some r, (c, E.close sock s)) :=
  Prog.run_bind_some _ hbody _

/-! ## Exchanges -/

/-- The frame cannot be packed. The id is used up. -/
theorem run_sendAndRecv_error {sock : ℕ} {payload : Bytes} {e : PyError}
    (hframe : LekvClient.encodeFrame c.reqId payload = .error e) :
    E.run (LekvClient.sendAndRecv sock payload) (c, s)
      = (some (.error e), ({ c with reqId := c.reqId + 1 }, s)) := by
  rw [LekvClient.sendAndRecv, run_nextReqId, hframe]
  exact run_bind_error (run_lift _ _) _

/-- Sent, and a frame with the id of the request comes back. -/
theorem run_sendAndRecv {sock : ℕ} {payload frame resp : Bytes} {s₁ : σ}
    (hframe : LekvClient.encodeFrame c.reqId payload = .ok frame)
    (hsend : E.sendall sock frame s = (.ok (), s₁))
    (hrecv : LekvClient.recvFrame [] (E.recv sock s₁).1 = .ok (c.reqId, resp)) :
    E.run (LekvClient.sendAndRecv sock payload) (c, s)
      = (some (.ok resp), ({ c with reqId := c.reqId + 1 }, (E.recv sock s₁).2)) := by
  have hsent : ∀ c', E.run (LekvClient.sendall sock frame) (c', s) = (some (.ok ()), (c', s₁)) := by
    intro c'
    rw [run_sendall, hsend]
  have hread : ∀ c', E.run (LekvClient.recv sock) (c', s₁)
      = (some (.ok (c.reqId, resp)), (c', (E.recv sock s₁).2)) := by
    intro c'
    rw [run_recv, hrecv]
  have hreply : LekvClient.readReply c.reqId (c.reqId, resp) = .ok resp :=
    if_neg (not_not.mpr rfl)
  rw [LekvClient.sendAndRecv, run_nextReqId, hframe, run_bind_ok (run_lift _ _),
    run_bind_ok (hsent _), run_bind_ok (hread _), hreply]
  exact run_lift _ _

end PyEnvironment

end LeKV
