import LeKV.Cli.Responses
import LeKV.Kv.Clients
import LeKV.Lib.Effects
import LeKV.Lib.InputStream

/-!
# The interactive client (`lekv_cli.cpp`)

The client as programs over its operations on the outside: two connections, one to the Proxy that is
kept between commands and one to a DataNode for each request, and what it prints. `CliEnvironment`
answers the operations. `execute` is one line of input.
-/

namespace LeKV

open Bytes BinaryProtocol Effects InputStream Text

/-- The bytes of a text. -/
def text (s : String) : Bytes := s.toUTF8.toList

/-- What is printed, on `std::cout` or on `std::cerr`. -/
inductive Printed where
  | out (bytes : Bytes)
  | err (bytes : Bytes)
deriving DecidableEq, Repr

/-- The client's members, and what it has printed. -/
structure LekvCli where
  masterIp : Bytes
  masterPort : UInt16
  reqId : UInt32
  printed : List Printed
deriving DecidableEq, Repr

/-- The client after `Init`. -/
def LekvCli.init (masterIp : Bytes) (masterPort : UInt16) : LekvCli :=
  ⟨masterIp, masterPort, 1, [.out (text "[Client] Proxy: " ++ masterIp ++ text " (no local cache)\n")]⟩

/-- The connections of a client: `proxy_conn_`, and the one to a DataNode. -/
inductive Peer where
  | proxy
  | dataNode
deriving DecidableEq, Repr

/-- The operations of the client. `terminate` is an exception that nobody catches, or an access out
of bounds. -/
inductive CliOp where
  | get
  | modify (f : LekvCli → LekvCli)
  | isConnected
  | connect (peer : Peer) (ip : Bytes) (port : UInt16)
  | send (peer : Peer) (data : Bytes)
  | recvFrame (peer : Peer) (timeoutMs : ℤ)
  | close (peer : Peer)
  | terminate

/-- The results of the operations. -/
def CliOp.Res : CliOp → Type
  | .get => LekvCli
  | .modify _ => Unit
  | .isConnected => Bool
  | .connect _ _ _ => Bool
  | .send _ _ => Bool
  | .recvFrame _ _ => Option Bytes
  | .close _ => Unit
  | .terminate => Empty

abbrev cliSig : Signature := ⟨CliOp, CliOp.Res⟩

/-- A program of the client. -/
abbrev Cli (α : Type) : Type := Prog cliSig α

namespace Cli

def perform (o : CliOp) : Cli o.Res := Prog.op (S := cliSig) o Prog.ret

def get : Cli LekvCli := perform .get
def modify (f : LekvCli → LekvCli) : Cli Unit := perform (.modify f)
def isConnected : Cli Bool := perform .isConnected
def connect (peer : Peer) (ip : Bytes) (port : UInt16) : Cli Bool := perform (.connect peer ip port)
def send (peer : Peer) (data : Bytes) : Cli Bool := perform (.send peer data)
def recvFrame (peer : Peer) (timeoutMs : ℤ) : Cli (Option Bytes) := perform (.recvFrame peer timeoutMs)
def close (peer : Peer) : Cli Unit := perform (.close peer)
def terminate {α : Type} : Cli α := do nomatch ← perform .terminate

/-- Print to one of the streams. -/
def print (line : Printed) : Cli Unit := modify fun c => { c with printed := c.printed ++ [line] }

/-- `LekvCli::NextReqId`. -/
def nextReqId : Cli UInt32 := do
  let c ← get
  modify fun c => { c with reqId := c.reqId + 1 }
  return c.reqId

/-- `LekvCli::SendAndRecv`: the id and the payload of the next frame. -/
def sendAndRecv (peer : Peer) (req : Bytes) : Cli (Option (UInt32 × Bytes)) := do
  if ¬(← send peer req) then return none
  match ← recvFrame peer 5000 with
  | none => return none
  | some frame =>
    match tryDecode frame with
    | none => terminate
    | some (.fail _) =>
      print (.err (text "Failed to decode response frame\n"))
      return none
    | some (.ok _ respReqId payload) => return some (respReqId, payload)

/-- The check of the reply to `SHARDS`, and the table in it. -/
def readTable (rid : UInt32) (reply : UInt32 × Bytes) : Cli (Bool × List CachedTablet) :=
  if reply.1 ≠ rid then return (false, [])
  else
    match LeKV.fetchRouteTable reply.2 with
    | none => terminate
    | some r => return r

/-- `LekvCli::FetchRouteTable`: its result and the table. -/
def fetchRouteTable : Cli (Bool × List CachedTablet) := do
  let c ← get
  if ¬(← isConnected) then
    if ¬(← connect .proxy c.masterIp c.masterPort) then return (false, [])
  let rid ← nextReqId
  let req := encodeRequest rid OP_SHARDS [] []
  match ← sendAndRecv .proxy req with
  | some reply => readTable rid reply
  | none =>
    close .proxy
    if ¬(← connect .proxy c.masterIp c.masterPort) then return (false, [])
    match ← sendAndRecv .proxy req with
    | some reply => readTable rid reply
    | none => return (false, [])

/-- `std::stoi`, `none` where it throws. -/
def stoi (s : Bytes) : Option ℤ :=
  match parseDecimal s with
  | none => none
  | some (negative, n, _) =>
    let i : ℤ := if negative then -n else n
    if -2 ^ 31 ≤ i ∧ i < 2 ^ 31 then some i else none

/-- `LekvCli::DoDataNodeRequest`: its result, the status and the text. -/
def doDataNodeRequest (addr : Bytes) (opcode : UInt8) (key value : Bytes) :
    Cli (Bool × UInt8 × Bytes) :=
  let colon := addr.idxOf COLON -- the length, where there is none
  if colon = addr.length then return (false, ST_BAD_REQUEST, text "Invalid addr format")
  else
    match stoi (addr.drop (colon + 1)) with
    | none => terminate
    | some port => do
      if ¬(← connect .dataNode (addr.take colon) (UInt16.ofInt port)) then
        close .dataNode -- the destructor
        return (false, ST_TIMEOUT, text "Connect to " ++ addr ++ text " failed")
      let rid ← nextReqId
      match ← sendAndRecv .dataNode (encodeRequest rid opcode key value) with
      | none =>
        close .dataNode
        return (false, ST_TIMEOUT, text "Recv timeout from " ++ addr)
      | some (_, payload) =>
        close .dataNode
        match LeKV.doDataNodeRequest payload with
        | none => terminate
        | some r => return r

/-- `tolower` in the C locale. -/
def toLower (b : UInt8) : UInt8 := if 0x41 ≤ b && b ≤ 0x5A then b + 0x20 else b

/-- How `Execute` ends: with a result, or with the process. -/
inductive Executed where
  | returned (ok : Bool)
  | exited
deriving DecidableEq, Repr

/-- One line of `tablets`. -/
def tabletLine (t : CachedTablet) : Bytes :=
  text " Tablet " ++ decimal t.id.toNat ++ text " [" ++ t.start ++ text "," ++ t.stop ++ text ") -> " ++
    t.addr ++ text "\n"

def printTablets : List CachedTablet → Cli Unit
  | [] => return ()
  | t :: tablets => do
    print (.out (tabletLine t))
    printTablets tablets

/-- The `switch` over the status of an answer. -/
def answerLine (cmd : Bytes) (status : UInt8) (result : Bytes) : Printed :=
  if status = ST_OK then
    .out ((if cmd = text "get" then (if result = [] then text "(empty)" else result)
      else text "OK") ++ text "\n")
  else if status = ST_NOT_FOUND then .out (text "Key not found\n")
  else if status = ST_NOT_MY_SHARD then
    .err (text "Error: Route stale (NOT_MY_SHARD), the tablet may have just moved. Retry the command.\n")
  else
    .err (text "Error: status = " ++ decimal status.toNat ++
      (if result = [] then [] else SPACE :: result) ++ text "\n")

/-- The value of a `put`: the rest of the line, from its first byte on that is no blank. -/
def readValue (iss : IStream) : Bytes :=
  let value := (iss.getline []).2
  if value.dropWhile (· = SPACE) = [] then value else value.dropWhile (· = SPACE)

/-- `LekvCli::Execute`. -/
def execute (line : Bytes) : Cli Executed := do
  let first := (IStream.ofBytes line).extract []
  if first.2 = [] then return .returned true
  let cmd := first.2.map toLower
  if cmd = text "exit" ∨ cmd = text "quit" then
    print (.out (text "Bye!\n"))
    return .exited
  if cmd = text "help" then
    print (.out (text "Commands:\n  put <key> <value>\n  get <key>\n  delete <key>\n  tablets\n  exit / quit\n"))
    return .returned true
  if cmd = text "tablets" then
    let (ok, tablets) ← fetchRouteTable
    if ¬ok then
      print (.err (text "Failed to fetch route table from proxy\n"))
      return .returned false
    printTablets tablets
    return .returned true
  let second := first.1.extract []
  let key := second.2
  if key = [] then
    print (.err (text "Error: key is required\n"))
    return .returned false
  let value := if cmd = text "put" then readValue second.1 else []
  let opcode :=
    if cmd = text "get" then OP_GET
    else if cmd = text "put" then OP_PUT
    else if cmd = text "delete" ∨ cmd = text "del" then OP_DELETE
    else OP_GET
  let (ok, tablets) ← fetchRouteTable
  if ¬ok then
    print (.err (text "Failed to fetch route table from proxy\n"))
    return .returned false
  match findRoute tablets key with
  | none =>
    print (.err (text "Failed to find route for key: " ++ key ++ text "\n"))
    return .returned false
  | some addr =>
    let (ok, status, result) ← doDataNodeRequest addr opcode key value
    if ¬ok then
      print (.err (text "Error: " ++ result ++ text "\n"))
      return .returned false
    print (answerLine cmd status result)
    return .returned true

/-- The loop of `LekvCli::Run` over the lines of its input, up to their end or to `exit`. -/
def run : List Bytes → Cli Unit
  | [] => print (.out (text "lekv> "))
  | line :: lines => do
    print (.out (text "lekv> "))
    match ← execute line with
    | .exited => return ()
    | .returned _ => run lines

end Cli

/-! ## What the client runs in -/

/-- Answers to the client's operations on the outside. -/
structure CliEnvironment (σ : Type) where
  isConnected : σ → Bool
  connect : Peer → Bytes → UInt16 → σ → Bool × σ
  send : Peer → Bytes → σ → Bool × σ
  recvFrame : Peer → ℤ → σ → Option Bytes × σ
  close : Peer → σ → σ

namespace CliEnvironment

variable {σ α β : Type} (E : CliEnvironment σ)

/-- The client's operations in an environment. `terminate` is refused: nothing comes after it. -/
def handler : Handler cliSig (LekvCli × σ) := fun o w =>
  match o with
  | .get => some (w.1, w)
  | .modify f => some ((), (f w.1, w.2))
  | .isConnected => some (E.isConnected w.2, w)
  | .connect peer ip port =>
    some ((E.connect peer ip port w.2).1, (w.1, (E.connect peer ip port w.2).2))
  | .send peer data => some ((E.send peer data w.2).1, (w.1, (E.send peer data w.2).2))
  | .recvFrame peer t => some ((E.recvFrame peer t w.2).1, (w.1, (E.recvFrame peer t w.2).2))
  | .close peer => some ((), (w.1, E.close peer w.2))
  | .terminate => none

/-- Run a program of the client. -/
def run (p : Cli α) (w : LekvCli × σ) : Option α × (LekvCli × σ) := Prog.run E.handler p w

variable {E} {c : LekvCli} {s : σ}

@[simp] theorem run_ret (a : α) (w : LekvCli × σ) : E.run (.ret a) w = (some a, w) := rfl

@[simp] theorem run_pure (a : α) (w : LekvCli × σ) : E.run (pure a) w = (some a, w) := rfl

@[simp] theorem run_get (f : LekvCli → Cli α) :
    E.run (Cli.get >>= f) (c, s) = E.run (f c) (c, s) := rfl

@[simp] theorem run_modify (g : LekvCli → LekvCli) (f : Unit → Cli α) :
    E.run (Cli.modify g >>= f) (c, s) = E.run (f ()) (g c, s) := rfl

@[simp] theorem run_print (line : Printed) (f : Unit → Cli α) :
    E.run (Cli.print line >>= f) (c, s)
      = E.run (f ()) ({ c with printed := c.printed ++ [line] }, s) := rfl

@[simp] theorem run_nextReqId (f : UInt32 → Cli α) :
    E.run (Cli.nextReqId >>= f) (c, s) = E.run (f c.reqId) ({ c with reqId := c.reqId + 1 }, s) := rfl

@[simp] theorem run_isConnected (f : Bool → Cli α) :
    E.run (Cli.isConnected >>= f) (c, s) = E.run (f (E.isConnected s)) (c, s) := rfl

@[simp] theorem run_connect (peer : Peer) (ip : Bytes) (port : UInt16) (f : Bool → Cli α) :
    E.run (Cli.connect peer ip port >>= f) (c, s)
      = E.run (f (E.connect peer ip port s).1) (c, (E.connect peer ip port s).2) := rfl

@[simp] theorem run_send (peer : Peer) (data : Bytes) (f : Bool → Cli α) :
    E.run (Cli.send peer data >>= f) (c, s)
      = E.run (f (E.send peer data s).1) (c, (E.send peer data s).2) := rfl

@[simp] theorem run_recvFrame (peer : Peer) (t : ℤ) (f : Option Bytes → Cli α) :
    E.run (Cli.recvFrame peer t >>= f) (c, s)
      = E.run (f (E.recvFrame peer t s).1) (c, (E.recvFrame peer t s).2) := rfl

@[simp] theorem run_close (peer : Peer) (f : Unit → Cli α) :
    E.run (Cli.close peer >>= f) (c, s) = E.run (f ()) (c, E.close peer s) := rfl

theorem run_bind_some {p : Cli α} {w w' : LekvCli × σ} {a : α} (hp : E.run p w = (some a, w'))
    (f : α → Cli β) : E.run (p >>= f) w = E.run (f a) w' :=
  Prog.run_bind_some _ hp f

/-! ## Exchanges that go well -/

/-- Sent, and a frame comes back that is decoded. -/
theorem run_sendAndRecv {peer : Peer} {req frame payload : Bytes} {s₁ s₂ : σ} {n : ℕ} {reqId : UInt32}
    (hsend : E.send peer req s = (true, s₁)) (hrecv : E.recvFrame peer 5000 s₁ = (some frame, s₂))
    (hdec : tryDecode frame = some (.ok n reqId payload)) :
    E.run (Cli.sendAndRecv peer req) (c, s) = (some (some (reqId, payload)), (c, s₂)) := by
  simp only [Cli.sendAndRecv, run_send, hsend, not_true_eq_false, if_false, run_recvFrame, hrecv, hdec,
    run_pure]

/-- `FetchRouteTable` with a reply to its own request. -/
theorem run_fetchRouteTable {payload : Bytes} {s₁ s₂ : σ} {r : Bool × List CachedTablet}
    (hopen : E.isConnected s = true ∧ s₁ = s ∨
      E.isConnected s = false ∧ E.connect .proxy c.masterIp c.masterPort s = (true, s₁))
    (hreply : ∀ c', E.run (Cli.sendAndRecv .proxy (encodeRequest c.reqId OP_SHARDS [] [])) (c', s₁)
      = (some (some (c.reqId, payload)), (c', s₂)))
    (htable : LeKV.fetchRouteTable payload = some r) :
    E.run Cli.fetchRouteTable (c, s) = (some r, ({ c with reqId := c.reqId + 1 }, s₂)) := by
  have hread : ∀ c', E.run (Cli.readTable c.reqId (c.reqId, payload)) (c', s₂) = (some r, (c', s₂)) := by
    intro c'
    rw [Cli.readTable, if_neg (not_not.mpr rfl), htable, run_pure]
  rw [Cli.fetchRouteTable, run_get]
  rcases hopen with ⟨hopen, rfl⟩ | ⟨hclosed, hconnect⟩
  · simp only [run_isConnected, hopen, not_true_eq_false, if_false]
    simp only [run_nextReqId, run_bind_some (hreply _), hread]
  · simp only [run_isConnected, hclosed, Bool.false_eq_true, not_false_eq_true, if_true]
    rw [run_connect, hconnect]
    simp only [not_true_eq_false, if_false]
    simp only [run_nextReqId, run_bind_some (hreply _), hread]

/-- `DoDataNodeRequest` to an address that has a port, with a reply. -/
theorem run_doDataNodeRequest {ip port key value payload : Bytes} {n : ℤ} {opcode : UInt8}
    {reqId : UInt32} {s₁ s₂ : σ} {r : Bool × UInt8 × Bytes} (hip : COLON ∉ ip)
    (hport : Cli.stoi port = some n)
    (hconnect : E.connect .dataNode ip (UInt16.ofInt n) s = (true, s₁))
    (hreply : ∀ c', E.run (Cli.sendAndRecv .dataNode (encodeRequest c.reqId opcode key value)) (c', s₁)
      = (some (some (reqId, payload)), (c', s₂)))
    (hanswer : LeKV.doDataNodeRequest payload = some r) :
    E.run (Cli.doDataNodeRequest (ip ++ COLON :: port) opcode key value) (c, s)
      = (some r, ({ c with reqId := c.reqId + 1 }, E.close .dataNode s₂)) := by
  have hidx : (ip ++ COLON :: port).idxOf COLON = ip.length := by
    rw [List.idxOf_append_of_notMem hip, List.idxOf_cons_self, Nat.add_zero]
  have hdrop : (ip ++ COLON :: port).drop (ip.length + 1) = port := by
    rw [← List.singleton_append, ← List.append_assoc]
    exact List.drop_left' (by simp)
  have htake : (ip ++ COLON :: port).take ip.length = ip := List.take_left
  have hfound : ¬ip.length = (ip ++ COLON :: port).length := by
    rw [List.length_append, List.length_cons]
    omega
  simp only [Cli.doDataNodeRequest, hidx, if_neg hfound, hdrop, htake, hport]
  rw [run_connect, hconnect]
  simp only [not_true_eq_false, if_false]
  rw [run_nextReqId, run_bind_some (hreply _)]
  simp only [run_close, hanswer, run_pure]

end CliEnvironment

end LeKV
