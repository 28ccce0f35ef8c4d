import LeKV.Kv.Actions
import LeKV.Kv.DataNode
import LeKV.Rpc.Pairing

/-!
# The Master among its DataNodes

A `Cluster` is what surrounds the Master's members: the DataNodes, one management connection to each
of them, and the files. Its `env` is the environment in which the balancer's programs run: a request
is executed by `HandleClient` and the handlers of the DataNode when it is sent, the reply goes on the
wire, and the connection's schedules say what is lost or late.
-/

namespace LeKV

open Bytes BinaryProtocol Effects

/-- What each file step of `SaveTablets` comes to: whether the temporary file opens, whether all of
the text is written, whether the file is renamed. -/
structure FileOutcomes where
  opens : Bool
  writes : Bool
  renames : Bool
deriving DecidableEq, Repr

/-- Everything around the Master. -/
structure Cluster where
  nodes : UInt32 → DataNode
  connections : UInt32 → Connection
  files : Files
  outcomes : FileOutcomes
  clock : List ℤ

/-- A DataNode on the bytes of a request: the bytes it answers with, and its state afterwards. Each
request of the Master is one whole frame, so the server's buffer is empty before and after
(`serveBytes_request`). -/
def DataNode.serve (n : DataNode) (data : Bytes) : Bytes × DataNode :=
  let session := serveBytes DataNode.handleBinaryRequest n data []
  ((session.calls.map Call.response).flatten, session.state)

namespace Cluster

/-- Replace the connection to one node. -/
def setConnection (s : Cluster) (node : UInt32) (c : Connection) : Cluster :=
  { s with connections := Function.update s.connections node c }

/-- Replace the state of one node and the connection to it. -/
def setNode (s : Cluster) (node : UInt32) (n : DataNode) (c : Connection) : Cluster :=
  { s with
    nodes := Function.update s.nodes node n
    connections := Function.update s.connections node c }

/-- A request is sent to `node`. -/
def send (s : Cluster) (node : UInt32) (data : Bytes) : Cluster :=
  let c := s.connections node
  if c.sendOutcome.executed then
    let served := (s.nodes node).serve data
    s.setNode node served.2 (c.send.answer served.1)
  else s.setConnection node c.send

/-- The Master waits for a frame from `node`. -/
def recvFrame (s : Cluster) (node : UInt32) (timeoutMs : ℤ) : Cluster :=
  s.setConnection node ((s.connections node).recvFrame timeoutMs).2

/-- The environment of the balancer. An opened temporary file is empty at first; an incomplete write
leaves a part of the text. -/
def env : Environment Cluster where
  isConnected node s := (s.connections node).connected
  send node data s := ((s.connections node).sendOutcome.ok, s.send node data)
  recvFrame node t s := (((s.connections node).recvFrame t).1, s.recvFrame node t)
  openTmp s := (s.outcomes.opens,
    if s.outcomes.opens then { s with files := { s.files with tmp := some .torn } } else s)
  writeTmp text s := { s with
    files := { s.files with tmp := some (if s.outcomes.writes then .text text else .torn) } }
  renameTmp s := (s.outcomes.renames,
    if s.outcomes.renames then { s with files := ⟨s.files.tmp, none⟩ } else s)
  now s := (s.clock.headD 0, { s with clock := s.clock.tail })

section SetNode

variable (s : Cluster) (node : UInt32) (n n' : DataNode) (c c' : Connection)

@[simp] theorem nodes_setNode_self : (s.setNode node n c).nodes node = n :=
  Function.update_self _ _ _

@[simp] theorem connections_setNode_self : (s.setNode node n c).connections node = c :=
  Function.update_self _ _ _

@[simp] theorem setNode_setNode :
    (s.setNode node n c).setNode node n' c' = s.setNode node n' c' := by
  simp only [setNode, Function.update_idem]

@[simp] theorem setNode_self : s.setNode node (s.nodes node) (s.connections node) = s := by
  simp only [setNode, Function.update_eq_self]

variable {node}

theorem nodes_setNode_of_ne {other : UInt32} (h : other ≠ node) :
    (s.setNode node n c).nodes other = s.nodes other :=
  Function.update_of_ne h _ _

theorem connections_setNode_of_ne {other : UInt32} (h : other ≠ node) :
    (s.setNode node n c).connections other = s.connections other :=
  Function.update_of_ne h _ _

end SetNode

theorem connections_send (s : Cluster) (node : UInt32) (data : Bytes) :
    (s.send node data).connections node
      = if (s.connections node).sendOutcome.executed then
          (s.connections node).send.answer ((s.nodes node).serve data).1
        else (s.connections node).send := by
  unfold send
  dsimp only
  split_ifs <;> exact Function.update_self _ _ _

theorem nodes_send (s : Cluster) (node : UInt32) (data : Bytes) :
    (s.send node data).nodes
      = if (s.connections node).sendOutcome.executed then
          Function.update s.nodes node ((s.nodes node).serve data).2
        else s.nodes := by
  unfold send
  dsimp only
  split_ifs <;> rfl

end Cluster

/-! ## One request -/

/-- A whole request is one call of the handler, and nothing of it stays behind. -/
theorem serveBytes_request {n n' : DataNode} {reqId : UInt32} {payload resp : Bytes}
    (hfit : 10 + payload.length < 2 ^ 32)
    (hh : DataNode.handleBinaryRequest reqId payload n = some (resp, n')) :
    serveBytes DataNode.handleBinaryRequest n (encodeCustomRequest reqId payload) []
      = ⟨[⟨reqId, payload, packResponse reqId resp, n'⟩], [], n', .recvFailed⟩ :=
  serveBytes_one hfit hh

theorem serve_request {n n' : DataNode} {reqId : UInt32} {payload resp : Bytes}
    (hfit : 10 + payload.length < 2 ^ 32)
    (hh : DataNode.handleBinaryRequest reqId payload n = some (resp, n')) :
    n.serve (encodeCustomRequest reqId payload) = (packResponse reqId resp, n') := by
  rw [DataNode.serve, serveBytes_request hfit hh]
  simp

/-- Every response is a frame whose length field is its length, narrowed to 32 bits. -/
theorem isReply_packResponse (reqId : UInt32) (resp : Bytes) : IsReply (packResponse reqId resp) := by
  have hlen : (packResponse reqId resp).length = 15 + (statusValue resp).2.length := by
    simp only [packResponse, encodeResponse, length_frame, List.length_cons, List.length_append,
      length_be]
    omega
  refine ⟨?_, by omega⟩
  rw [hlen, packResponse, encodeResponse, frameLength, frame, List.take_left' (length_be _ _),
    readBE_be]
  have hpow : (256 : ℕ) ^ 4 = 2 ^ 32 := by norm_num
  rw [hpow]
  omega

end LeKV
