import LeKV.Kv.Persist
import LeKV.Kv.Routing
import LeKV.Lib.Effects
import LeKV.Lib.SortedMap
import LeKV.Rpc.BinaryProtocol

/-!
# The Master's balancer (`kv/raft_node.cpp`)

The balancer's functions are programs over the operations they perform on the outside: an access to
the Master's members, a call on one of the `RpcClient`s, a step of the file system. `dump` throws
inside the balancer thread, where nothing catches, so `saveTablets` performs `terminate` there.
-/

namespace LeKV

open Bytes BinaryProtocol Effects

/-- The Master's members that the balancer uses. -/
structure Master where
  tablets : List Tablet
  nextTabletId : UInt64
  epoch : UInt64
  transferCount : UInt64
  transferTimeMs : UInt64
deriving DecidableEq, Repr

/-- The members before the constructor's body. -/
def Master.init : Master := ⟨[], 3, 1, 0, 0⟩

/-- The operations of the balancer. `modify` is one assignment to members. -/
inductive MasterOp where
  | get
  | modify (f : Master → Master)
  | isConnected (node : UInt32)
  | send (node : UInt32) (data : Bytes)
  | recvFrame (node : UInt32) (timeoutMs : ℤ)
  | openTmp
  | writeTmp (text : SavedText)
  | renameTmp
  | now
  | terminate

/-- What an operation returns. `now` counts nanoseconds. The result of a write is not looked at. -/
def MasterOp.Res : MasterOp → Type
  | .get => Master
  | .modify _ => Unit
  | .isConnected _ => Bool
  | .send _ _ => Bool
  | .recvFrame _ _ => Option Bytes
  | .openTmp => Bool
  | .writeTmp _ => Unit
  | .renameTmp => Bool
  | .now => ℤ
  | .terminate => Empty

/-- The balancer's operations and their results. -/
abbrev masterSig : Signature := ⟨MasterOp, MasterOp.Res⟩

/-- A program of the balancer. -/
abbrev Balancer (α : Type) : Type := Prog masterSig α

namespace Balancer

/-- Perform one operation. -/
def perform (o : MasterOp) : Balancer o.Res := Prog.op (S := masterSig) o Prog.ret

def get : Balancer Master := perform .get
def modify (f : Master → Master) : Balancer Unit := perform (.modify f)
def isConnected (node : UInt32) : Balancer Bool := perform (.isConnected node)
def send (node : UInt32) (data : Bytes) : Balancer Bool := perform (.send node data)
def recvFrame (node : UInt32) (timeoutMs : ℤ) : Balancer (Option Bytes) :=
  perform (.recvFrame node timeoutMs)
def openTmp : Balancer Bool := perform .openTmp
def writeTmp (text : SavedText) : Balancer Unit := perform (.writeTmp text)
def renameTmp : Balancer Bool := perform .renameTmp
def now : Balancer ℤ := perform .now
def terminate {α : Type} : Balancer α := do nomatch ← perform .terminate

/-! ## Persistence -/

/-- The JSON value of the members. -/
def document (m : Master) : Document := ⟨m.nextTabletId, m.epoch, m.tablets⟩

/-- `RaftNode::SaveTablets`. -/
def saveTablets : Balancer Unit := do
  let m ← get
  if ¬(← openTmp) then return ()
  match dump (document m) with
  | none => terminate
  | some text =>
    writeTmp text
    let _renamed ← renameTmp
    return ()

/-- `RaftNode::LoadTablets` on the content of `tablets.json`. -/
def loadTablets (file : Option FileContent) (m : Master) : Bool × Master :=
  match file with
  | none => (false, m)
  | some content =>
    match content.parse with
    | some d => (true, { m with nextTabletId := d.nextTabletId, epoch := d.epoch, tablets := d.tablets })
    | none => (false, { m with nextTabletId := 3, epoch := 1, tablets := [] })

/-! ## Requests to a DataNode -/

/-- Send a request, receive a frame and decode it; `none` where one of the three failed. `TryDecode`
reads nothing outside a frame that `RecvFrame` cut to its length field. -/
def call (node : UInt32) (timeoutMs : ℤ) (payload : Bytes) : Balancer (Option Bytes) := do
  if ¬(← send node (encodeCustomRequest 1 payload)) then return none
  match ← recvFrame node timeoutMs with
  | none => return none
  | some respFrame =>
    match tryDecode respFrame with
    | some (.ok _ _ respPayload) => return some respPayload
    | _ => return none

/-- The reply of a statistics query: `[1B Status][4B ValueLen][4B KeyCount][2B MedianLen][Median]`. -/
def parseStats (resp : Bytes) : Option (UInt64 × Bytes) := do
  if resp.length < 11 then none
  if resp.head? ≠ some ST_OK then none
  let keyCount ← numAt resp 5 4
  let medLen ← numAt resp 9 2
  if resp.length < 11 + medLen then none
  let median ← bytesAt resp 11 medLen
  return (UInt64.ofNat keyCount, median)

/-- `RaftNode::QueryTabletStats`: the key count and the median, `none` where it returns `false`. -/
def queryTabletStats (node : UInt32) (start end_ : Bytes) : Balancer (Option (UInt64 × Bytes)) := do
  if ¬(← isConnected node) then return none
  match ← call node 3000 (rangePayload OP_TABLET_STATS start end_) with
  | none => return none
  | some resp => return parseStats resp

/-- `RaftNode::SendDeleteRange`. -/
def sendDeleteRange (node : UInt32) (start end_ : Bytes) : Balancer Bool := do
  if ¬(← isConnected node) then return false
  match ← call node 10000 (rangePayload OP_DELETE_RANGE start end_) with
  | none => return false
  | some resp => return decide (resp.head? = some ST_OK)

/-- The number of pairs a scan reply announces: `[Status][4B val_len][4B count]…`. The check of
`val_len` adds in `uint32_t`. -/
def scanCount (resp : Bytes) : Option ℕ := do
  if resp.head? ≠ some ST_OK then none
  if resp.length < 5 then none
  let valLen ← numAt resp 1 4
  if resp.length < (5 + valLen) % 2 ^ 32 then none
  numAt resp 5 4

/-- One pair of a scan reply and the position after it; `none` where the reply ends before. -/
def pairAt (resp : Bytes) (pos : ℕ) : Option ((Bytes × Bytes) × ℕ) := do
  let keyLen ← numAt resp pos 2
  let key ← bytesAt resp (pos + 2) keyLen
  let vlen ← numAt resp (pos + 2 + keyLen) 4
  let value ← bytesAt resp (pos + 2 + keyLen + 4) vlen
  return ((key, value), pos + 2 + keyLen + 4 + vlen)

/-- The transfer loop of `ScanAndTransferData` from round `i` and position `pos` on, with `rounds`
rounds to go: one `PUT` per pair. It counts the replies received, whatever they say. -/
def transferLoop (dst : UInt32) (resp : Bytes) : (rounds i pos transferred : ℕ) → Balancer ℕ
  | 0, _, _, transferred => return transferred
  | rounds + 1, i, pos, transferred =>
    match pairAt resp pos with
    | none => return transferred
    | some (pair, pos') => do
      if ¬(← send dst (encodeRequest (UInt32.ofNat (i + 2)) OP_PUT pair.1 pair.2)) then
        transferLoop dst resp rounds (i + 1) pos' transferred
      else
        match ← recvFrame dst 5000 with
        | none => transferLoop dst resp rounds (i + 1) pos' transferred
        | some _ => transferLoop dst resp rounds (i + 1) pos' (transferred + 1)

/-- `RaftNode::ScanAndTransferData`. -/
def scanAndTransferData (src dst : UInt32) (start end_ : Bytes) : Balancer Bool := do
  if ¬(← isConnected src) then return false
  if ¬(← isConnected dst) then return false
  match ← call src 30000 (rangePayload OP_SCAN_RANGE start end_) with
  | none => return false
  | some resp =>
    match scanCount resp with
    | none => return false
    | some count =>
      let transferred ← transferLoop dst resp count 0 9 0
      return decide (transferred = count)

/-! ## Balancer actions -/

/-- One round of `RaftNode::SyncAllTabletStats`: refresh the key count of tablet `i`. -/
def syncTabletStats (i : ℕ) : Balancer Unit := do
  let m ← get
  match m.tablets[i]? with
  | none => return ()
  | some t =>
    match ← queryTabletStats t.nodeId t.startKey t.endKey with
    | none => return ()
    | some (keyCount, _) =>
      modify fun m => { m with tablets := m.tablets.modify i fun t => { t with keyCount } }

/-- The rounds `i`, `i + 1`, … of `SyncAllTabletStats`, `n` of them. -/
def syncFrom : (n i : ℕ) → Balancer Unit
  | 0, _ => return ()
  | n + 1, i => do
    syncTabletStats i
    syncFrom n (i + 1)

/-- `RaftNode::SyncAllTabletStats`. -/
def syncAllTabletStats : Balancer Unit := do
  let m ← get
  syncFrom m.tablets.length 0

/-- `RaftNode::TrySplitTablet`. The key count checked again after the query is the table's, not the
one the query returned. -/
def trySplitTablet (idx : ℕ) : Balancer Bool := do
  let m ← get
  match m.tablets[idx]? with
  | none => return false
  | some old =>
    if old.keyCount < SPLIT_THRESHOLD then return false
    match ← queryTabletStats old.nodeId old.startKey old.endKey with
    | none => return false
    | some (keyCount, median) =>
      if median = [] ∨ median ≤ old.startKey ∨ (old.endKey ≠ [] ∧ old.endKey ≤ median) then
        return false
      let m ← get
      match m.tablets[idx]? with
      | none => return false
      | some t =>
        if t.id ≠ old.id then return false
        if t.keyCount < SPLIT_THRESHOLD then return false
        let left : Tablet :=
          { old with id := m.nextTabletId, endKey := median, keyCount := keyCount / 2 }
        let right : Tablet :=
          { old with id := m.nextTabletId + 1, startKey := median, keyCount := keyCount - keyCount / 2 }
        modify fun m => { m with nextTabletId := m.nextTabletId + 2 }
        modify fun m => { m with tablets := m.tablets.set idx left }
        modify fun m => { m with tablets := m.tablets.insertIdx (idx + 1) right }
        modify fun m => { m with epoch := m.epoch + 1 }
        saveTablets
        return true

/-- `RaftNode::MigrateTablet`. -/
def migrateTablet (idx : ℕ) (dst : UInt32) : Balancer Bool := do
  let m ← get
  match m.tablets[idx]? with
  | none => return false
  | some t =>
    if t.nodeId = dst then return false
    if ¬(← scanAndTransferData t.nodeId dst t.startKey t.endKey) then return false
    let m ← get
    if (m.tablets[idx]?.map Tablet.id) = some t.id then
      modify fun m => { m with tablets := m.tablets.modify idx fun t => { t with nodeId := dst } }
      modify fun m => { m with epoch := m.epoch + 1 }
      saveTablets
    -- whether the old range was deleted is only logged
    let _deleted ← sendDeleteRange t.nodeId t.startKey t.endKey
    return true

/-- The `std::map` from node to load that `DoLoadBalance` builds. -/
def nodeLoad (tablets : List Tablet) : SortedMap ℕ UInt64 :=
  tablets.foldl (fun load t =>
    load.insert t.nodeId.toNat ((load.find? t.nodeId.toNat).getD 0 + t.keyCount)) .empty

/-- `std::max_element` by the second component: the first of the largest. -/
def maxElement : List (ℕ × UInt64) → Option (ℕ × UInt64)
  | [] => none
  | e :: l => some (l.foldl (fun best x => if best.2 < x.2 then x else best) e)

/-- `std::min_element` by the second component: the first of the smallest. -/
def minElement : List (ℕ × UInt64) → Option (ℕ × UInt64)
  | [] => none
  | e :: l => some (l.foldl (fun best x => if x.2 < best.2 then x else best) e)

/-- The first tablet of `src` with the largest key count, if one has a key. -/
def targetTablet (tablets : List Tablet) (src : UInt32) : Option ℕ :=
  (tablets.zipIdx.foldl (fun (best : Option ℕ × UInt64) (e : Tablet × ℕ) =>
    if e.1.nodeId = src ∧ best.2 < e.1.keyCount then (some e.2, e.1.keyCount) else best)
    (none, 0)).1

/-- What `DoLoadBalance` decides: the tablet to move and the node to move it to. -/
def balanceTarget (tablets : List Tablet) : Option (ℕ × UInt32) := do
  if tablets.length < 2 then none
  let load := (nodeLoad tablets).entries
  if load.length < 2 then none
  let maxIt ← maxElement load
  let minIt ← minElement load
  if (if minIt.2 < maxIt.2 then maxIt.2 - minIt.2 else 0) < BALANCE_DIFF_THRESHOLD then none
  let target ← targetTablet tablets (UInt32.ofNat maxIt.1)
  return (target, UInt32.ofNat minIt.1)

/-- `RaftNode::DoLoadBalance`. The transfer statistics grow whether or not the migration succeeds. -/
def doLoadBalance : Balancer Bool := do
  let m ← get
  match balanceTarget m.tablets with
  | none => return false
  | some (target, dst) =>
    let startTime ← now
    let ok ← migrateTablet target dst
    let endTime ← now
    modify fun m =>
      { m with
        transferCount := m.transferCount + (m.tablets[target]?.map Tablet.keyCount).getD 0
        transferTimeMs := m.transferTimeMs + UInt64.ofInt ((endTime - startTime).tdiv 1000000) }
    return ok

end Balancer

end LeKV
