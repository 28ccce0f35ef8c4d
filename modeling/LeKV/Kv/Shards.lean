import LeKV.Kv.Routing
import LeKV.Lib.Text
import LeKV.Rpc.BinaryProtocol

/-!
# The routing table as text (`kv/raft_node.cpp`)

`handleMasterShards` lists the tablets as `id:start:end:ip:port`, joined by spaces. The boundaries
are written as they are.
-/

namespace LeKV

open Bytes BinaryProtocol Text

/-- The separator of the fields of a tablet. -/
def COLON : UInt8 := 0x3A

/-- The separator of the tablets. -/
def SPACE : UInt8 := 0x20

/-- `RaftNode::GetNodeAddr`: `ip:port` of the first peer with this id, empty without one. -/
def getNodeAddr (peers : List PeerInfo) (nodeId : UInt32) : Bytes :=
  match peers.find? fun p => p.id = nodeId.toUInt64 with
  | some p => p.ip ++ COLON :: decimal p.port.toNat
  | none => []

/-- One tablet of the list. -/
def shardSegment (peers : List PeerInfo) (t : Tablet) : Bytes :=
  decimal t.id.toNat ++ COLON :: (t.startKey ++ COLON :: (t.endKey ++ COLON ::
    getNodeAddr peers t.nodeId))

/-- The text of the list: the number of tablets, a space, the tablets. -/
def shardsBody (peers : List PeerInfo) (tablets : List Tablet) : Bytes :=
  decimal (tablets.length % 2 ^ 64) ++ SPACE ::
    [SPACE].intercalate (tablets.map (shardSegment peers))

/-- `RaftNode::HandleMasterShards`. -/
def handleMasterShards (peers : List PeerInfo) (tablets : List Tablet) : Bytes :=
  ST_OK :: shardsBody peers tablets

/-- Peers as the configuration gives them: ids that fit `uint32_t`, and IPv4 addresses. -/
structure ConfiguredPeers (peers : List PeerInfo) : Prop where
  id_lt : ∀ p ∈ peers, p.id.toNat < 2 ^ 32
  ip : ∀ p ∈ peers, ∀ b ∈ p.ip, isDigit b = true ∨ b = 0x2E

/-- A byte string that the text format can carry: no colon and no whitespace. -/
def PlainKey (key : Bytes) : Prop := ∀ b ∈ key, b ≠ COLON ∧ isSpace b = false

instance (key : Bytes) : Decidable (PlainKey key) :=
  inferInstanceAs (Decidable (∀ b ∈ key, _))

theorem PlainKey.colon_notMem {key : Bytes} (h : PlainKey key) : COLON ∉ key :=
  fun hmem => (h COLON hmem).1 rfl

theorem PlainKey.append {a b : Bytes} (ha : PlainKey a) (hb : PlainKey b) : PlainKey (a ++ b) := by
  intro c hc
  rcases List.mem_append.mp hc with h | h
  · exact ha c h
  · exact hb c h

/-- A byte of a number is neither a colon nor whitespace. -/
theorem plain_of_isDigit {b : UInt8} (h : isDigit b = true) : b ≠ COLON ∧ isSpace b = false :=
  ⟨fun heq => absurd (heq ▸ h) (by decide), isSpace_of_isDigit h⟩

theorem plainKey_decimal (n : ℕ) : PlainKey (decimal n) :=
  fun _ hb => plain_of_isDigit (isDigit_of_mem_decimal hb)

/-- A DataNode's address is the one of a configured peer. -/
theorem getNodeAddr_eq {peers : List PeerInfo} (hpeers : ConfiguredPeers peers) {nodeId : UInt32}
    (h : nodeId ∈ dataNodes peers) :
    ∃ p ∈ peers, PlainKey p.ip ∧ getNodeAddr peers nodeId = p.ip ++ COLON :: decimal p.port.toNat := by
  obtain ⟨q, hq, rfl⟩ := List.mem_map.mp h
  have hmem := (List.mem_filter.mp hq).1
  have hid : q.id = q.id.toUInt32.toUInt64 := by
    have hlt := hpeers.id_lt q hmem
    rw [UInt64.ext_iff]
    simp only [UInt32.toNat_toUInt64, UInt64.toNat_toUInt32]
    omega
  obtain ⟨p, hp⟩ : ∃ p, peers.find? (fun p => p.id = q.id.toUInt32.toUInt64) = some p := by
    rw [← Option.isSome_iff_exists, List.find?_isSome]
    exact ⟨q, hmem, by simpa using hid⟩
  have hp' := List.mem_of_find?_eq_some hp
  refine ⟨p, hp', ?_, by rw [getNodeAddr, hp]⟩
  intro b hb
  rcases hpeers.ip p hp' b hb with hdigit | rfl
  · exact plain_of_isDigit hdigit
  · decide

end LeKV
