import LeKV.Kv.Ownership
import LeKV.Kv.Stores
import LeKV.Lib.Sharding

/-!
# Clients of the cluster (`lekv_cli.cpp`)

A client looks up the tablet of its key and sends one request to the tablet's node. `sharded` is what
the cluster amounts to: who owns a key, and what the DataNodes hold. On working DataNodes a client's
request answers and does what it would on a single map, `update` applied at the owner.
-/

namespace LeKV

open Bytes BinaryProtocol Sharding

/-- The node of the tablet that the lookup returns. -/
def ownerOf (tablets : List Tablet) (key : Bytes) : UInt32 :=
  ((getTabletRoute tablets key).map Tablet.nodeId).getD 0

theorem Tiles.ownerOf_eq_iff {tablets : List Tablet} (h : Tiles tablets) {key : Bytes}
    {node : UInt32} : ownerOf tablets key = node ↔ Owner tablets key node := by
  obtain ⟨t, hroute, howner⟩ := h.route_owner key
  have heq : ownerOf tablets key = t.nodeId := by
    rw [ownerOf, hroute]
    rfl
  rw [heq]
  exact ⟨fun hn => hn ▸ howner, fun hn => h.owner_unique howner hn⟩

theorem Tiles.ownerOf_of_mem {tablets : List Tablet} (h : Tiles tablets) {t : Tablet}
    (ht : t ∈ tablets) {key : Bytes} (hk : t.Contains key) : ownerOf tablets key = t.nodeId :=
  h.ownerOf_eq_iff.mpr ⟨t, ht, hk, rfl⟩

/-- The owners after a move. -/
theorem Tiles.ownerOf_moveTo {m : Master} (h : Tiles m.tablets) {idx : ℕ} {t : Tablet}
    (hidx : m.tablets[idx]? = some t) (dst : UInt32) (k : Bytes) :
    ownerOf (m.moveTo idx dst).tablets k = if t.Contains k then dst else ownerOf m.tablets k := by
  refine (h.moveTo : Tiles (m.moveTo idx dst).tablets).ownerOf_eq_iff.mpr
    ((owner_moveTo h hidx).mpr ?_)
  split_ifs
  · rfl
  · exact h.ownerOf_eq_iff.mp rfl

/-- The Master's members, and everything around. -/
abbrev World := Master × Cluster

/-- Who owns a key, and what the DataNodes hold. -/
def World.sharded (w : World) : Sharded UInt32 Bytes Bytes where
  owner := ownerOf w.1.tablets
  store node := (w.2.nodes node).lookup

/-! ## The operations -/

/-- A client's operation. -/
inductive ClientOp where
  | put (key value : Bytes)
  | get (key : Bytes)
  | delete (key : Bytes)
deriving DecidableEq, Repr

namespace ClientOp

def key : ClientOp → Bytes
  | put key _ => key
  | get key => key
  | delete key => key

/-- The payload of the request. -/
def payload : ClientOp → Bytes
  | put key value => kvPayload OP_PUT key value
  | get key => kvPayload OP_GET key []
  | delete key => kvPayload OP_DELETE key []

/-- The key fits its length field and the request fits a frame. -/
def Fits : ClientOp → Prop
  | put key value => key.length < 2 ^ 16 ∧ 17 + key.length + value.length < 2 ^ 32
  | get key => key.length < 2 ^ 16
  | delete key => key.length < 2 ^ 16

instance (o : ClientOp) : Decidable o.Fits :=
  match o with
  | put _ _ => inferInstanceAs (Decidable (_ ∧ _))
  | get _ => inferInstanceAs (Decidable (_ < _))
  | delete _ => inferInstanceAs (Decidable (_ < _))

/-- The operation, done at the node of the tablet that the lookup returns: the response, and what is
left behind. -/
def exec (o : ClientOp) (reqId : UInt32) (w : World) : Option (Bytes × World) := do
  let t ← getTabletRoute w.1.tablets o.key
  let (resp, n) ← DataNode.handleBinaryRequest reqId o.payload (w.2.nodes t.nodeId)
  return (resp, (w.1, { w.2 with nodes := Function.update w.2.nodes t.nodeId n }))

/-! ## One map -/

/-- The status and value that a single map answers with. -/
def answer (σ : Bytes → Option Bytes) : ClientOp → Bytes
  | put _ _ => [ST_OK]
  | get key =>
    match σ key with
    | some value => ST_OK :: value
    | none => [ST_NOT_FOUND]
  | delete _ => [ST_OK]

/-- What the operation leaves of a single map. -/
def update (σ : Bytes → Option Bytes) : ClientOp → Bytes → Option Bytes
  | put key value => Function.update σ key (some value)
  | get _ => σ
  | delete key => Function.update σ key none

/-- The answer depends on the key of the operation only. -/
theorem answer_congr {σ τ : Bytes → Option Bytes} {o : ClientOp} (h : σ o.key = τ o.key) :
    o.answer σ = o.answer τ := by
  cases o with
  | put key value => rfl
  | get key =>
    have hkey : σ key = τ key := h
    rw [answer, answer, hkey]
  | delete key => rfl

/-- The operation changes its own key only. -/
theorem update_of_ne (σ : Bytes → Option Bytes) (o : ClientOp) {k : Bytes} (h : k ≠ o.key) :
    o.update σ k = σ k := by
  cases o with
  | put key value => exact Function.update_of_ne h _ _
  | get key => rfl
  | delete key => exact Function.update_of_ne h _ _

theorem update_key_congr {σ τ : Bytes → Option Bytes} {o : ClientOp} (h : σ o.key = τ o.key) :
    o.update σ o.key = o.update τ o.key := by
  cases o with
  | put key value => rw [update, update, ClientOp.key, Function.update_self, Function.update_self]
  | get key => exact h
  | delete key => rw [update, update, ClientOp.key, Function.update_self, Function.update_self]

end ClientOp

/-- A working DataNode handles a client's request as a single map would. -/
theorem DataNode.Works.handle {n : DataNode} (hn : n.Works) {o : ClientOp} (hfits : o.Fits)
    (reqId : UInt32) :
    ∃ n', DataNode.handleBinaryRequest reqId o.payload n = some (o.answer n.lookup, n') ∧
      n'.Works ∧ n'.lookup = o.update n.lookup := by
  cases o with
  | put key value =>
    obtain ⟨hkey, hfit⟩ := hfits
    obtain ⟨hresp, hworks⟩ := hn.put key value
    refine ⟨(n.put key value).2, ?_, hworks, funext fun k => ?_⟩
    · rw [ClientOp.payload, DataNode.handleBinaryRequest_put n reqId hkey (by omega),
        ClientOp.answer, ← hresp]
    · rw [DataNode.lookup_put, ClientOp.update, Function.update_apply, hn.accepts]
      simp
  | get key =>
    refine ⟨n, ?_, hn, rfl⟩
    have hget : n.get key = (ClientOp.answer n.lookup (.get key), n) :=
      Prod.ext (hn.get key) (n.get_snd key)
    rw [ClientOp.payload, DataNode.handleBinaryRequest_get n reqId hfits, hget]
  | delete key =>
    obtain ⟨hresp, hworks⟩ := hn.delete key
    refine ⟨(n.delete key).2, ?_, hworks, funext fun k => ?_⟩
    · rw [ClientOp.payload, DataNode.handleBinaryRequest_delete n reqId hfits, ClientOp.answer,
        ← hresp]
    · rw [hn.lookup_delete, ClientOp.update, Function.update_apply]

/-- A client's operation on a usable table and working DataNodes. -/
theorem ClientOp.exec_spec {w : World} (htiles : Tiles w.1.tablets)
    (hworks : ∀ node, (w.2.nodes node).Works) {o : ClientOp} (hfits : o.Fits) (reqId : UInt32) :
    ∃ n, o.exec reqId w = some (o.answer w.sharded.view, (w.1,
        { w.2 with nodes := Function.update w.2.nodes (ownerOf w.1.tablets o.key) n })) ∧
      n.Works ∧ n.lookup = o.update (w.2.nodes (ownerOf w.1.tablets o.key)).lookup ∧
      ((w.2.nodes (ownerOf w.1.tablets o.key)).Storables → n.Storables) := by
  obtain ⟨t, hroute, howner⟩ := htiles.route_owner o.key
  have hnode : ownerOf w.1.tablets o.key = t.nodeId := htiles.ownerOf_eq_iff.mpr howner
  obtain ⟨n, hhandle, hn, hlookup⟩ := (hworks t.nodeId).handle hfits reqId
  have hanswer : o.answer (w.2.nodes t.nodeId).lookup = o.answer w.sharded.view := by
    apply ClientOp.answer_congr
    show _ = (w.2.nodes (ownerOf w.1.tablets o.key)).lookup o.key
    rw [hnode]
  rw [hnode]
  refine ⟨n, ?_, hn, hlookup, fun h => DataNode.storables_handleBinaryRequest h hhandle⟩
  rw [ClientOp.exec, hroute, ← hanswer]
  simp only [Option.bind_eq_bind, Option.bind_some, hhandle]
  rfl

/-- Seen from the stores, an operation is a write at the owner of its key. -/
theorem sharded_update {w : World} {o : ClientOp} {n : DataNode}
    (h : n.lookup = o.update (w.2.nodes (ownerOf w.1.tablets o.key)).lookup) :
    World.sharded (w.1,
        { w.2 with nodes := Function.update w.2.nodes (ownerOf w.1.tablets o.key) n })
      = w.sharded.set (w.sharded.owner o.key) o.key (o.update w.sharded.view o.key) := by
  refine Sharded.ext rfl (funext fun node => funext fun k => ?_)
  rw [Sharded.store_set]
  show (Function.update w.2.nodes (ownerOf w.1.tablets o.key) n node).lookup k
    = if node = ownerOf w.1.tablets o.key ∧ k = o.key then _ else (w.2.nodes node).lookup k
  by_cases hnode : node = ownerOf w.1.tablets o.key
  · subst hnode
    rw [Function.update_self, h]
    by_cases hk : k = o.key
    · subst hk
      rw [if_pos ⟨rfl, rfl⟩]
      exact ClientOp.update_key_congr rfl
    · rw [if_neg fun h => hk h.2]
      exact ClientOp.update_of_ne _ _ hk
  · rw [Function.update_of_ne hnode, if_neg fun h => hnode h.1]

/-- The view of an operation at the owner is the operation on the view. -/
theorem update_view (σ : Bytes → Option Bytes) (o : ClientOp) :
    Function.update σ o.key (o.update σ o.key) = o.update σ := by
  funext k
  by_cases hk : k = o.key
  · subst hk
    rw [Function.update_self]
  · rw [Function.update_of_ne hk, ClientOp.update_of_ne _ _ hk]

end LeKV
