import LeKV.Kv.Shards
import LeKV.Kv.Visits

/-!
# Requests served while the balancer runs

The server threads read `tablets_` without a lock while the balancer assigns to it. `Seen` are the
members that a request can find: those between two actions, and those between two steps of one.
`readersServed_iff` says which of them answer every request for a route: all but the table in which a
split has replaced a tablet by its left half and not yet inserted the right one.
-/

namespace LeKV

open Bytes BinaryProtocol Effects

/-- The key of a route request `[1B opcode][2B key_len][key]`, `some none` where the payload is too
short for it. -/
def parseKey (payload : Bytes) : Option (Option Bytes) := do
  if payload.length < 3 then return none
  let keyLen ← numAt payload 1 2
  if payload.length < 3 + keyLen then return none
  let key ← bytesAt payload 3 keyLen
  return some key

/-- The reply that names a tablet: `[status][1B tablet id][4B epoch][2B addr_len][addr]`. -/
def routeReply (peers : List PeerInfo) (m : Master) (t : Tablet) : Bytes :=
  let addr := getNodeAddr peers t.nodeId
  ST_OK :: t.id.toUInt8 :: (be 4 m.epoch.toNat ++ (be 2 addr.length ++ addr))

/-- `RaftNode::HandleMasterGetRoute`; `none` is a read outside the payload. -/
def handleMasterGetRoute (peers : List PeerInfo) (m : Master) (payload : Bytes) : Option Bytes :=
  match parseKey payload with
  | none => none
  | some none => some [ST_BAD_REQUEST]
  | some (some key) =>
    match getTabletRoute m.tablets key with
    | none => some [ST_NO_SHARD]
    | some t => some (routeReply peers m t)

/-- The payload of a route request. -/
def keyPayload (key : Bytes) : Bytes := OP_GET_ROUTE :: (be 2 key.length ++ key)

theorem parseKey_keyPayload {key : Bytes} (hkey : key.length < 2 ^ 16) :
    parseKey (keyPayload key) = some (some key) := by
  have hlen : (keyPayload key).length = 3 + key.length := by
    simp only [keyPayload, List.length_cons, List.length_append, length_be]
    omega
  have hkl : numAt (keyPayload key) 1 2 = some key.length := by
    have h := num16At_append [OP_GET_ROUTE] key key.length rfl
    rwa [Nat.mod_eq_of_lt hkey] at h
  have hk : bytesAt (keyPayload key) 3 key.length = some key := by
    have h := bytesAt_append (OP_GET_ROUTE :: be 2 key.length) key [] (rfl : 3 = _) rfl
    rwa [List.append_nil, List.cons_append] at h
  unfold parseKey
  simp only [Option.bind_eq_bind]
  rw [hlen, if_neg (by omega), hkl, Option.bind_some, if_neg (by omega), hk, Option.bind_some]
  rfl

/-- Every route request finds a tablet that contains its key, and the table that is listed tiles the
key space. -/
structure ReadersServed (peers : List PeerInfo) (m : Master) : Prop where
  getRoute : ∀ payload key, parseKey payload = some (some key) → ∃ t ∈ m.tablets,
    t.Contains key ∧ handleMasterGetRoute peers m payload = some (routeReply peers m t)
  shards : Tiling m.tablets

/-- The members a request can find, and the operation that the balancer performs next, if it is in an
action. -/
inductive Seen (peers : List PeerInfo) : Option MasterOp → Master → Prop where
  | between {m : Master} (h : Reachable peers m) : Seen peers none m
  | during {m : Master} (h : Reachable peers m) {σ : Type} {E : Environment σ} (hE : E.Serves peers)
      {s : σ} {a : BalancerAction} {o : MasterOp} {w : Master × σ}
      (hvisit : (o, w) ∈ E.visits a.prog (m, s)) : Seen peers (some o) w.1

/-- The balancer is about to insert a tablet. -/
def Inserting (o : Option MasterOp) (m : Master) : Prop :=
  ∃ f, o = some (.modify f) ∧ m.tablets.length < (f m).tablets.length

/-- On a usable table every request is served. -/
theorem Tiles.readersServed {m : Master} (h : Tiles m.tablets) (peers : List PeerInfo) :
    ReadersServed peers m where
  getRoute payload key hkey := by
    obtain ⟨t, ht, hroute, hcontains⟩ := h.getTabletRoute_isSome key
    refine ⟨t, ht, hcontains, ?_⟩
    rw [handleMasterGetRoute, hkey]
    dsimp only
    rw [hroute]
  shards := h.tiling

section HalfSplit

variable {σ : Type} {m : Master} {x : MasterOp × (Master × σ)}

/-- In the middle of a split no tablet contains the median. -/
theorem HalfSplit.hole (h : Tiles m.tablets) (hx : HalfSplit m x) :
    ∃ median, median.length < 2 ^ 16 ∧ ∀ t ∈ x.2.1.tablets, ¬t.Contains median := by
  obtain ⟨idx, old, keyCount, median, hidx, hpoint, htablets, -⟩ := hx
  refine ⟨median, hpoint.length_lt, fun t ht hcontains => ?_⟩
  have hold : old.Contains median := ⟨hpoint.start_lt.le, hpoint.lt_end⟩
  rw [htablets] at ht
  obtain ⟨n, hn⟩ := List.mem_iff_getElem?.mp ht
  by_cases hni : idx = n
  · -- the left half ends before the median
    subst hni
    have hlt : idx < m.tablets.length := (List.getElem?_eq_some_iff.mp hidx).1
    rw [List.getElem?_set_self hlt] at hn
    obtain rfl := Option.some.inj hn
    rcases hcontains.2 with hnil | hlt
    · exact Bytes.ne_nil_of_lt hpoint.start_lt hnil
    · exact absurd hlt (lt_irrefl _)
  · rw [List.getElem?_set_ne hni] at hn
    exact hni (h.contains_unique hidx hn hold hcontains)

theorem HalfSplit.inserting (hx : HalfSplit m x) : Inserting (some x.1) x.2.1 := by
  obtain ⟨idx, old, keyCount, median, hidx, -, htablets, hop⟩ := hx
  have hlt : idx < m.tablets.length := (List.getElem?_eq_some_iff.mp hidx).1
  refine ⟨_, congrArg some hop, ?_⟩
  rw [insertTablet, htablets, List.length_insertIdx, List.length_set, if_pos (by omega)]
  exact Nat.lt_succ_self _

/-- In the middle of a split the requests for the median are not served. -/
theorem HalfSplit.not_readersServed (h : Tiles m.tablets) (hx : HalfSplit m x)
    (peers : List PeerInfo) : ¬ReadersServed peers x.2.1 := by
  intro hserved
  obtain ⟨median, hshort, hhole⟩ := hx.hole h
  obtain ⟨t, ht, hcontains, -⟩ := hserved.getRoute _ median (parseKey_keyPayload hshort)
  exact hhole t ht hcontains

end HalfSplit

/-- All requests that find the members `m` are served, if and only if the balancer is not about to
insert a tablet. -/
theorem readersServed_iff {peers : List PeerInfo} {o : Option MasterOp} {m : Master}
    (h : Seen peers o m) : ReadersServed peers m ↔ ¬Inserting o m := by
  cases h with
  | between h =>
    apply iff_of_true (h.tiles.readersServed peers)
    rintro ⟨f, hf, -⟩
    exact absurd hf (by simp)
  | during h hE hvisit =>
    rcases settled_or_halfSplit tableInvariant_tiles h.tiles _ hvisit with hsettled | hhalf
    · apply iff_of_true (hsettled.table.readersServed peers)
      rintro ⟨f, hf, hlt⟩
      exact hsettled.not_grows ⟨f, Option.some.inj hf, hlt⟩
    · exact iff_of_false (hhalf.not_readersServed h.tiles peers) (not_not.mpr hhalf.inserting)

/-- Between two actions the requests are served. -/
theorem readersServed_afterSplit : ReadersServed twoNodes (afterSplit [0x67]) := by
  apply (readersServed_iff (.between (reachable_afterSplit [0x67]))).mpr
  rintro ⟨f, hf, -⟩
  exact absurd hf (by simp)

/-- The members that a split at `g` starts from. -/
def beforeSplit : Master :=
  BalancerAction.after .sync (nineKeys [0x67])
    { Master.init with tablets := [⟨1, [], [0x6D], 2, 0⟩, ⟨2, [0x6D], [], 3, 0⟩] } ()

/-- The members between the two assignments of that split. -/
theorem seen_middle : ∃ o m, Seen twoNodes (some o) m ∧
    m.tablets = [⟨3, [], [0x67], 2, 4⟩, ⟨2, [0x6D], [], 3, 9⟩] := by
  have hserves : (nineKeys [0x67]).Serves twoNodes := by
    intro node _ hconnected
    rcases of_decide_eq_true hconnected with rfl | rfl <;> decide
  have hreachable : Reachable twoNodes beforeSplit :=
    .act (.init (by decide) (by decide)) hserves () .sync
  obtain ⟨x, hx, htablets⟩ : ∃ x, ((nineKeys [0x67]).visits (BalancerAction.split 0).prog
      (beforeSplit, ()))[7]? = some x ∧
      x.2.1.tablets = [⟨3, [], [0x67], 2, 4⟩, ⟨2, [0x6D], [], 3, 9⟩] := ⟨_, rfl, by decide⟩
  exact ⟨x.1, x.2.1, .during hreachable hserves (List.mem_of_getElem? hx), htablets⟩

/-- A request for `h` that comes in the middle of a split at `g` finds no tablet. -/
theorem not_readersServed_split : ¬∀ (peers : List PeerInfo) (o : Option MasterOp) (m : Master),
    Seen peers o m → ReadersServed peers m := by
  intro hall
  obtain ⟨o, m, hseen, htablets⟩ := seen_middle
  obtain ⟨t, ht, hcontains, -⟩ := (hall twoNodes _ m hseen).getRoute (keyPayload [0x68]) [0x68]
    (parseKey_keyPayload (by decide))
  rw [htablets] at ht
  revert t
  decide

end LeKV
