import LeKV.Kv.Identity
import LeKV.Kv.Loads
import LeKV.Kv.Quiet
import LeKV.Kv.RangeRequests
import LeKV.Kv.Readers

/-!
# What a route reply says (`RaftNode::HandleMasterGetRoute`)

The reply has one byte for the tablet id, and a split takes two new ids. `repliesIdentify_iff` says
for which tables every reply names the tablet it is about.
-/

namespace LeKV

open Bytes BinaryProtocol Balancer

/-- The fields of a route reply. -/
structure RouteReply where
  tabletId : ℕ
  epoch : ℕ
  addr : Bytes
deriving DecidableEq, Repr

/-- A route reply taken apart: `[status][1B tablet id][4B epoch][2B addr_len][addr]`. -/
def decodeRoute (reply : Bytes) : Option RouteReply := do
  if reply.head? ≠ some ST_OK then none
  let tabletId ← numAt reply 1 1
  let epoch ← numAt reply 2 4
  let addrLen ← numAt reply 6 2
  let addr ← bytesAt reply 8 addrLen
  return ⟨tabletId, epoch, addr⟩

/-- What the answer to a request says, if it is a route. -/
def answeredRoute (peers : List PeerInfo) (m : Master) (payload : Bytes) : Option RouteReply :=
  (handleMasterGetRoute peers m payload).bind decodeRoute

/-- The payload asks for a key that is routed to `t`. -/
def AsksFor (m : Master) (payload : Bytes) (t : Tablet) : Prop :=
  ∃ key, parseKey payload = some (some key) ∧ getTabletRoute m.tablets key = some t

/-- Every answer names its tablet, and two tablets are never named alike. -/
structure RepliesIdentify (peers : List PeerInfo) (m : Master) : Prop where
  decoded : ∀ payload t, AsksFor m payload t → answeredRoute peers m payload
    = some ⟨t.id.toNat, m.epoch.toNat, getNodeAddr peers t.nodeId⟩
  distinct : ∀ payload payload' t t', AsksFor m payload t → AsksFor m payload' t' → t ≠ t' →
    (answeredRoute peers m payload).map RouteReply.tabletId
      ≠ (answeredRoute peers m payload').map RouteReply.tabletId

section Replies

variable {peers : List PeerInfo} {m : Master} {payload : Bytes} {t : Tablet}

/-- Each field is narrowed to its width. -/
theorem decodeRoute_routeReply (peers : List PeerInfo) (m : Master) (t : Tablet) :
    decodeRoute (routeReply peers m t) = some ⟨t.id.toNat % 2 ^ 8, m.epoch.toNat % 2 ^ 32,
      (getNodeAddr peers t.nodeId).take ((getNodeAddr peers t.nodeId).length % 2 ^ 16)⟩ := by
  generalize haddr : getNodeAddr peers t.nodeId = addr
  have hreply : routeReply peers m t
      = ST_OK :: t.id.toUInt8 :: (be 4 m.epoch.toNat ++ (be 2 addr.length ++ addr)) := by
    rw [← haddr]
    rfl
  have hid : numAt (routeReply peers m t) 1 1 = some (t.id.toNat % 2 ^ 8) := by
    have h := bytesAt_append [ST_OK] [t.id.toUInt8] (be 4 m.epoch.toNat ++ (be 2 addr.length ++ addr))
      (rfl : 1 = _) (rfl : 1 = _)
    rw [hreply, numAt]
    exact (congrArg (Option.map readBE) h).trans (by simp [readBE])
  have hepoch : numAt (routeReply peers m t) 2 4 = some (m.epoch.toNat % 2 ^ 32) := by
    have h := num32At_append [ST_OK, t.id.toUInt8] (be 2 addr.length ++ addr) m.epoch.toNat
      (rfl : 2 = _)
    rwa [List.cons_append, List.cons_append, List.nil_append, ← hreply] at h
  have hlen : numAt (routeReply peers m t) 6 2 = some (addr.length % 2 ^ 16) := by
    have h := num16At_append (ST_OK :: t.id.toUInt8 :: be 4 m.epoch.toNat) addr addr.length
      (rfl : 6 = _)
    rwa [List.cons_append, List.cons_append, ← hreply] at h
  have hbytes : bytesAt (routeReply peers m t) 8 (addr.length % 2 ^ 16)
      = some (addr.take (addr.length % 2 ^ 16)) := by
    have h := bytesAt_append (ST_OK :: t.id.toUInt8 :: (be 4 m.epoch.toNat ++ be 2 addr.length))
      (addr.take (addr.length % 2 ^ 16)) (addr.drop (addr.length % 2 ^ 16)) (rfl : 8 = _)
      (List.length_take_of_le (Nat.mod_le _ _)).symm
    rwa [List.take_append_drop, List.cons_append, List.cons_append, List.append_assoc, ← hreply] at h
  unfold decodeRoute
  rw [hid, hepoch, hlen]
  simp only [Option.bind_eq_bind, Option.bind_some, hbytes]
  rfl

theorem AsksFor.answeredRoute_eq (h : AsksFor m payload t) :
    answeredRoute peers m payload = some ⟨t.id.toNat % 2 ^ 8, m.epoch.toNat % 2 ^ 32,
      (getNodeAddr peers t.nodeId).take ((getNodeAddr peers t.nodeId).length % 2 ^ 16)⟩ := by
  obtain ⟨key, hkey, hroute⟩ := h
  rw [answeredRoute, handleMasterGetRoute, hkey]
  dsimp only
  rw [hroute, Option.bind_some, decodeRoute_routeReply]

theorem AsksFor.mem (h : AsksFor m payload t) (htiles : Tiles m.tablets) : t ∈ m.tablets := by
  obtain ⟨key, -, hroute⟩ := h
  exact (htiles.getTabletRoute_eq_some.mp hroute).1

/-- Every tablet is asked for by its first key. -/
theorem asksFor_startKey (htiles : Tiles m.tablets) (ht : t ∈ m.tablets) (hshort : Short t.startKey) :
    AsksFor m (keyPayload t.startKey) t :=
  ⟨t.startKey, parseKey_keyPayload hshort,
    htiles.getTabletRoute_eq_some.mpr ⟨ht, htiles.contains_startKey ht⟩⟩

/-- In a reachable table every tablet can be asked for. -/
theorem Reachable.exists_asksFor (h : Reachable peers m) (ht : t ∈ m.tablets) :
    ∃ payload, AsksFor m payload t :=
  ⟨_, asksFor_startKey h.tiles ht (h.short t ht).1⟩

/-- The replies identify the tablets exactly when the ids fit one byte each and are different in it,
and the addresses fit their length field. -/
theorem Reachable.repliesIdentify_iff_mod (h : Reachable peers m) (hepoch : m.epoch.toNat < 2 ^ 32) :
    RepliesIdentify peers m ↔
      (∀ t ∈ m.tablets, t.id.toNat < 2 ^ 8 ∧ (getNodeAddr peers t.nodeId).length < 2 ^ 16) ∧
      ∀ t ∈ m.tablets, ∀ u ∈ m.tablets, t.id.toNat % 2 ^ 8 = u.id.toNat % 2 ^ 8 → t = u := by
  constructor
  · intro hreplies
    refine ⟨fun t ht => ?_, fun t ht u hu heq => ?_⟩
    · obtain ⟨payload, hasks⟩ := h.exists_asksFor ht
      have hfields := Option.some.inj (hasks.answeredRoute_eq.symm.trans (hreplies.decoded _ _ hasks))
      obtain ⟨hid, -, haddr⟩ := RouteReply.mk.inj hfields
      have hlen := congrArg List.length haddr
      rw [List.length_take_of_le (Nat.mod_le _ _)] at hlen
      constructor
      · rw [← hid]
        exact Nat.mod_lt _ (by norm_num)
      · rw [← hlen]
        exact Nat.mod_lt _ (by norm_num)
    · by_contra hne
      obtain ⟨payload, hasks⟩ := h.exists_asksFor ht
      obtain ⟨payload', hasks'⟩ := h.exists_asksFor hu
      refine hreplies.distinct _ _ _ _ hasks hasks' hne ?_
      rw [hasks.answeredRoute_eq, hasks'.answeredRoute_eq, Option.map_some, Option.map_some, heq]
  · rintro ⟨hfit, hdistinct⟩
    refine ⟨fun payload t hasks => ?_, fun payload payload' t u hasks hasks' hne heq => hne ?_⟩
    · obtain ⟨hid, haddr⟩ := hfit t (hasks.mem h.tiles)
      rw [hasks.answeredRoute_eq, Nat.mod_eq_of_lt hid, Nat.mod_eq_of_lt hepoch,
        Nat.mod_eq_of_lt haddr, List.take_length]
    · rw [hasks.answeredRoute_eq, hasks'.answeredRoute_eq] at heq
      exact hdistinct t (hasks.mem h.tiles) u (hasks'.mem h.tiles) (Option.some.inj heq)

/-- In a reachable state the replies identify the tablets exactly when every id fits its byte, no id
is given twice, and the addresses fit their length field. -/
theorem repliesIdentify_iff (h : Reachable peers m) (hepoch : m.epoch.toNat < 2 ^ 32) :
    RepliesIdentify peers m ↔
      (∀ t ∈ m.tablets, t.id.toNat < 2 ^ 8 ∧ (getNodeAddr peers t.nodeId).length < 2 ^ 16) ∧
      ∀ t ∈ m.tablets, ∀ u ∈ m.tablets, t.id = u.id → t = u := by
  rw [h.repliesIdentify_iff_mod hepoch]
  refine and_congr_right fun hfit => ?_
  constructor
  · intro hdistinct t ht u hu heq
    exact hdistinct t ht u hu (by rw [heq])
  · intro hdistinct t ht u hu heq
    rw [Nat.mod_eq_of_lt (hfit t ht).1, Nat.mod_eq_of_lt (hfit u hu).1] at heq
    exact hdistinct t ht u hu (UInt64.toNat_inj.mp heq)

/-- The initial table, after statistics. -/
theorem repliesIdentify_initial : RepliesIdentify twoNodes (counted twoNodes fun _ => 9) := by
  refine (repliesIdentify_iff (reachable_counted (by decide) (by decide) _) (by decide)).mpr ⟨?_, ?_⟩
  · decide
  · decide

end Replies

/-! ## A long run -/

/-- DataNodes that always answer with 100 keys and this median. -/
def offering (median : Bytes) : Environment Unit where
  isConnected node _ := decide (node ∈ dataNodes twoNodes)
  send _ _ s := (true, s)
  recvFrame _ _ s :=
    (some (packResponse 1 (ST_OK :: (be 4 100 ++ (be 2 median.length ++ median)))), s)
  openTmp s := (false, s)
  writeTmp _ s := s
  renameTmp s := (false, s)
  now s := (0, s)

theorem run_queryTabletStats_offering {median : Bytes} (hshort : Short median) (m : Master)
    {node : UInt32} (hnode : node ∈ dataNodes twoNodes) (start end_ : Bytes) :
    (offering median).run (queryTabletStats node start end_) (m, ())
      = (some (some (100, median)), (m, ())) := by
  have hlen : 15 + (be 4 100 ++ (be 2 median.length ++ median)).length < 2 ^ 32 := by
    unfold Short at hshort
    simp only [List.length_append, length_be]
    omega
  have hdecode := decodeReply_whole 1 ST_OK hlen
  have hparse := parseStats_response 100 hshort (be 4 100 ++ (be 2 median.length ++ median)).length
  have hreceived : decodeReply ((offering median).recvFrame node 3000 ((offering median).send node
      (encodeCustomRequest 1 (rangePayload OP_TABLET_STATS start end_)) ()).2).1 = _ := hdecode
  unfold queryTabletStats
  rw [Environment.run_isConnected]
  show (offering median).run (if ¬decide (node ∈ dataNodes twoNodes) = true then _ else _) _ = _
  rw [if_neg (not_not.mpr (decide_eq_true hnode)),
    Environment.run_bind_some (Environment.run_call (E := offering median) rfl 3000), hreceived]
  dsimp only
  rw [hparse]
  rfl

/-- The last tablet was split `n` times, each time behind its first key. -/
structure SplitLast (n : ℕ) (m : Master) : Prop where
  reachable : Reachable twoNodes m
  nextId : m.nextTabletId.toNat = 3 + 2 * n
  epoch : m.epoch.toNat = 1 + n
  table : ∃ l t, m.tablets = l ++ [t] ∧ (∃ u ∈ l, u.id.toNat = 1) ∧
    (∃ u ∈ l, u.id.toNat = 1 + 2 * n) ∧ t.nodeId = 3 ∧ t.endKey = [] ∧
    t.startKey.length = 1 + n ∧ ¬t.keyCount < SPLIT_THRESHOLD

theorem splitLast_counted : SplitLast 0 (counted twoNodes fun _ => 9) where
  reachable := reachable_counted (by decide) (by decide) _
  nextId := by decide
  epoch := by decide
  table := ⟨[⟨1, [], [0x6D], 2, 9⟩], ⟨2, [0x6D], [], 3, 9⟩, by decide, ⟨_, List.mem_cons_self, rfl⟩,
    ⟨_, List.mem_cons_self, rfl⟩, rfl, rfl, rfl, by decide⟩

/-- One more split. -/
theorem SplitLast.next {n : ℕ} {m : Master} (h : SplitLast n m) (hn : n < 1000) :
    ∃ m', SplitLast (n + 1) m' := by
  obtain ⟨l, t, htablets, hfirst, -, hnode, hend, hlen, hbig⟩ := h.table
  -- the next key after the start, so that the last tablet can always be split once more
  let median := t.startKey ++ [0]
  have hshort : Short median := by
    unfold Short
    rw [List.length_append, hlen, List.length_singleton]
    omega
  have hlt : t.startKey < median := by
    refine lt_of_le_of_ne ?_ fun heq => ?_
    · exact not_lt.mp List.le_append_left
    · have hlength := congrArg List.length heq
      simp [median] at hlength
  have hpoint : SplitPoint t median := ⟨hshort, hlt, .inl hend⟩
  have hidx : m.tablets[l.length]? = some t := by
    rw [htablets]
    simp
  have hserved : t.nodeId ∈ dataNodes twoNodes := by
    rw [hnode]
    decide
  obtain ⟨r, s', -, -, hrun⟩ := Environment.run_trySplitTablet_point hidx hbig
    (run_queryTabletStats_offering hshort m hserved _ _) (keepsFiles_true _) trivial hpoint
  have hafter : (BalancerAction.split l.length).after (offering median) m ()
      = m.splitAt l.length t 100 median := by
    rw [BalancerAction.after, BalancerAction.prog, hrun]
  refine ⟨_, hafter ▸ h.reachable.act (fun _ _ hconnected => of_decide_eq_true hconnected) ()
    (.split l.length), ?_, ?_, ?_⟩
  · rw [Master.splitAt, toNat_add_two (by rw [h.nextId]; omega), h.nextId]
    omega
  · rw [Master.splitAt, toNat_add_one (by rw [h.epoch]; omega), h.epoch]
    omega
  · obtain ⟨u, hu, hone⟩ := hfirst
    refine ⟨l ++ [{ t with id := m.nextTabletId, endKey := median, keyCount := 100 / 2 }],
      { t with id := m.nextTabletId + 1, startKey := median, keyCount := 100 - 100 / 2 }, ?_, ⟨u, List.mem_append_left _ hu, hone⟩,
      ⟨_, List.mem_append_right _ List.mem_cons_self, ?_⟩, hnode, hend, ?_, ?_⟩
    · rw [Master.splitAt, htablets, set_insertIdx_append, List.append_assoc]
      rfl
    · show m.nextTabletId.toNat = _
      rw [h.nextId]
      omega
    · show median.length = _
      rw [List.length_append, hlen, List.length_singleton, Nat.add_assoc]
    · show ¬(100 - 100 / 2 : UInt64) < SPLIT_THRESHOLD
      decide

theorem exists_splitLast (n : ℕ) (hn : n ≤ 1000) : ∃ m, SplitLast n m := by
  induction n with
  | zero => exact ⟨_, splitLast_counted⟩
  | succ n ih =>
    obtain ⟨m, hm⟩ := ih (by omega)
    exact hm.next (by omega)

/-- After 128 splits the tablets 1 and 257 answer alike. -/
theorem not_repliesIdentify : ¬∀ peers m, Reachable peers m → m.epoch.toNat < 2 ^ 32 →
    RepliesIdentify peers m := by
  intro hall
  obtain ⟨m, h⟩ := exists_splitLast 128 (by norm_num)
  have hepoch : m.epoch.toNat < 2 ^ 32 := by
    rw [h.epoch]
    norm_num
  obtain ⟨l, t, htablets, ⟨u, hu, hone⟩, ⟨v, hv, hlast⟩, -⟩ := h.table
  have hmem : ∀ w ∈ l, w ∈ m.tablets := by
    intro w hw
    rw [htablets]
    exact List.mem_append_left _ hw
  have hdistinct := ((h.reachable.repliesIdentify_iff_mod hepoch).mp
    (hall twoNodes m h.reachable hepoch)).2
  have hbyte : u.id.toNat % 2 ^ 8 = v.id.toNat % 2 ^ 8 := by
    rw [hone, hlast]
    norm_num
  have heq : u = v := hdistinct u (hmem u hu) v (hmem v hv) hbyte
  rw [heq, hlast] at hone
  exact absurd hone (by norm_num)

end LeKV
