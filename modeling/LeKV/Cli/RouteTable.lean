import LeKV.Kv.Shards
import LeKV.Kv.Tiling
import Mathlib.Data.List.Sort

/-!
# The client's routing table (`lekv_cli.cpp`)

`fetchRouteTable` is what `LekvCli::FetchRouteTable` does with the payload of a `SHARDS` response,
`findRoute` its lookup. `shardsRoundTrip_iff` says for which tables the client gets back what the
Master has: the text format loses boundaries that contain a colon or whitespace, and no other.
-/

namespace LeKV

open Bytes BinaryProtocol Text

/-- A tablet as the client keeps it. -/
structure CachedTablet where
  id : UInt64
  start : Bytes
  stop : Bytes
  addr : Bytes
deriving DecidableEq, Repr

/-- `std::stoull`, `none` where it throws. -/
def stoull (s : Bytes) : Option UInt64 :=
  match parseDecimal s with
  | none => none
  | some (negative, n, _) =>
    if 2 ^ 64 ≤ n then none
    else some (if negative then 0 - UInt64.ofNat n else UInt64.ofNat n)

/-- One segment of the body, split at its colons: `some none` where it has fewer than four parts and
is skipped, `none` where `stoull` throws or `parts[4]` does not exist. -/
def parseSegment (segment : Bytes) : Option (Option CachedTablet) :=
  match segment.splitOn COLON with
  | id :: start :: stop :: ip :: rest =>
    match stoull id, rest with
    | some id, port :: _ => some (some ⟨id, start, stop, ip ++ COLON :: port⟩)
    | _, _ => none
  | _ => some none

/-- `LekvCli::FetchRouteTable` on the payload of the response: its result and the table. `none` is
an exception or an access out of bounds. -/
def fetchRouteTable (payload : Bytes) : Option (Bool × List CachedTablet) :=
  if payload.head? ≠ some ST_OK then some (false, [])
  else if payload.length < 5 then none
  else
    match parseDecimal (payload.drop 5) with
    | none => some (false, [])
    | some (_, count, rest) =>
      if 2 ^ 64 ≤ count then some (false, [])
      else
        match (words rest).mapM parseSegment with
        | none => none
        | some parsed =>
          let out := (parsed.filterMap id).insertionSort fun a b => a.start ≤ b.start
          some (!out.isEmpty, out)

/-- `LekvCli::FindRoute`: the address for a key. -/
def findRoute (tablets : List CachedTablet) (key : Bytes) : Option Bytes :=
  if tablets = [] then none
  else
    let left := Search.boundary (fun mid => tablets[mid]?.any fun t => t.start ≤ key)
      tablets.length 0 tablets.length
    if left = 0 then none
    else
      match tablets[left - 1]? with
      | none => none
      | some t => if t.stop ≠ [] ∧ t.stop ≤ key then none else some t.addr

/-- A tablet as the client should get it. -/
def Tablet.cached (peers : List PeerInfo) (t : Tablet) : CachedTablet :=
  ⟨t.id, t.startKey, t.endKey, getNodeAddr peers t.nodeId⟩

/-- The payload of the Master's response to `SHARDS`. -/
def shardsPayload (peers : List PeerInfo) (tablets : List Tablet) : Bytes :=
  ST_OK :: (be 4 (shardsBody peers tablets).length ++ shardsBody peers tablets)

/-- The client gets the Master's table, and finds for every key the address of the tablet the Master
finds. -/
structure ShardsRoundTrip (peers : List PeerInfo) (tablets : List Tablet) : Prop where
  fetch : fetchRouteTable (shardsPayload peers tablets)
    = some (true, tablets.map (Tablet.cached peers))
  route : ∀ key, findRoute (tablets.map (Tablet.cached peers)) key
    = (getTabletRoute tablets key).map fun t => getNodeAddr peers t.nodeId

/-! ## The lookup -/

/-- The client's lookup in the Master's table is the Master's. -/
theorem findRoute_cached (peers : List PeerInfo) (tablets : List Tablet) (key : Bytes) :
    findRoute (tablets.map (Tablet.cached peers)) key
      = (getTabletRoute tablets key).map fun t => getNodeAddr peers t.nodeId := by
  have htest : (fun mid => (tablets.map (Tablet.cached peers))[mid]?.any fun t => t.start ≤ key)
      = startsBefore tablets key := by
    funext mid
    rw [startsBefore, List.getElem?_map, Option.any_map]
    rfl
  rw [findRoute, getTabletRoute, findTabletIndex, htest, List.length_map]
  by_cases hnil : tablets = []
  · simp [hnil]
  rw [if_neg (by simpa using hnil), if_neg hnil]
  generalize Search.boundary (startsBefore tablets key) tablets.length 0 tablets.length = left
  by_cases hleft : left = 0
  · simp [hleft]
  · simp only [if_neg hleft, List.getElem?_map]
    rcases tablets[left - 1]? with _ | t
    · rfl
    · simp only [Option.map_some, Tablet.cached]
      by_cases hend : t.endKey ≠ [] ∧ t.endKey ≤ key
      · simp only [if_pos hend, Option.map_none]
      · simp only [if_neg hend, Option.map_some]

/-! ## Plain boundaries come back -/

theorem stoull_decimal (n : UInt64) : stoull (decimal n.toNat) = some n := by
  have hparse := @parseDecimal_decimal n.toNat [] (by simp)
  rw [List.append_nil] at hparse
  have hlt := n.toNat_lt
  simp only [stoull, hparse, if_neg (Nat.not_le.mpr hlt), Bool.false_eq_true, if_false,
    UInt64.ofNat_toNat]

/-- A segment with plain boundaries is taken apart into the fields it was built from. -/
theorem parseSegment_shardSegment {peers : List PeerInfo} (hpeers : ConfiguredPeers peers)
    {t : Tablet} (hnode : t.nodeId ∈ dataNodes peers) (hstart : PlainKey t.startKey)
    (hend : PlainKey t.endKey) :
    parseSegment (shardSegment peers t) = some (some (t.cached peers)) := by
  obtain ⟨p, -, hip, haddr⟩ := getNodeAddr_eq hpeers hnode
  have hsplit : (shardSegment peers t).splitOn COLON
      = [decimal t.id.toNat, t.startKey, t.endKey, p.ip, decimal p.port.toNat] := by
    rw [shardSegment, haddr,
      List.splitOn_append_cons_self_of_not_mem (plainKey_decimal _).colon_notMem,
      List.splitOn_append_cons_self_of_not_mem hstart.colon_notMem,
      List.splitOn_append_cons_self_of_not_mem hend.colon_notMem,
      List.splitOn_append_cons_self_of_not_mem hip.colon_notMem,
      List.splitOn_eq_singleton (plainKey_decimal _).colon_notMem]
  simp only [parseSegment, hsplit, stoull_decimal, Tablet.cached, haddr]

/-- A segment with plain boundaries is one word. -/
theorem shardSegment_word {peers : List PeerInfo} (hpeers : ConfiguredPeers peers)
    {t : Tablet} (hnode : t.nodeId ∈ dataNodes peers) (hstart : PlainKey t.startKey)
    (hend : PlainKey t.endKey) :
    shardSegment peers t ≠ [] ∧ ∀ b ∈ shardSegment peers t, isSpace b = false := by
  obtain ⟨p, -, hip, haddr⟩ := getNodeAddr_eq hpeers hnode
  refine ⟨by simp [shardSegment], fun b hb => ?_⟩
  have hcolon : ∀ a c : Bytes, (∀ b ∈ a, isSpace b = false) → (∀ b ∈ c, isSpace b = false) →
      ∀ b ∈ a ++ COLON :: c, isSpace b = false := by
    intro a c ha hc b hb
    rcases List.mem_append.mp hb with h | h
    · exact ha b h
    · rcases List.mem_cons.mp h with rfl | h
      · decide
      · exact hc b h
  have hplain : ∀ a : Bytes, PlainKey a → ∀ b ∈ a, isSpace b = false := fun a ha b hb => (ha b hb).2
  rw [shardSegment, haddr] at hb
  exact hcolon _ _ (hplain _ (plainKey_decimal _)) (hcolon _ _ (hplain _ hstart)
    (hcolon _ _ (hplain _ hend) (hcolon _ _ (hplain _ hip) (hplain _ (plainKey_decimal _))))) b hb

theorem mapM_some {α β : Type} {f : α → Option β} {g : α → β} {l : List α}
    (h : ∀ a ∈ l, f a = some (g a)) : l.mapM f = some (l.map g) := by
  induction l with
  | nil => rfl
  | cons a l ih =>
    rw [List.mapM_cons, h a List.mem_cons_self, ih fun b hb => h b (List.mem_cons_of_mem _ hb)]
    rfl

/-- Every result of a successful `mapM` comes from an element. -/
theorem exists_of_mem_mapM {α β : Type} {f : α → Option β} {l : List α} {l' : List β}
    (h : l.mapM f = some l') {b : β} (hb : b ∈ l') : ∃ a ∈ l, f a = some b := by
  induction l generalizing l' with
  | nil =>
    obtain rfl : [] = l' := by simpa using h
    exact absurd hb List.not_mem_nil
  | cons a l ih =>
    rw [List.mapM_cons] at h
    rcases ha : f a with _ | c
    · rw [ha] at h
      exact absurd h (by simp)
    rcases hl : l.mapM f with _ | cs
    · rw [ha, hl] at h
      exact absurd h (by simp)
    rw [ha, hl] at h
    obtain rfl : c :: cs = l' := Option.some.inj h
    rcases List.mem_cons.mp hb with rfl | hb
    · exact ⟨a, List.mem_cons_self, ha⟩
    · obtain ⟨d, hd, hfd⟩ := ih hl hb
      exact ⟨d, List.mem_cons_of_mem _ hd, hfd⟩

/-- What `fetchRouteTable` does with a body whose count and segments it can read. -/
theorem fetchRouteTable_shardsPayload (peers : List PeerInfo) (tablets : List Tablet) :
    fetchRouteTable (shardsPayload peers tablets) =
      match (words (SPACE :: [SPACE].intercalate (tablets.map (shardSegment peers)))).mapM
        parseSegment with
      | none => none
      | some parsed =>
        let out := (parsed.filterMap id).insertionSort fun a b => a.start ≤ b.start
        some (!out.isEmpty, out) := by
  have hdrop : (shardsPayload peers tablets).drop 5 = shardsBody peers tablets := by
    rw [shardsPayload, List.drop_succ_cons]
    exact List.drop_left' (length_be _ _)
  have hlen : ¬(shardsPayload peers tablets).length < 5 := by
    simp only [shardsPayload, List.length_cons, List.length_append, length_be]
    omega
  have hcount : tablets.length % 2 ^ 64 < 2 ^ 64 := Nat.mod_lt _ (by norm_num)
  have hparse : parseDecimal (shardsBody peers tablets) = some (false, tablets.length % 2 ^ 64,
      SPACE :: [SPACE].intercalate (tablets.map (shardSegment peers))) :=
    parseDecimal_decimal _ fun b hb => by
      obtain rfl : SPACE = b := by simpa using hb
      decide
  have hhead : (shardsPayload peers tablets).head? = some ST_OK := rfl
  rw [fetchRouteTable, if_neg (not_not.mpr hhead), if_neg hlen, hdrop, hparse]
  exact if_neg (Nat.not_le.mpr hcount)

/-! ## Only plain boundaries come back -/

/-- The boundaries a segment yields are pieces between its colons. -/
theorem mem_splitOn_of_parseSegment {w : Bytes} {t : CachedTablet}
    (h : parseSegment w = some (some t)) :
    t.start ∈ w.splitOn COLON ∧ t.stop ∈ w.splitOn COLON := by
  unfold parseSegment at h
  rcases hsplit : w.splitOn COLON with _ | ⟨id, _ | ⟨start, _ | ⟨stop, _ | ⟨ip, rest⟩⟩⟩⟩
  · rw [hsplit] at h
    exact absurd h (by simp)
  · rw [hsplit] at h
    exact absurd h (by simp)
  · rw [hsplit] at h
    exact absurd h (by simp)
  · rw [hsplit] at h
    exact absurd h (by simp)
  · rw [hsplit] at h
    rcases hid : stoull id with _ | n
    · simp [hid] at h
    · rcases rest with _ | ⟨port, rest⟩
      · simp [hid] at h
      · obtain rfl : ⟨n, start, stop, ip ++ COLON :: port⟩ = t := by simpa [hid] using h
        simp

/-- Whatever the body, the boundaries of a fetched table are plain. -/
theorem plainKey_of_mem_fetched {payload : Bytes} {ok : Bool} {out : List CachedTablet}
    (h : fetchRouteTable payload = some (ok, out)) {t : CachedTablet} (ht : t ∈ out) :
    PlainKey t.start ∧ PlainKey t.stop := by
  have hempty : ∀ r : Bool, some (r, ([] : List CachedTablet)) = some (ok, out) → False := by
    intro r heq
    obtain ⟨-, rfl⟩ := Prod.mk.inj (Option.some.inj heq)
    exact absurd ht List.not_mem_nil
  unfold fetchRouteTable at h
  split_ifs at h with hstatus hlen
  · exact (hempty _ h).elim
  rcases hdec : parseDecimal (payload.drop 5) with _ | ⟨negative, count, rest⟩
  · rw [hdec] at h
    exact (hempty _ h).elim
  rw [hdec] at h
  dsimp only at h
  split_ifs at h with hcount
  · exact (hempty _ h).elim
  rcases hmap : (words rest).mapM parseSegment with _ | parsed
  · rw [hmap] at h
    exact absurd h (by simp)
  rw [hmap] at h
  obtain ⟨-, rfl⟩ := Prod.mk.inj (Option.some.inj h)
  have hmem : some t ∈ parsed := by
    simpa using (List.mem_insertionSort _).mp ht
  obtain ⟨w, hw, hparse⟩ := exists_of_mem_mapM hmap hmem
  have hplain : ∀ part ∈ w.splitOn COLON, PlainKey part := by
    intro part hpart b hb
    obtain ⟨hbw, hcolon⟩ := of_mem_splitOnP hpart b hb
    exact ⟨by simpa using hcolon, (of_mem_words hw).2 b hbw⟩
  obtain ⟨hstart, hstop⟩ := mem_splitOn_of_parseSegment hparse
  exact ⟨hplain _ hstart, hplain _ hstop⟩

/-! ## The round trip -/

/-- The client gets back a reachable table exactly when all its boundaries are free of colons and
whitespace. -/
theorem shardsRoundTrip_iff {peers : List PeerInfo} (hpeers : ConfiguredPeers peers) {m : Master}
    (h : Reachable peers m) :
    ShardsRoundTrip peers m.tablets ↔
      ∀ t ∈ m.tablets, PlainKey t.startKey ∧ PlainKey t.endKey := by
  constructor
  · intro hround t ht
    exact plainKey_of_mem_fetched hround.fetch (List.mem_map_of_mem ht)
  · intro hplain
    refine ⟨?_, findRoute_cached peers m.tablets⟩
    have hnode := h.spec.2
    have hwords : ∀ w ∈ m.tablets.map (shardSegment peers),
        w ≠ [] ∧ ∀ b ∈ w, isSpace b = false := by
      intro w hw
      obtain ⟨t, ht, rfl⟩ := List.mem_map.mp hw
      exact shardSegment_word hpeers (hnode t ht) (hplain t ht).1 (hplain t ht).2
    have hparse : (m.tablets.map (shardSegment peers)).mapM parseSegment
        = some (m.tablets.map fun t => some (t.cached peers)) := by
      rw [List.mapM_map]
      exact mapM_some fun t ht =>
        parseSegment_shardSegment hpeers (hnode t ht) (hplain t ht).1 (hplain t ht).2
    have hfilter : (m.tablets.map fun t => some (t.cached peers)).filterMap id
        = m.tablets.map (Tablet.cached peers) := by
      rw [List.filterMap_map]
      exact congrFun List.filterMap_eq_map m.tablets
    have hsorted : (m.tablets.map (Tablet.cached peers)).Pairwise fun a b => a.start ≤ b.start :=
      List.pairwise_map.mpr (h.tiles.starts_increase.imp fun hlt => hlt.le)
    have hne : (m.tablets.map (Tablet.cached peers)).isEmpty = false := by
      simpa using h.tiles.ne_nil
    rw [fetchRouteTable_shardsPayload, words_intercalate (by decide) hwords, hparse]
    simp only [hfilter, hsorted.insertionSort_eq, hne, Bool.not_false]

theorem configuredPeers_twoNodes : ConfiguredPeers twoNodes :=
  ⟨by decide, by decide +kernel⟩

/-- A split at `g` keeps the table readable. -/
theorem shardsRoundTrip_afterSplit : ShardsRoundTrip twoNodes (afterSplit [0x67]).tablets :=
  (shardsRoundTrip_iff configuredPeers_twoNodes (reachable_afterSplit [0x67])).mpr
    (by decide +kernel)

/-- A split at the key `a:b` does not: the client reads a tablet that ends at `a`. -/
theorem not_shardsRoundTrip_colon :
    Reachable twoNodes (afterSplit [0x61, 0x3A, 0x62]) ∧
      ¬ShardsRoundTrip twoNodes (afterSplit [0x61, 0x3A, 0x62]).tablets :=
  ⟨reachable_afterSplit _, fun h => absurd h.fetch (by decide)⟩

end LeKV
