import LeKV.Kv.LateReplies

/-!
# What a migration deletes

`ScanAndTransferData` reads the pairs from whatever frame comes first after its scan request, and
counts the frames after its `PUT`s without a look at their status. So a destination whose storage
refuses a pair is taken for one that has it, and an old reply for the one to the scan.
`migrationSafe_iff` says when a migration that goes on to delete the range at the source has stored
all of it at the destination.
-/

namespace LeKV

open Bytes BinaryProtocol Balancer

/-- The boundaries of the tablet fit the two-byte lengths of a request. -/
def Tablet.Bounded (t : Tablet) : Prop := t.startKey.length < 2 ^ 16 ∧ t.endKey.length < 2 ^ 16

/-- The keys of the tablet, as requests name them. -/
def Tablet.range (t : Tablet) (h : t.Bounded) : KeyRange := ⟨t.startKey, t.endKey, h.1, h.2⟩

/-- The pairs that a store holds in a tablet. -/
def Tablet.pairs (t : Tablet) (st : StorageEngine) : List (Bytes × Bytes) :=
  st.rangeQuery t.startKey t.endKey

theorem Tablet.mem_pairs {t : Tablet} {n : DataNode} {st : StorageEngine} (hst : n.storage = some st)
    {e : Bytes × Bytes} : e ∈ t.pairs st ↔ n.lookup e.1 = some e.2 ∧ t.Contains e.1 := by
  rw [Tablet.pairs, StorageEngine.mem_rangeQuery, DataNode.lookup, hst]
  exact Iff.rfl

/-- `MigrateTablet` has switched the route, or returned `true`. -/
def GoesOn (m : Master) (idx : ℕ) (dst : UInt32) (r : Option Bool) : Prop :=
  m.tablets[idx]?.map Tablet.nodeId = some dst ∨ r = some true

/-- If the migration of a tablet away from its node goes on, the destination ends up with every pair
the source held in the tablet. -/
def MigrationSafe (m : Master) (s : Cluster) (idx : ℕ) (dst : UInt32) : Prop :=
  ∀ t, m.tablets[idx]? = some t → t.nodeId ≠ dst → ∀ r m' s',
    Cluster.env.run (migrateTablet idx dst) (m, s) = (r, (m', s')) → GoesOn m' idx dst r →
    ∀ k v, t.Contains k → (s.nodes t.nodeId).lookup k = some v → (s'.nodes dst).lookup k = some v

/-- When the `PUT`s of `pairs` are executed, the destination ends up with every pair that the source
holds in the tablet. -/
def StoresTablet (s : Cluster) (dst : UInt32) (t : Tablet) (pairs : List (Bytes × Bytes)) : Prop :=
  ∀ k v, t.Contains k → (s.nodes t.nodeId).lookup k = some v →
    (s.nodes dst).EndsWith (executedPairs (s.connections dst).sends pairs) k v

/-! ## The end of a migration -/

/-- The file operations leave the nodes and the connections alone. -/
theorem keepsFiles_of (P : (UInt32 → DataNode) → (UInt32 → Connection) → Prop) :
    Cluster.env.KeepsFiles fun s => P s.nodes s.connections where
  openTmp s hs := by
    show P (if s.outcomes.opens then _ else _ : Cluster).nodes
      (if s.outcomes.opens then _ else _ : Cluster).connections
    split_ifs <;> exact hs
  writeTmp text s hs := hs
  renameTmp s hs := by
    show P (if s.outcomes.renames then _ else _ : Cluster).nodes
      (if s.outcomes.renames then _ else _ : Cluster).connections
    split_ifs <;> exact hs

/-- After the route is switched, only a range deletion still changes the stores. -/
theorem run_finish_keeps {J : (UInt32 → DataNode) → Prop} {src : UInt32} {r : KeyRange}
    (hdelete : ∀ nodes, J nodes →
      J (Function.update nodes src ((nodes src).deleteRange r.start r.end_).2))
    (m : Master) {s : Cluster} (hs : J s.nodes) :
    ∃ result s', Cluster.env.run (do
        saveTablets
        let _deleted ← sendDeleteRange src r.start r.end_
        return true) (m, s) = (result, (m, s')) ∧ J s'.nodes := by
  obtain ⟨saved, s₁, hsave, hnodes⟩ :=
    Environment.run_saveTablets (keepsFiles_of fun nodes _ => nodes = s.nodes) m (s := s) rfl
  rcases saved with _ | _
  · exact ⟨none, s₁, Environment.run_bind_none hsave _, hnodes ▸ hs⟩
  · have hrequests : Requests (fun q => q = ⟨src, 1, rangePayload OP_DELETE_RANGE r.start r.end_⟩)
        (fun _ => True) (sendDeleteRange src r.start r.end_) := sendDeleteRange_requests rfl
    obtain ⟨deleted, s₂, hdel, -, hs₂⟩ := hrequests.run (J := fun s' => J s'.nodes) (by
      rintro q t s' rfl hs'
      rw [Cluster.nodes_after, nodes_send_deleteRange s' r]
      split_ifs
      · exact hdelete s'.nodes hs'
      · exact hs') m (s := s₁) (hnodes ▸ hs)
    exact ⟨some true, s₂, (Environment.run_bind_some hsave _).trans
      (Environment.run_bind_some hdel _), hs₂⟩

/-- So the other DataNodes stay as they are. -/
theorem run_finish (m : Master) (s : Cluster) (src : UInt32) (r : KeyRange) :
    ∃ result s', Cluster.env.run (do
        saveTablets
        let _deleted ← sendDeleteRange src r.start r.end_
        return true) (m, s) = (result, (m, s')) ∧
      ∀ node, node ≠ src → s'.nodes node = s.nodes node :=
  run_finish_keeps (J := fun nodes => ∀ node, node ≠ src → nodes node = s.nodes node)
    (fun _ hnodes node hne => (Function.update_of_ne hne _ _).trans (hnodes node hne)) m
    fun _ _ => rfl

section Run

variable {m : Master} {s : Cluster} {idx : ℕ} {dst : UInt32} {t : Tablet}

/-- Where the transfer reports success, the route is switched and the destination has executed the
`PUT`s. In all other cases the migration stops, with the route as it was. -/
theorem run_migrateTablet_iff (hidx : m.tablets[idx]? = some t) (hne : t.nodeId ≠ dst)
    (hbounded : t.Bounded) :
    (∃ pairs, Reported s t.nodeId dst (t.range hbounded) pairs ∧
      ∃ r s', Cluster.env.run (migrateTablet idx dst) (m, s) = (r, (m.moveTo idx dst, s')) ∧
        s'.nodes dst
          = (s.nodes dst).putAll (executedPairs (s.connections dst).sends pairs)) ∨
    ((∀ pairs, ¬Reported s t.nodeId dst (t.range hbounded) pairs) ∧
      ∃ s', Cluster.env.run (migrateTablet idx dst) (m, s) = (some false, (m, s'))) := by
  obtain ⟨ok, s₁, hscan, hok, hnodes⟩ := run_scanAndTransferData_iff m s hne (t.range hbounded)
  rw [Environment.run_migrateTablet hidx hne hscan]
  cases ok with
  | false =>
    refine .inr ⟨fun pairs hreported => ?_, s₁, rfl⟩
    exact Bool.false_ne_true (hok.mpr ⟨pairs, hreported⟩)
  | true =>
    obtain ⟨pairs, hreported⟩ := hok.mp rfl
    obtain ⟨result, s', hrun, hfinish⟩ := run_finish (m.moveTo idx dst) s₁ t.nodeId
      (t.range hbounded)
    refine .inl ⟨pairs, hreported, result, s', hrun, ?_⟩
    rw [hfinish dst hne.symm, hnodes pairs hreported]
    exact Function.update_self _ _ _

theorem Master.moveTo_nodeId (h : m.tablets[idx]? = some t) :
    (m.moveTo idx dst).tablets[idx]?.map Tablet.nodeId = some dst := by
  rw [Master.moveTo, List.getElem?_modify_eq, h]
  rfl

/-- A migration that goes on has stored the whole tablet at its destination, if and only if the
destination ends up with it whenever the transfer reports success. -/
theorem migrationSafe_iff (hidx : m.tablets[idx]? = some t) (hne : t.nodeId ≠ dst)
    (hbounded : t.Bounded) : MigrationSafe m s idx dst ↔
      ∀ pairs, Reported s t.nodeId dst (t.range hbounded) pairs → StoresTablet s dst t pairs := by
  rcases run_migrateTablet_iff (s := s) hidx hne hbounded with
    ⟨pairs, hreported, r, s', hrun, hnode⟩ | ⟨hnone, s', hrun⟩
  · constructor
    · intro hsafe pairs' hreported' k v hk hv
      obtain ⟨-, rfl⟩ := hreported.scanned.unique hreported'.scanned
      rw [← DataNode.lookup_putAll_iff, ← hnode]
      exact hsafe t hidx hne r _ s' hrun (.inl (Master.moveTo_nodeId hidx)) k v hk hv
    · intro hstores t' ht' _ r' m' s₁ hrun' _ k v hk hv
      obtain rfl : t = t' := Option.some.inj (hidx.symm.trans ht')
      obtain ⟨-, -, rfl⟩ : r = r' ∧ m.moveTo idx dst = m' ∧ s' = s₁ := by
        simpa using hrun.symm.trans hrun'
      rw [hnode, DataNode.lookup_putAll_iff]
      exact hstores pairs hreported k v hk hv
  · -- the migration has stopped
    refine iff_of_true ?_ fun pairs hreported => absurd hreported (hnone pairs)
    intro t' ht' _ r' m' s₁ hrun' hgoes k v hk hv
    obtain ⟨rfl, rfl, -⟩ : some false = r' ∧ m = m' ∧ s' = s₁ := by
      simpa using hrun.symm.trans hrun'
    rcases hgoes with hroute | hresult
    · rw [hidx] at hroute
      exact absurd (Option.some.inj hroute) hne
    · exact absurd (Option.some.inj hresult) Bool.false_ne_true

end Run

/-! ## A destination that refuses, and one that accepts -/

/-- The initial table of `twoNodes`. -/
def initialMaster : Master :=
  { Master.init with tablets := [⟨1, [], [0x6D], 2, 0⟩, ⟨2, [0x6D], [], 3, 0⟩] }

/-- The key `a` with the value `1` on node 2; the next writes on node 3 have the outcomes
`outcomes`. -/
def oneKey (outcomes : List Bool) : Cluster :=
  { Cluster.quiet with
    nodes := fun node =>
      if node = 2 then ⟨some ⟨SortedMap.empty.insert [0x61] [0x31], []⟩⟩
      else ⟨some ⟨.empty, outcomes⟩⟩ }

theorem oneKey_transfer (outcomes : List Bool) :
    TransferSucceeds (oneKey outcomes) 2 3 ⟨[], [0x6D], by decide, by decide⟩
      ⟨SortedMap.empty.insert [0x61] [0x31], []⟩ where
  storage := rfl
  connected_src := rfl
  connected_dst := rfl
  scan := by
    show Connection.Delivers .fresh _
    decide
  readable := ⟨by decide, by decide, by decide⟩
  puts i hi := ⟨rfl, le_refl 15⟩

/-- The pair is read from the source's reply, and its `PUT` is acknowledged. -/
theorem oneKey_reported (outcomes : List Bool) :
    Reported (oneKey outcomes) 2 3 ⟨[], [0x6D], by decide, by decide⟩ [([0x61], [0x31])] := by
  refine (oneKey_transfer outcomes).reported (by decide) rfl rfl ?_
  rintro st ⟨⟩
  decide

/-- Where the destination accepts the pair, the migration is safe. -/
theorem migrationSafe_iff_accepted : MigrationSafe initialMaster (oneKey []) 0 3 := by
  refine (migrationSafe_iff (t := ⟨1, [], [0x6D], 2, 0⟩) rfl (by decide)
    ⟨by decide, by decide⟩).mpr fun pairs hreported k v _ hv => ?_
  obtain ⟨-, rfl⟩ := (oneKey_reported []).scanned.unique hreported.scanned
  have hpair : (k, v) ∈ [(([0x61] : Bytes), ([0x31] : Bytes))] := SortedMap.find?_eq_some.mp hv
  obtain ⟨rfl, rfl⟩ := Prod.mk.inj (List.mem_singleton.mp hpair)
  refine .inl ⟨0, ⟨rfl, rfl⟩, fun j e he _ => ?_⟩
  have hlt : j < 1 := (List.getElem?_eq_some_iff.mp he.1).1
  omega

/-- Where the destination refuses it, the migration goes on all the same. -/
theorem not_migrationSafe_refused : ¬MigrationSafe initialMaster (oneKey [false]) 0 3 := by
  intro hsafe
  have hidx : initialMaster.tablets[0]? = some ⟨1, [], [0x6D], 2, 0⟩ := rfl
  have hne : (⟨1, [], [0x6D], 2, 0⟩ : Tablet).nodeId ≠ 3 := by decide
  rcases run_migrateTablet_iff (s := oneKey [false]) hidx hne ⟨by decide, by decide⟩ with
    ⟨pairs, hreported, r, s', hrun, hnode⟩ | ⟨hnone, -⟩
  · obtain ⟨-, rfl⟩ := (oneKey_reported [false]).scanned.unique hreported.scanned
    have hlost := hsafe _ rfl (by decide) r _ s' hrun (.inl (by decide)) [0x61] [0x31] (by decide)
      (by decide)
    rw [hnode] at hlost
    exact absurd hlost (by decide)
  · exact hnone _ (oneKey_reported [false])

end LeKV
