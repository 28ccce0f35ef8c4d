import LeKV.Kv.Healthy

/-!
# The balancer's bookkeeping

Between two writes of clients the key counts and the loads are exact, and stay so whatever the
balancer does. The one thing that can go wrong is a split whose table cannot be saved
(`bookkeeping_iff`).
-/

namespace LeKV

open Bytes BinaryProtocol Balancer

/-! ## Tables that can be saved -/

/-- A key that `dump` accepts. -/
def Utf8 (key : Bytes) : Prop := validUtf8 key = true

instance (key : Bytes) : Decidable (Utf8 key) := inferInstanceAs (Decidable (_ = true))

/-- The table after a split is saved exactly when the old boundaries and the median can be. -/
theorem dumpable_splitAt {m : Master} {idx : ℕ} {t : Tablet} (count : UInt64) (median : Bytes)
    (hidx : m.tablets[idx]? = some t) :
    (document (m.splitAt idx t count median)).Dumpable ↔ Boundaries Utf8 m.tablets ∧ Utf8 median := by
  obtain ⟨rest, hold, hnew⟩ := mem_splitAt count median hidx
  constructor
  · intro h
    have hleft := h _ ((hnew _).mpr (.inl rfl))
    have hright := h _ ((hnew _).mpr (.inr (.inl rfl)))
    refine ⟨fun u hu => ?_, hleft.2⟩
    rcases (hold u).mp hu with rfl | hu
    · exact ⟨hleft.1, hright.2⟩
    · exact h u ((hnew u).mpr (.inr (.inr hu)))
  · rintro ⟨hall, hmedian⟩ u hu
    rcases (hnew u).mp hu with rfl | rfl | hu
    · exact ⟨(hall t ((hold t).mpr (.inl rfl))).1, hmedian⟩
    · exact ⟨hmedian, (hall t ((hold t).mpr (.inl rfl))).2⟩
    · exact hall u ((hold u).mpr (.inr hu))

theorem dump_eq_none {d : Document} : dump d = none ↔ ¬d.Dumpable := by
  unfold dump
  split_ifs with h <;> simp [h]

/-- Wherever there is a tablet to split, the boundaries and its median are valid UTF-8. -/
def SavesSplits (w : World) : Prop :=
  ∀ t ∈ w.1.tablets, 6 ≤ ((w.2.nodes t.nodeId).keysIn t).length →
    Boundaries Utf8 w.1.tablets ∧ Utf8 ((w.2.nodes t.nodeId).medianIn t)

/-! ## The result -/

/-- The key counts and loads are those of the stores, also after a split or a migration, whatever the
file operations do. The halves of a tablet differ by at most one key, and a tablet with enough keys
is split. -/
structure Bookkeeping (w : World) : Prop where
  counted : Counted w
  loads : LoadsExact w
  split : ∀ (idx : ℕ) (outcomes : FileOutcomes) (clock : List ℤ) (w' : World),
    Cluster.env.run (trySplitTablet idx) (w.1, { w.2 with outcomes, clock }) = (some true, w') →
    Counted w' ∧ LoadsExact w' ∧ ∃ t median, w.1.tablets[idx]? = some t ∧
      w'.1 = w.1.splitAt idx t t.keyCount median ∧
      (w.1.leftHalf t t.keyCount median).keyCount.toNat
        ≤ (w.1.rightHalf t t.keyCount median).keyCount.toNat ∧
      (w.1.rightHalf t t.keyCount median).keyCount.toNat
        ≤ (w.1.leftHalf t t.keyCount median).keyCount.toNat + 1
  succeeds : ∀ (idx : ℕ) (t : Tablet), w.1.tablets[idx]? = some t → ¬t.keyCount < SPLIT_THRESHOLD →
    ∀ (outcomes : FileOutcomes) (clock : List ℤ), ∃ w',
      Cluster.env.run (trySplitTablet idx) (w.1, { w.2 with outcomes, clock }) = (some true, w')
  migrate : ∀ (idx : ℕ) (dst : UInt32) (outcomes : FileOutcomes) (clock : List ℤ) (w' : World),
    (BalancerAction.migrate idx dst).Fits w →
    Cluster.env.run (migrateTablet idx dst) (w.1, { w.2 with outcomes, clock }) = (some true, w') →
    Counted w' ∧ LoadsExact w'

section Result

variable {σ : Bytes → Option Bytes} {w : World}

/-- Where every split goes through, the table that it leaves can be saved. -/
theorem Healthy.savesSplits (h : Healthy σ w) (hfew : FewKeys σ) (hb : Bookkeeping w) :
    SavesSplits w := by
  intro t ht hcount
  have hbig : 6 ≤ t.keyCount.toNat := (hb.counted t ht).symm ▸ hcount
  obtain ⟨idx, hidx⟩ := List.mem_iff_getElem?.mp ht
  -- with a file that opens, a table that `dump` refuses leaves no result
  obtain ⟨w', hrun⟩ :=
    hb.succeeds idx t hidx (not_lt_splitThreshold.mpr hbig) ⟨true, true, true⟩ w.2.clock
  obtain ⟨-, -, s', hrun', -⟩ :=
    (h.of_files ⟨true, true, true⟩ w.2.clock).split hfew hb.counted hidx hbig
  have hresult := congrArg Prod.fst (hrun'.symm.trans hrun)
  apply (dumpable_splitAt t.keyCount ((w.2.nodes t.nodeId).medianIn t) hidx).mp
  by_contra hnot
  rw [if_pos ⟨rfl, dump_eq_none.mpr hnot⟩] at hresult
  exact absurd hresult (by simp)

theorem Healthy.bookkeeping (h : Healthy σ w) (hfew : FewKeys σ) (hcounted : Counted w)
    (hsaves : SavesSplits w) : Bookkeeping w where
  counted := hcounted
  loads := hcounted.loadsExact h.toRefines hfew
  split idx outcomes clock w' hrun := by
    have hfiles := h.of_files outcomes clock
    by_cases hbig : ∃ t, w.1.tablets[idx]? = some t ∧ 6 ≤ t.keyCount.toNat
    swap
    · have hsmall : ∀ t, w.1.tablets[idx]? = some t → t.keyCount < SPLIT_THRESHOLD := by
        intro t hidx
        by_contra hnot
        exact hbig ⟨t, hidx, not_lt_splitThreshold.mp hnot⟩
      have hrun' := Environment.run_trySplitTablet_of_small (E := Cluster.env)
        (s := { w.2 with outcomes, clock }) hsmall
      exact absurd (congrArg Prod.fst (hrun'.symm.trans hrun)) (by simp)
    obtain ⟨t, hidx, hbig⟩ := hbig
    obtain ⟨-, -, s', hrun', hhealthy, hcounted', -⟩ := hfiles.split hfew hcounted hidx hbig
    obtain ⟨-, rfl⟩ := Prod.mk.inj (hrun'.symm.trans hrun)
    obtain ⟨hleft, hright⟩ := toNat_half t.keyCount
    refine ⟨hcounted', hcounted'.loadsExact hhealthy.toRefines hfew, t, _, hidx, rfl, ?_, ?_⟩
    · show (t.keyCount / 2).toNat ≤ (t.keyCount - t.keyCount / 2).toNat
      omega
    · show (t.keyCount - t.keyCount / 2).toNat ≤ (t.keyCount / 2).toNat + 1
      omega
  succeeds idx t hidx hbig outcomes clock := by
    have ht : t ∈ w.1.tablets := List.mem_of_getElem? hidx
    have hbig' := not_lt_splitThreshold.mp hbig
    obtain ⟨-, -, s', hrun, -⟩ := (h.of_files outcomes clock).split hfew hcounted hidx hbig'
    have hdump := (dumpable_splitAt t.keyCount _ hidx).mpr (hsaves t ht (hcounted t ht ▸ hbig'))
    exact ⟨_, hrun.trans (by rw [if_neg fun hnone => dump_eq_none.mp hnone.2 hdump])⟩
  migrate idx dst outcomes clock w' hfits hrun := by
    obtain ⟨hhealthy, hcounted'⟩ := (h.of_files outcomes clock).migrate hcounted hfits hrun
    exact ⟨hcounted', hcounted'.loadsExact hhealthy.toRefines hfew⟩

end Result

/-- After any statistics of a run, as long as no client writes: the bookkeeping is exact, and every
split goes through, exactly when the boundaries of the tables that splits leave are valid UTF-8. -/
theorem bookkeeping_iff {peers : List PeerInfo} {w₀ w : World} {ops : List ClientOp}
    (hstart : Start peers w₀) (h : SinceSync w₀ ops w) (hfew : FewKeys (mapAfter ops)) :
    Bookkeeping w ↔ SavesSplits w := by
  obtain ⟨hhealthy, hcounted⟩ := h.counted hstart hfew
  exact ⟨hhealthy.savesSplits hfew, hhealthy.bookkeeping hfew hcounted⟩

/-! ## Six keys -/

/-- Clients write the keys. -/
def writes (keys : List Bytes) : List ClientOp := keys.map fun key => .put key [0x31]

theorem mapAfter_writes (keys : List Bytes) (k : Bytes) :
    mapAfter (writes keys) k = if k ∈ keys then some [0x31] else none := by
  induction keys using List.reverseRecOn with
  | nil => rfl
  | append_singleton keys key ih =>
    rw [writes, List.map_append, List.map_singleton, mapAfter_append]
    show Function.update (mapAfter (writes keys)) key (some [0x31]) k = _
    rw [Function.update_apply, ih]
    by_cases hk : k = key <;> simp [hk]

theorem fewKeys_writes {keys : List Bytes} (h : keys.length < 2 ^ 32) :
    FewKeys (mapAfter (writes keys)) := by
  refine ⟨keys, h, fun k hk => ?_⟩
  by_contra hnot
  exact hk ((mapAfter_writes keys k).trans (if_neg hnot))

theorem exists_run_writes {keys : List Bytes} (hkeys : ∀ k ∈ keys, k.length < 2 ^ 16) :
    ∃ w, Run (initialMaster, emptyCluster) (writes keys) w ∧ w.1 = initialMaster := by
  induction keys using List.reverseRecOn with
  | nil => exact ⟨_, .start, rfl⟩
  | append_singleton keys key ih =>
    obtain ⟨w, hrun, hmaster⟩ := ih fun k hk => hkeys k (List.mem_append_left _ hk)
    have hhealthy := hrun.healthy emptyCluster_start
    have hkey : key.length < 2 ^ 16 := hkeys key (by simp)
    have hfits : (ClientOp.put key [0x31]).Fits := by
      refine ⟨hkey, ?_⟩
      show 17 + key.length + 1 < 2 ^ 32
      omega
    obtain ⟨w', hexec, -⟩ := hhealthy.toRefines.exec hfits 0
    have htable := (hhealthy.exec hfits hexec).2
    refine ⟨w', ?_, htable.trans hmaster⟩
    rw [writes, List.map_append]
    exact hrun.client hfits hexec

/-- Keys are written, and then counted. -/
theorem exists_sinceSync_writes {keys : List Bytes} (hlen : keys.length < 2 ^ 32)
    (hkeys : ∀ k ∈ keys, k.length < 2 ^ 16) :
    ∃ w nodes, SinceSync (initialMaster, emptyCluster) (writes keys) w ∧
      w.1.tablets = initialMaster.tablets.map (Cluster.recount nodes) := by
  obtain ⟨w, hrun, hmaster⟩ := exists_run_writes hkeys
  obtain ⟨w', hsync, -, -, htablets, -⟩ :=
    ((hrun.healthy emptyCluster_start).of_files w.2.outcomes w.2.clock).sync (fewKeys_writes hlen)
  have hprog : Cluster.env.run BalancerAction.sync.prog w = (some true, w') :=
    Environment.run_bind_some hsync _
  exact ⟨w', w.2.nodes, .sync hrun w.2.outcomes w.2.clock hprog, hmaster ▸ htablets⟩

/-- The keys of a tablet after the keys were written. -/
theorem keysIn_writes {keys : List Bytes} {w : World} {t : Tablet}
    (h : Refines (mapAfter (writes keys)) w) (hsorted : keys.Pairwise (· < ·))
    (ht : t ∈ w.1.tablets) :
    (w.2.nodes t.nodeId).keysIn t = keys.filter fun k => t.Contains k := by
  apply List.Pairwise.eq_of_mem_iff (DataNode.keysIn_sorted _ _) (hsorted.filter _)
  intro k
  rw [h.mem_keysIn ht, mapAfter_writes, List.mem_filter, decide_eq_true_eq]
  apply and_congr_left
  intro _
  split_ifs with hk <;> simp [hk]

/-- With the keys `a` to `f` the bookkeeping is exact: the first tablet is split at `d`. -/
theorem bookkeeping_ascii : ∃ w, SinceSync (initialMaster, emptyCluster)
    (writes [[0x61], [0x62], [0x63], [0x64], [0x65], [0x66]]) w ∧ Bookkeeping w := by
  have hlen : [[0x61], [0x62], [0x63], [0x64], [0x65], [(0x66 : UInt8)]].length < 2 ^ 32 := by decide
  obtain ⟨w, nodes, h, htablets⟩ := exists_sinceSync_writes hlen (by decide)
  have hfew := fewKeys_writes hlen
  have hhealthy := (h.counted emptyCluster_start hfew).1
  refine ⟨w, h, (bookkeeping_iff emptyCluster_start h hfew).mpr fun t ht hsix => ?_⟩
  have hkeys := keysIn_writes hhealthy.toRefines (by decide) ht
  have hboundaries : Boundaries Utf8 initialMaster.tablets := by
    unfold Boundaries
    decide
  have hassignment : assignment w.1.tablets = assignment initialMaster.tablets := by
    rw [htablets]
    rfl
  refine ⟨hboundaries.of_assignment_eq hassignment, ?_⟩
  rw [htablets] at ht
  obtain ⟨u, hu, rfl⟩ := List.mem_map.mp ht
  have hcases : u = ⟨1, [], [0x6D], 2, 0⟩ ∨ u = ⟨2, [0x6D], [], 3, 0⟩ := by
    simpa [initialMaster] using hu
  rcases hcases with rfl | rfl
  · have hall : List.filter (fun k => (Tablet.mk 1 [] [0x6D] 2 0).Contains k)
        [[0x61], [0x62], [0x63], [0x64], [0x65], [0x66]]
          = [[0x61], [0x62], [0x63], [0x64], [0x65], [0x66]] := by decide
    rw [DataNode.medianIn, hkeys.trans hall]
    decide
  · -- the second tablet is empty
    have hnone : List.filter (fun k => (Tablet.mk 2 [0x6D] [] 3 0).Contains k)
        [[0x61], [0x62], [0x63], [0x64], [0x65], [0x66]] = [] := by decide
    rw [hkeys.trans hnone] at hsix
    exact absurd hsix (by decide)

/-- Six keys from byte 80 on are in the second tablet: it is split at byte 83, and `dump` throws. -/
theorem not_bookkeeping_binary : ¬∀ (peers : List PeerInfo) (w₀ w : World) (ops : List ClientOp),
    Start peers w₀ → SinceSync w₀ ops w → FewKeys (mapAfter ops) → Bookkeeping w := by
  intro hall
  have hlen : [[0x80], [0x81], [0x82], [0x83], [0x84], [(0x85 : UInt8)]].length < 2 ^ 32 := by decide
  obtain ⟨w, nodes, h, htablets⟩ := exists_sinceSync_writes hlen (by decide)
  have hfew := fewKeys_writes hlen
  have hhealthy := (h.counted emptyCluster_start hfew).1
  have hsaves := hhealthy.savesSplits hfew (hall _ _ w _ emptyCluster_start h hfew)
  have ht : Cluster.recount nodes ⟨2, [0x6D], [], 3, 0⟩ ∈ w.1.tablets := by
    rw [htablets]
    exact List.mem_map_of_mem (by decide)
  have hkeys := keysIn_writes hhealthy.toRefines (by decide) ht
  have hfilter : List.filter (fun k => (Tablet.mk 2 [0x6D] [] 3 0).Contains k)
      [[0x80], [0x81], [0x82], [0x83], [0x84], [0x85]]
        = [[0x80], [0x81], [0x82], [0x83], [0x84], [0x85]] := by decide
  have hkeys' := hkeys.trans hfilter
  have hmedian := (hsaves _ ht (by rw [hkeys']; decide)).2
  rw [DataNode.medianIn, hkeys'] at hmedian
  exact absurd hmedian (by decide)

end LeKV
