import LeKV.Kv.Environment

/-!
# What one balancer action does

One lemma for each of the Master's balancing functions, in any environment: which new members it can
leave, and under which guards. Everything later that is about a run of the balancer starts from
these lemmas.
-/

namespace LeKV

open Bytes BinaryProtocol Effects

/-- The members after a split: the two halves of `old` with fresh ids. -/
def Master.splitAt (m : Master) (idx : ℕ) (old : Tablet) (keyCount : UInt64) (median : Bytes) :
    Master :=
  { m with
    nextTabletId := m.nextTabletId + 2
    tablets := (m.tablets.set idx
      { old with id := m.nextTabletId, endKey := median, keyCount := keyCount / 2 }).insertIdx
        (idx + 1)
        { old with
          id := m.nextTabletId + 1, startKey := median, keyCount := keyCount - keyCount / 2 }
    epoch := m.epoch + 1 }

/-- The members after a migration. -/
def Master.moveTo (m : Master) (idx : ℕ) (dst : UInt32) : Master :=
  { m with
    tablets := m.tablets.modify idx fun t => { t with nodeId := dst }
    epoch := m.epoch + 1 }

/-- The tablets without their key counts. -/
def assignment (tablets : List Tablet) : List Tablet :=
  tablets.map fun t => { t with keyCount := 0 }

theorem assignment_modify_keyCount (tablets : List Tablet) (i : ℕ) (keyCount : UInt64) :
    assignment (tablets.modify i fun t => { t with keyCount }) = assignment tablets := by
  refine map_modify_eq ?_ tablets i
  exact fun t => rfl

/-- All boundaries of the table satisfy `P`. -/
def Boundaries (P : Bytes → Prop) (tablets : List Tablet) : Prop :=
  ∀ t ∈ tablets, P t.startKey ∧ P t.endKey

theorem boundaries_true (tablets : List Tablet) : Boundaries (fun _ => True) tablets :=
  fun _ _ => ⟨trivial, trivial⟩

theorem Boundaries.of_assignment_eq {P : Bytes → Prop} {ts tablets : List Tablet}
    (h : Boundaries P tablets) (heq : assignment ts = assignment tablets) : Boundaries P ts := by
  intro t ht
  have hmem : { t with keyCount := 0 } ∈ assignment tablets := heq ▸ List.mem_map_of_mem ht
  obtain ⟨u, hu, hut⟩ := List.mem_map.mp hmem
  obtain ⟨-, hstart, hend, -⟩ := Tablet.mk.inj hut
  exact hstart ▸ hend ▸ h u hu

/-- A median at which `TrySplitTablet` splits: strictly inside the tablet. -/
structure SplitPoint (old : Tablet) (median : Bytes) : Prop where
  length_lt : median.length < 2 ^ 16
  start_lt : old.startKey < median
  lt_end : old.endKey = [] ∨ median < old.endKey

/-- The checks of `TrySplitTablet` on a median. -/
theorem splitPoint_iff {old : Tablet} {median : Bytes} (hshort : median.length < 2 ^ 16) :
    SplitPoint old median ↔
      ¬(median = [] ∨ median ≤ old.startKey ∨ (old.endKey ≠ [] ∧ old.endKey ≤ median)) := by
  constructor
  · rintro ⟨-, hstart, hend⟩ (hnil | hle | ⟨hne, hle⟩)
    · exact Bytes.ne_nil_of_lt hstart hnil
    · exact hle.not_gt hstart
    · exact hle.not_gt (hend.resolve_left hne)
  · intro h
    obtain ⟨-, hle, hend⟩ := not_or.mp h |>.imp_right not_or.mp
    refine ⟨hshort, not_le.mp hle, ?_⟩
    by_cases hnil : old.endKey = []
    · exact .inl hnil
    · exact .inr (not_le.mp fun h => hend ⟨hnil, h⟩)

namespace Environment

variable {σ : Type} {E : Environment σ} {m : Master} {s : σ}

/-- `I` survives a statistics query between two keys with `P`. -/
def KeepsQuery (E : Environment σ) (P : Bytes → Prop) (I : σ → Prop) : Prop :=
  ∀ node start end_, P start → P end_ → ∀ m s, I s → ∃ r s',
    E.run (Balancer.queryTabletStats node start end_) (m, s) = (some r, (m, s')) ∧ I s'

theorem KeepsRpc.keepsQuery {I : σ → Prop} (hI : E.KeepsRpc I) :
    E.KeepsQuery (fun _ => True) I :=
  fun _ _ _ _ _ m _ hs => run_of_uses (Balancer.queryTabletStats_uses _ _ _) hI m hs

/-! ## Statistics -/

variable {P : Bytes → Prop} {I : σ → Prop}

/-- One round of the statistics changes at most one key count. -/
theorem run_syncTabletStats (hI : E.KeepsQuery P I) (m : Master) (hP : Boundaries P m.tablets)
    (hs : I s) (i : ℕ) :
    ∃ ts s', E.run (Balancer.syncTabletStats i) (m, s) = (some (), ({ m with tablets := ts }, s')) ∧
      assignment ts = assignment m.tablets ∧ I s' := by
  unfold Balancer.syncTabletStats
  rw [run_get]
  rcases hi : m.tablets[i]? with _ | t
  · exact ⟨_, _, rfl, rfl, hs⟩
  · obtain ⟨hstart, hend⟩ := hP t (List.mem_of_getElem? hi)
    obtain ⟨r, s', hrun, hs'⟩ := hI t.nodeId t.startKey t.endKey hstart hend m s hs
    simp only [run_bind_some hrun]
    rcases r with _ | ⟨keyCount, median⟩
    · exact ⟨_, _, rfl, rfl, hs'⟩
    · exact ⟨_, _, rfl, assignment_modify_keyCount _ _ _, hs'⟩

theorem run_syncFrom (hI : E.KeepsQuery P I) (m : Master) (hP : Boundaries P m.tablets) (hs : I s)
    (n i : ℕ) :
    ∃ ts s', E.run (Balancer.syncFrom n i) (m, s) = (some (), ({ m with tablets := ts }, s')) ∧
      assignment ts = assignment m.tablets ∧ I s' := by
  induction n generalizing m s i with
  | zero => exact ⟨_, _, rfl, rfl, hs⟩
  | succ n ih =>
    obtain ⟨ts, s', hrun, hts, hs'⟩ := run_syncTabletStats hI m hP hs i
    obtain ⟨ts', s'', hrun', hts', hs''⟩ :=
      ih { m with tablets := ts } (hP.of_assignment_eq hts) hs' (i + 1)
    exact ⟨ts', s'', by rw [Balancer.syncFrom, run_bind_some hrun, hrun'], hts'.trans hts, hs''⟩

/-- `SyncAllTabletStats` changes key counts only. -/
theorem run_syncAllTabletStats (hI : E.KeepsQuery P I) (m : Master) (hP : Boundaries P m.tablets)
    (hs : I s) :
    ∃ ts s', E.run Balancer.syncAllTabletStats (m, s) = (some (), ({ m with tablets := ts }, s')) ∧
      assignment ts = assignment m.tablets ∧ I s' :=
  run_syncFrom hI m hP hs _ _

/-! ## Splits -/

/-- `TrySplitTablet` on a tablet with enough keys, without an answer to its statistics query. -/
theorem run_trySplitTablet_none {idx : ℕ} {old : Tablet} {s' : σ} (hidx : m.tablets[idx]? = some old)
    (hbig : ¬old.keyCount < SPLIT_THRESHOLD)
    (hquery : E.run (Balancer.queryTabletStats old.nodeId old.startKey old.endKey) (m, s)
      = (some none, (m, s'))) :
    E.run (Balancer.trySplitTablet idx) (m, s) = (some false, (m, s')) := by
  unfold Balancer.trySplitTablet
  simp only [run_get, hidx, if_neg hbig, run_bind_some hquery]
  rfl

/-- `TrySplitTablet` on a tablet with enough keys, by the answer to its statistics query. -/
theorem run_trySplitTablet_some {idx : ℕ} {old : Tablet} {keyCount : UInt64} {median : Bytes} {s' : σ}
    (hidx : m.tablets[idx]? = some old) (hbig : ¬old.keyCount < SPLIT_THRESHOLD)
    (hquery : E.run (Balancer.queryTabletStats old.nodeId old.startKey old.endKey) (m, s)
      = (some (some (keyCount, median)), (m, s'))) :
    E.run (Balancer.trySplitTablet idx) (m, s) =
      if median = [] ∨ median ≤ old.startKey ∨ (old.endKey ≠ [] ∧ old.endKey ≤ median) then
        (some false, (m, s'))
      else E.run (do Balancer.saveTablets; return true) (m.splitAt idx old keyCount median, s') := by
  unfold Balancer.trySplitTablet
  simp only [run_get, hidx, if_neg hbig, run_bind_some hquery]
  by_cases hmedian : median = [] ∨ median ≤ old.startKey ∨ (old.endKey ≠ [] ∧ old.endKey ≤ median)
  · simp only [if_pos hmedian]
    rfl
  · simp only [if_neg hmedian, run_get, hidx, ne_eq, not_true_eq_false, if_false, if_neg hbig,
      run_modify]
    rfl

/-- Where there is no tablet with enough keys, `TrySplitTablet` does nothing. -/
theorem run_trySplitTablet_of_small {idx : ℕ}
    (h : ∀ old, m.tablets[idx]? = some old → old.keyCount < SPLIT_THRESHOLD) :
    E.run (Balancer.trySplitTablet idx) (m, s) = (some false, (m, s)) := by
  unfold Balancer.trySplitTablet
  rw [run_get]
  rcases hidx : m.tablets[idx]? with _ | old
  · rfl
  · simp only [if_pos (h old hidx)]
    rfl

section Point

variable {idx : ℕ} {old : Tablet} {keyCount : UInt64} {median : Bytes} {s' : σ}
  (hidx : m.tablets[idx]? = some old) (hbig : ¬old.keyCount < SPLIT_THRESHOLD)
  (hquery : E.run (Balancer.queryTabletStats old.nodeId old.startKey old.endKey) (m, s)
    = (some (some (keyCount, median)), (m, s')))

include hidx hbig hquery

/-- A median that is not strictly inside the tablet is refused. -/
theorem run_trySplitTablet_refused (hpoint : ¬SplitPoint old median) :
    E.run (Balancer.trySplitTablet idx) (m, s) = (some false, (m, s')) := by
  have hshort := (Balancer.queryTabletStats_returns _ _ _).run hquery
  rw [run_trySplitTablet_some hidx hbig hquery]
  rw [splitPoint_iff (hshort _ rfl), not_not] at hpoint
  exact if_pos hpoint

/-- At a median strictly inside it the tablet is split, whatever the key count with it. -/
theorem run_trySplitTablet_point (hF : E.KeepsFiles I) (hs' : I s') (hpoint : SplitPoint old median) :
    ∃ r s'', I s'' ∧ r ≠ some false ∧ E.run (Balancer.trySplitTablet idx) (m, s)
      = (r, (m.splitAt idx old keyCount median, s'')) := by
  rw [run_trySplitTablet_some hidx hbig hquery, if_neg ((splitPoint_iff hpoint.length_lt).mp hpoint)]
  obtain ⟨saved, s'', hsave, hs''⟩ :=
    run_saveTablets hF (m.splitAt idx old keyCount median) hs'
  refine ⟨saved.map fun _ => true, s'', hs'', ?_, ?_⟩
  · rcases saved with _ | _ <;> simp
  · rcases saved with _ | _
    · exact run_bind_none hsave _
    · exact run_bind_some hsave _

end Point

/-- `TrySplitTablet` returns `false` and leaves the members alone, or splits at a point strictly
inside the tablet. -/
theorem run_trySplitTablet (hI : E.KeepsQuery P I) (hF : E.KeepsFiles I) (m : Master)
    (hP : Boundaries P m.tablets) (hs : I s) (idx : ℕ) :
    ∃ s', I s' ∧ (E.run (Balancer.trySplitTablet idx) (m, s) = (some false, (m, s')) ∨
      ∃ old keyCount median r, m.tablets[idx]? = some old ∧ ¬old.keyCount < SPLIT_THRESHOLD ∧
        SplitPoint old median ∧ r ≠ some false ∧ E.run (Balancer.trySplitTablet idx) (m, s)
          = (r, (m.splitAt idx old keyCount median, s'))) := by
  by_cases hsmall : ∀ old, m.tablets[idx]? = some old → old.keyCount < SPLIT_THRESHOLD
  · exact ⟨s, hs, .inl (run_trySplitTablet_of_small hsmall)⟩
  push Not at hsmall
  obtain ⟨old, hidx, hbig⟩ := hsmall
  obtain ⟨hstart, hend⟩ := hP old (List.mem_of_getElem? hidx)
  obtain ⟨r, s', hrun, hs'⟩ := hI old.nodeId old.startKey old.endKey hstart hend m s hs
  rcases r with _ | ⟨keyCount, median⟩
  · exact ⟨s', hs', .inl (run_trySplitTablet_none hidx hbig hrun)⟩
  by_cases hpoint : SplitPoint old median
  · obtain ⟨r, s'', hs'', hr, hsplit⟩ := run_trySplitTablet_point hidx hbig hrun hF hs' hpoint
    exact ⟨s'', hs'', .inr ⟨old, keyCount, median, r, hidx, hbig, hpoint, hr, hsplit⟩⟩
  · exact ⟨s', hs', .inl (run_trySplitTablet_refused hidx hbig hrun hpoint)⟩

/-! ## Migrations -/

/-- `MigrateTablet` up to its decision: it stops where the transfer reported failure, and otherwise
switches the route, saves, and sends the range deletion. -/
theorem run_migrateTablet {idx : ℕ} {dst : UInt32} {t : Tablet} {s₁ : σ} {ok : Bool}
    (hidx : m.tablets[idx]? = some t) (hne : t.nodeId ≠ dst)
    (hscan : E.run (Balancer.scanAndTransferData t.nodeId dst t.startKey t.endKey) (m, s)
      = (some ok, (m, s₁))) :
    E.run (Balancer.migrateTablet idx dst) (m, s) =
      if ok then
        E.run (do
          Balancer.saveTablets
          let _deleted ← Balancer.sendDeleteRange t.nodeId t.startKey t.endKey
          return true) (m.moveTo idx dst, s₁)
      else (some false, (m, s₁)) := by
  unfold Balancer.migrateTablet
  simp only [run_get, hidx, if_neg hne, run_bind_some hscan]
  cases ok with
  | false => rfl
  | true =>
    simp only [not_true_eq_false, if_false, run_get, hidx, Option.map_some, if_true]
    rfl

/-- Where there is no tablet to move, `MigrateTablet` does nothing. -/
theorem run_migrateTablet_of_stay {idx : ℕ} {dst : UInt32}
    (h : ∀ t, m.tablets[idx]? = some t → t.nodeId = dst) :
    E.run (Balancer.migrateTablet idx dst) (m, s) = (some false, (m, s)) := by
  unfold Balancer.migrateTablet
  rw [run_get]
  rcases hidx : m.tablets[idx]? with _ | t
  · rfl
  · simp only [if_pos (h t hidx)]
    rfl

/-- Data was transferred to a connected node only. -/
theorem isConnected_of_scanAndTransferData {src dst : UInt32} {start end_ : Bytes}
    {w : Master × σ}
    (h : E.run (Balancer.scanAndTransferData src dst start end_) (m, s) = (some true, w)) :
    E.isConnected dst s = true := by
  unfold Balancer.scanAndTransferData at h
  rw [run_isConnected] at h
  by_cases hsrc : E.isConnected src s = true
  · rw [if_neg (not_not.mpr hsrc), run_isConnected] at h
    by_contra hdst
    rw [if_pos hdst] at h
    exact absurd (Option.some.inj (congrArg Prod.fst h)) Bool.false_ne_true
  · rw [if_pos hsrc] at h
    exact absurd (Option.some.inj (congrArg Prod.fst h)) Bool.false_ne_true

/-- In any environment `MigrateTablet` returns `false` and leaves the members alone, or moves the
tablet to another, connected node. -/
theorem run_migrateTablet_members (hI : E.KeepsRpc I) (hF : E.KeepsFiles I)
    (m : Master) (hs : I s) (idx : ℕ) (dst : UInt32) :
    ∃ r s', I s' ∧
      (r = some false ∧ E.run (Balancer.migrateTablet idx dst) (m, s) = (r, (m, s')) ∨
        r ≠ some false ∧ (∃ t, m.tablets[idx]? = some t ∧ t.nodeId ≠ dst) ∧
          E.isConnected dst s = true ∧
          E.run (Balancer.migrateTablet idx dst) (m, s) = (r, (m.moveTo idx dst, s'))) := by
  by_cases hstay : ∀ t, m.tablets[idx]? = some t → t.nodeId = dst
  · exact ⟨_, s, hs, .inl ⟨rfl, run_migrateTablet_of_stay hstay⟩⟩
  push Not at hstay
  obtain ⟨t, hidx, hne⟩ := hstay
  obtain ⟨ok, s₁, hscan, hs₁⟩ := run_of_uses
    (Balancer.scanAndTransferData_uses t.nodeId dst t.startKey t.endKey) hI m hs
  rw [run_migrateTablet hidx hne hscan]
  cases ok with
  | false => exact ⟨_, s₁, hs₁, .inl ⟨rfl, rfl⟩⟩
  | true =>
    have hdst := isConnected_of_scanAndTransferData hscan
    obtain ⟨saved, s₂, hsave, hs₂⟩ := run_saveTablets hF (m.moveTo idx dst) hs₁
    rcases saved with _ | _
    · exact ⟨none, s₂, hs₂,
        .inr ⟨by simp, ⟨t, hidx, hne⟩, hdst, run_bind_none hsave _⟩⟩
    · obtain ⟨deleted, s₃, hdel, hs₃⟩ := run_of_uses
        (Balancer.sendDeleteRange_uses t.nodeId t.startKey t.endKey) hI (m.moveTo idx dst) hs₂
      exact ⟨some true, s₃, hs₃,
        .inr ⟨by simp, ⟨t, hidx, hne⟩, hdst, (run_bind_some hsave _).trans (run_bind_some hdel _)⟩⟩

/-! ## Load balancing -/

theorem run_doLoadBalance_none (h : Balancer.balanceTarget m.tablets = none) :
    E.run Balancer.doLoadBalance (m, s) = (some false, (m, s)) := by
  unfold Balancer.doLoadBalance
  simp only [run_get, h]
  rfl

/-- After the migration of its target, `DoLoadBalance` counts the target and the time it took. -/
theorem run_doLoadBalance_done {target : ℕ} {dst : UInt32} {ok : Bool} {m' : Master} {s' : σ}
    (h : Balancer.balanceTarget m.tablets = some (target, dst))
    (hrun : E.run (Balancer.migrateTablet target dst) (m, (E.now s).2) = (some ok, (m', s'))) :
    E.run Balancer.doLoadBalance (m, s) = (some ok, ({ m' with
      transferCount := m'.transferCount + (m'.tablets[target]?.map Tablet.keyCount).getD 0
      transferTimeMs := m'.transferTimeMs
        + UInt64.ofInt (((E.now s').1 - (E.now s).1).tdiv 1000000) }, (E.now s').2)) := by
  unfold Balancer.doLoadBalance
  simp only [run_get, h, run_now]
  rw [run_bind_some hrun, run_now, run_modify]
  rfl

/-- Where the migration of its target is cut off, so is `DoLoadBalance`. -/
theorem run_doLoadBalance_cut {target : ℕ} {dst : UInt32} {w' : Master × σ}
    (h : Balancer.balanceTarget m.tablets = some (target, dst))
    (hrun : E.run (Balancer.migrateTablet target dst) (m, (E.now s).2) = (none, w')) :
    E.run Balancer.doLoadBalance (m, s) = (none, w') := by
  unfold Balancer.doLoadBalance
  simp only [run_get, h, run_now]
  exact run_bind_none hrun _

/-- `DoLoadBalance` is the migration of its target, up to the transfer statistics. -/
theorem run_doLoadBalance_some {target : ℕ} {dst : UInt32} {r : Option Bool} {m' : Master} {s' : σ}
    (h : Balancer.balanceTarget m.tablets = some (target, dst))
    (hrun : E.run (Balancer.migrateTablet target dst) (m, (E.now s).2) = (r, (m', s'))) :
    ∃ count time s'', E.run Balancer.doLoadBalance (m, s)
        = (r, ({ m' with transferCount := count, transferTimeMs := time }, s'')) ∧
      (s'' = s' ∨ s'' = (E.now s').2) := by
  rcases r with _ | ok
  · exact ⟨m'.transferCount, m'.transferTimeMs, s', run_doLoadBalance_cut h hrun, .inl rfl⟩
  · exact ⟨_, _, _, run_doLoadBalance_done h hrun, .inr rfl⟩

end Environment

end LeKV
