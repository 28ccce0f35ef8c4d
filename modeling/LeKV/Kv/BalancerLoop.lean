import LeKV.Kv.Bookkeeping

/-!
# A round of the balancer (`RaftNode::BalancerLoop`)

A round refreshes the statistics, sweeps over the table for splits, and balances the load. The sweep
appends to the list it walks, so the loop takes a bound on its rounds. `Swept` is what a sweep leaves
behind; a sweep ends when the bound is large enough for the keys it has in front of it
(`Healthy.sweep_ends`).
-/

namespace LeKV

open Bytes BinaryProtocol Balancer

namespace Balancer

/-- The split loop of `BalancerLoop` from `split_idx` on, for at most `rounds` rounds. It says whether
it came to the end of the table. The result of a split is not looked at. -/
def splitSweep : (rounds split_idx : ℕ) → Balancer Bool
  | 0, _ => return false
  | rounds + 1, split_idx => do
    let m ← get
    match m.tablets[split_idx]? with
    | none => return true
    | some t =>
      if SPLIT_THRESHOLD ≤ t.keyCount then
        let _split ← trySplitTablet split_idx
        splitSweep rounds (split_idx + 1)
      else splitSweep rounds (split_idx + 1)

/-- The statistics and splits of a round. -/
def syncAndSplit (rounds : ℕ) : Balancer Bool := do
  syncAllTabletStats
  splitSweep rounds 0

/-- One round of `BalancerLoop`, with at most `rounds` rounds of its split loop. -/
def balancerRound (rounds : ℕ) : Balancer Bool := do
  if ¬(← syncAndSplit rounds) then return false
  let _moved ← doLoadBalance
  return true

end Balancer

namespace Environment

variable {σ : Type} {E : Environment σ} {m : Master} {s : σ} {idx : ℕ} {t : Tablet}

theorem run_splitSweep_none (rounds : ℕ) (hidx : m.tablets[idx]? = none) :
    E.run (splitSweep (rounds + 1) idx) (m, s) = (some true, (m, s)) := by
  rw [splitSweep, run_get, hidx]
  rfl

theorem run_splitSweep_small (rounds : ℕ) (hidx : m.tablets[idx]? = some t)
    (hsmall : ¬SPLIT_THRESHOLD ≤ t.keyCount) :
    E.run (splitSweep (rounds + 1) idx) (m, s) = E.run (splitSweep rounds (idx + 1)) (m, s) := by
  rw [splitSweep, run_get, hidx]
  simp only [if_neg hsmall]

theorem run_splitSweep_big (rounds : ℕ) (hidx : m.tablets[idx]? = some t)
    (hbig : SPLIT_THRESHOLD ≤ t.keyCount) :
    E.run (splitSweep (rounds + 1) idx) (m, s) = E.run (do
      let _split ← trySplitTablet idx
      splitSweep rounds (idx + 1)) (m, s) := by
  rw [splitSweep, run_get, hidx]
  simp only [if_pos hbig]

end Environment

/-! ## Keys at which tablets are cut -/

/-- The boundaries of the table, and all keys at which the balancer may come to cut its tablets, are
valid UTF-8. -/
structure Savable (w : World) : Prop where
  boundaries : Boundaries Utf8 w.1.tablets
  cuts : ∀ t ∈ w.1.tablets, ∀ k, Halving.Cut 6 ((w.2.nodes t.nodeId).keysIn t) k → Utf8 k

/-- How far the tablets are from being split up: one key each is not counted. -/
def splitPotential (nodes : UInt32 → DataNode) (tablets : List Tablet) : ℕ :=
  (tablets.map fun t => ((nodes t.nodeId).keysIn t).length - 1).sum

/-! ## The sweep -/

/-- What a sweep from `idx` on leaves of a world in which all counts are exact. -/
structure Swept (σ : Bytes → Option Bytes) (idx : ℕ) (w w' : World) : Prop where
  healthy : Healthy σ w'
  counted : Counted w'
  nodes : w'.2.nodes = w.2.nodes
  front : w'.1.tablets.take idx = w.1.tablets.take idx
  owners : ∀ t ∈ w'.1.tablets, ∃ u ∈ w.1.tablets, u.nodeId = t.nodeId
  savable : Savable w → Savable w'
  progress : w'.1 = w.1 ∧ (∀ t ∈ w.1.tablets.drop idx, t.keyCount.toNat < 6) ∨
    (∃ t ∈ w.1.tablets.drop idx, 6 ≤ t.keyCount.toNat) ∧
      splitPotential w'.2.nodes w'.1.tablets < splitPotential w.2.nodes w.1.tablets

section Sweep

variable {σ : Bytes → Option Bytes} {w w' : World} {idx : ℕ} {t : Tablet}

/-- One split of the sweep. -/
theorem Healthy.split_swept (h : Healthy σ w) (hfew : FewKeys σ) (hcounted : Counted w)
    (hidx : w.1.tablets[idx]? = some t) (hbig : 6 ≤ t.keyCount.toNat) :
    ∃ r w', Cluster.env.run (trySplitTablet idx) w = (r, w') ∧ (Savable w → r = some true) ∧
      r ≠ some false ∧ Swept σ idx w w' ∧
      ∃ (l₁ l₂ : List Tablet) (left right : Tablet), w.1.tablets = l₁ ++ t :: l₂ ∧ l₁.length = idx ∧
        w'.1.tablets = l₁ ++ left :: right :: l₂ ∧ left.keyCount.toNat = t.keyCount.toNat / 2 ∧
        right.keyCount.toNat = t.keyCount.toNat - t.keyCount.toNat / 2 ∧ left.nodeId = t.nodeId := by
  obtain ⟨m, s⟩ := w
  obtain ⟨hpoint, hmedian, s', hrun, hhealthy, hcounted', hnodes⟩ := h.split hfew hcounted hidx hbig
  have ht : t ∈ m.tablets := List.mem_of_getElem? hidx
  have hcount : t.keyCount.toNat = ((s.nodes t.nodeId).keysIn t).length := hcounted t ht
  obtain ⟨hhalf, hrest⟩ := toNat_half t.keyCount
  obtain ⟨hleft, hright⟩ := (s.nodes t.nodeId).keysIn_halves m t.keyCount hpoint hmedian
  obtain ⟨rest, hold, hnew⟩ := mem_splitAt t.keyCount ((s.nodes t.nodeId).medianIn t) hidx
  -- the old boundaries and the median
  have hsavable : Savable (m, s) → Utf8 ((s.nodes t.nodeId).medianIn t) := fun hs =>
    hs.cuts t ht _ (.middle (hcount ▸ hbig) hmedian)
  obtain ⟨l₁, l₂, htablets, rfl⟩ := exists_append_of_getElem? hidx
  have hsplit := tablets_splitAt t.keyCount htablets ((s.nodes t.nodeId).medianIn t)
  refine ⟨_, _, hrun, fun hs => ?_, ?_, ⟨hhealthy, hcounted', hnodes, ?_, ?_, fun hs => ?_, ?_⟩,
    l₁, l₂, _, _, htablets, rfl, hsplit, hhalf, hrest, rfl⟩
  · have hdump := (dumpable_splitAt t.keyCount _ hidx).mpr ⟨hs.boundaries, hsavable hs⟩
    rw [if_neg fun hnone => dump_eq_none.mp hnone.2 hdump]
  · split_ifs <;> simp
  · show (m.splitAt _ _ _ _).tablets.take _ = m.tablets.take _
    rw [hsplit, htablets, List.take_left, List.take_left]
  · intro u hu
    rcases (hnew u).mp hu with rfl | rfl | hu
    · exact ⟨t, ht, rfl⟩
    · exact ⟨t, ht, rfl⟩
    · exact ⟨u, (hold u).mpr (.inr hu), rfl⟩
  · refine ⟨((dumpable_splitAt t.keyCount _ hidx).mpr ⟨hs.boundaries, hsavable hs⟩), ?_⟩
    intro u hu k hk
    have hkeys : (s'.nodes u.nodeId).keysIn u = (s.nodes u.nodeId).keysIn u := by rw [hnodes]
    have hk' : Halving.Cut 6 ((s.nodes u.nodeId).keysIn u) k := hkeys ▸ hk
    rcases (hnew u).mp hu with rfl | rfl | hu
    · exact hs.cuts t ht k (.left (hcount ▸ hbig) (hleft ▸ hk'))
    · exact hs.cuts t ht k (.right (hcount ▸ hbig) (hright ▸ hk'))
    · exact hs.cuts u ((hold u).mpr (.inr hu)) k hk'
  · right
    refine ⟨⟨t, ?_, hbig⟩, ?_⟩
    · show t ∈ m.tablets.drop l₁.length
      rw [htablets, List.drop_left]
      exact List.mem_cons_self
    · show splitPotential s'.nodes (m.splitAt _ _ _ _).tablets < splitPotential s.nodes m.tablets
      rw [hnodes, hsplit, htablets]
      unfold splitPotential
      have hsizes : ((s.nodes t.nodeId).keysIn (m.leftHalf t t.keyCount
            ((s.nodes t.nodeId).medianIn t))).length = t.keyCount.toNat / 2 ∧
          ((s.nodes t.nodeId).keysIn (m.rightHalf t t.keyCount
            ((s.nodes t.nodeId).medianIn t))).length = t.keyCount.toNat - t.keyCount.toNat / 2 := by
        rw [hleft, hright, List.length_take_of_le (Nat.div_le_self _ 2), List.length_drop, hcount]
        exact ⟨rfl, rfl⟩
      simp only [List.map_append, List.map_cons, List.sum_append, List.sum_cons]
      have hl : (m.leftHalf t t.keyCount ((s.nodes t.nodeId).medianIn t)).nodeId = t.nodeId := rfl
      have hr : (m.rightHalf t t.keyCount ((s.nodes t.nodeId).medianIn t)).nodeId = t.nodeId := rfl
      rw [hl, hr, hsizes.1, hsizes.2, ← hcount]
      omega

theorem Swept.splitPotential_le (h : Swept σ idx w w') :
    splitPotential w'.2.nodes w'.1.tablets ≤ splitPotential w.2.nodes w.1.tablets := by
  rcases h.progress with ⟨hsame, -⟩ | ⟨-, hlt⟩
  · rw [hsame, h.nodes]
  · exact hlt.le

/-- Nothing is left to sweep. -/
theorem Swept.refl (h : Healthy σ w) (hcounted : Counted w) (hidx : w.1.tablets[idx]? = none) :
    Swept σ idx w w := by
  have hdrop : w.1.tablets.drop idx = [] :=
    List.drop_eq_nil_of_le (List.getElem?_eq_none_iff.mp hidx)
  refine ⟨h, hcounted, rfl, rfl, fun t ht => ⟨t, ht, rfl⟩, id, .inl ⟨rfl, fun t ht => ?_⟩⟩
  rw [hdrop] at ht
  exact absurd ht List.not_mem_nil

theorem take_eq_of_succ {α : Type*} {l l' : List α} (h : l.take (idx + 1) = l'.take (idx + 1)) :
    l.take idx = l'.take idx := by
  have hmin : min idx (idx + 1) = idx := min_eq_left (Nat.le_succ idx)
  rw [← hmin, ← List.take_take, ← List.take_take, h]

/-- A tablet too small to be split is passed over. -/
theorem Swept.skip (hidx : w.1.tablets[idx]? = some t) (hsmall : t.keyCount.toNat < 6)
    (h : Swept σ (idx + 1) w w') : Swept σ idx w w' := by
  obtain ⟨l₁, l₂, htablets, rfl⟩ := exists_append_of_getElem? hidx
  have hdrop : w.1.tablets.drop l₁.length = t :: w.1.tablets.drop (l₁.length + 1) := by
    rw [htablets, List.drop_left, List.drop_append]
    simp
  refine ⟨h.healthy, h.counted, h.nodes, take_eq_of_succ h.front, h.owners, h.savable, ?_⟩
  rcases h.progress with ⟨hsame, hall⟩ | ⟨⟨u, hu, hbig⟩, hlt⟩
  · refine .inl ⟨hsame, fun u hu => ?_⟩
    rcases List.mem_cons.mp (hdrop ▸ hu) with rfl | hu
    · exact hsmall
    · exact hall u hu
  · exact .inr ⟨⟨u, hdrop ▸ List.mem_cons_of_mem t hu, hbig⟩, hlt⟩

/-- A split, and then the rest of the sweep. -/
theorem Swept.trans {w₁ : World} (h : Swept σ idx w w₁)
    (hbig : ∃ t ∈ w.1.tablets.drop idx, 6 ≤ t.keyCount.toNat) (h' : Swept σ (idx + 1) w₁ w') :
    Swept σ idx w w' := by
  refine ⟨h'.healthy, h'.counted, h'.nodes.trans h.nodes, (take_eq_of_succ h'.front).trans h.front,
    fun t ht => ?_, h'.savable ∘ h.savable, ?_⟩
  · obtain ⟨u, hu, hnode⟩ := h'.owners t ht
    obtain ⟨v, hv, hnode'⟩ := h.owners u hu
    exact ⟨v, hv, hnode'.trans hnode⟩
  · rcases h.progress with ⟨-, hall⟩ | ⟨-, hlt⟩
    · obtain ⟨t, ht, hsix⟩ := hbig
      exact absurd (hall t ht) (not_lt.mpr hsix)
    · exact .inr ⟨hbig, lt_of_le_of_lt h'.splitPotential_le hlt⟩

/-- What a sweep leaves that came to the end of the table. -/
theorem Healthy.of_sweep (hfew : FewKeys σ) {rounds : ℕ} (h : Healthy σ w) (hcounted : Counted w)
    (hrun : Cluster.env.run (splitSweep rounds idx) w = (some true, w')) : Swept σ idx w w' := by
  induction rounds generalizing idx w with
  | zero => exact absurd (congrArg Prod.fst hrun) (by simp [splitSweep])
  | succ rounds ih =>
    obtain ⟨m, s⟩ := w
    rcases hidx : m.tablets[idx]? with _ | t
    · rw [Environment.run_splitSweep_none rounds hidx] at hrun
      obtain ⟨-, rfl⟩ := Prod.mk.inj hrun
      exact Swept.refl h hcounted hidx
    · by_cases hbig : SPLIT_THRESHOLD ≤ t.keyCount
      · rw [Environment.run_splitSweep_big rounds hidx hbig] at hrun
        have hbig' := splitThreshold_le.mp hbig
        obtain ⟨r, w₁, hsplit, -, -, hswept, l₁, l₂, -, -, htablets, rfl, -⟩ :=
          h.split_swept hfew hcounted hidx hbig'
        rcases r with _ | ok
        · rw [Environment.run_bind_none hsplit] at hrun
          exact absurd (congrArg Prod.fst hrun) (by simp)
        · rw [Environment.run_bind_some hsplit] at hrun
          refine hswept.trans ⟨t, ?_, hbig'⟩ (ih hswept.healthy hswept.counted hrun)
          rw [htablets, List.drop_left]
          exact List.mem_cons_self
      · rw [Environment.run_splitSweep_small rounds hidx hbig] at hrun
        exact Swept.skip hidx (not_le.mp fun hle => hbig (splitThreshold_le.mpr hle))
          (ih h hcounted hrun)

/-- A sweep ends: the keys in front of it, with one more for each tablet, become fewer in every
round, for a split leaves one half behind. -/
theorem Healthy.sweep_ends (hfew : FewKeys σ) {rounds : ℕ} (h : Healthy σ w) (hcounted : Counted w)
    (hsavable : Savable w)
    (hrounds : ((w.1.tablets.drop idx).map fun t => t.keyCount.toNat + 1).sum < rounds) :
    ∃ w', Cluster.env.run (splitSweep rounds idx) w = (some true, w') := by
  induction rounds generalizing idx w with
  | zero => exact absurd hrounds (Nat.not_lt_zero _)
  | succ rounds ih =>
    obtain ⟨m, s⟩ := w
    rcases hidx : m.tablets[idx]? with _ | t
    · exact ⟨_, Environment.run_splitSweep_none rounds hidx⟩
    · obtain ⟨l₁, l₂, htablets, rfl⟩ := exists_append_of_getElem? hidx
      simp only [htablets, List.drop_left, List.map_cons, List.sum_cons] at hrounds
      by_cases hbig : SPLIT_THRESHOLD ≤ t.keyCount
      · have hbig' := splitThreshold_le.mp hbig
        rw [Environment.run_splitSweep_big rounds hidx hbig]
        obtain ⟨r, w₁, hsplit, hsome, -, hswept, l₁', l₂', left, right, htablets', hlen, hnew, -,
          hright, -⟩ := h.split_swept hfew hcounted hidx hbig'
        rw [Environment.run_bind_some (hsplit.trans (by rw [hsome hsavable]))]
        apply ih hswept.healthy hswept.counted (hswept.savable hsavable)
        obtain ⟨rfl, htail⟩ := List.append_inj (htablets.symm.trans htablets') hlen.symm
        obtain ⟨-, rfl⟩ := List.cons.inj htail
        have hdrop : w₁.1.tablets.drop (l₁.length + 1) = right :: l₂ := by
          rw [hnew, List.drop_append]
          simp
        rw [hdrop, List.map_cons, List.sum_cons, hright]
        omega
      · rw [Environment.run_splitSweep_small rounds hidx hbig]
        apply ih h hcounted hsavable
        have hdrop : m.tablets.drop (l₁.length + 1) = l₂ := by
          rw [htablets, List.drop_append]
          simp
        show ((m.tablets.drop (l₁.length + 1)).map _).sum < rounds
        rw [hdrop]
        omega

/-- A sweep does not come back to the left half of a tablet it splits. -/
theorem Healthy.left_half_stays (hfew : FewKeys σ) {rounds : ℕ} (h : Healthy σ w)
    (hcounted : Counted w) (hidx : w.1.tablets[idx]? = some t) (hbig : 6 ≤ t.keyCount.toNat)
    (hrun : Cluster.env.run (splitSweep rounds idx) w = (some true, w')) :
    ∃ left ∈ w'.1.tablets, left.nodeId = t.nodeId ∧
      left.keyCount.toNat = t.keyCount.toNat / 2 := by
  obtain ⟨m, s⟩ := w
  cases rounds with
  | zero => exact absurd (congrArg Prod.fst hrun) (by simp [splitSweep])
  | succ rounds =>
    rw [Environment.run_splitSweep_big rounds hidx (splitThreshold_le.mpr hbig)] at hrun
    obtain ⟨r, w₁, hsplit, -, -, hswept, l₁, l₂, left, right, -, rfl, hnew, hhalf, -, hnode⟩ :=
      h.split_swept hfew hcounted hidx hbig
    rcases r with _ | ok
    · rw [Environment.run_bind_none hsplit] at hrun
      exact absurd (congrArg Prod.fst hrun) (by simp)
    · rw [Environment.run_bind_some hsplit] at hrun
      -- the rest of the sweep leaves the front of the table alone
      have hfront := (hswept.healthy.of_sweep hfew hswept.counted hrun).front
      have hleft : left ∈ w₁.1.tablets.take (l₁.length + 1) := by
        rw [hnew, List.take_append]
        simp
      exact ⟨left, List.mem_of_mem_take (hfront ▸ hleft), hnode, hhalf⟩

/-- What the statistics and the sweep of a round leave, on the way of which all counts are exact. -/
theorem Healthy.of_syncAndSplit (h : Healthy σ w) (hfew : FewKeys σ) {rounds : ℕ}
    (hrun : Cluster.env.run (syncAndSplit rounds) w = (some true, w')) :
    ∃ w₁, Healthy σ w₁ ∧ Counted w₁ ∧ w₁.1.tablets = w.1.tablets.map (Cluster.recount w.2.nodes) ∧
      w₁.2.nodes = w.2.nodes ∧ Swept σ 0 w₁ w' := by
  obtain ⟨w₁, hsync, hhealthy, hcounted, htablets, hnodes⟩ := h.sync hfew
  rw [syncAndSplit, Environment.run_bind_some hsync] at hrun
  exact ⟨w₁, hhealthy, hcounted, htablets, hnodes, hhealthy.of_sweep hfew hcounted hrun⟩

end Sweep

/-- The worlds before the load balancing of a round that follows a run. -/
def AfterSweep (w₀ : World) (ops : List ClientOp) (w : World) : Prop :=
  ∃ v rounds outcomes clock, Run w₀ ops v ∧
    Cluster.env.run (syncAndSplit rounds) (v.1, { v.2 with outcomes, clock }) = (some true, w)

theorem AfterSweep.counted {peers : List PeerInfo} {w₀ w : World} {ops : List ClientOp}
    (hstart : Start peers w₀) (h : AfterSweep w₀ ops w) (hfew : FewKeys (mapAfter ops)) :
    Healthy (mapAfter ops) w ∧ Counted w := by
  obtain ⟨v, rounds, outcomes, clock, hrun, hsweep⟩ := h
  obtain ⟨w₁, -, -, -, -, hswept⟩ :=
    ((hrun.healthy hstart).of_files outcomes clock).of_syncAndSplit hfew hsweep
  exact ⟨hswept.healthy, hswept.counted⟩

end LeKV
