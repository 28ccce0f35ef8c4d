import LeKV.Kv.BalancerLoop
import LeKV.Kv.FreshCount

/-!
# What one sweep splits

The split loop of `BalancerLoop` goes on behind the left half of a tablet it has just split. So a
sweep leaves every tablet small exactly where no tablet has twice the keys for a split: the right
halves are visited again, the left ones are not.
-/

namespace LeKV

open Bytes BinaryProtocol Effects Balancer

/-- No tablet has enough keys for a split. -/
def AllSmall (tablets : List Tablet) : Prop := ∀ t ∈ tablets, t.keyCount < SPLIT_THRESHOLD

instance (tablets : List Tablet) : Decidable (AllSmall tablets) :=
  inferInstanceAs (Decidable (∀ t ∈ tablets, t.keyCount < SPLIT_THRESHOLD))

theorem allSmall_cons {t : Tablet} {tablets : List Tablet} :
    AllSmall (t :: tablets) ↔ t.keyCount < SPLIT_THRESHOLD ∧ AllSmall tablets :=
  List.forall_mem_cons

/-- Every statistics query about a range with `P` succeeds, also after splits; file operations do not
disturb this. -/
structure Environment.ReportsHalves {σ : Type} (E : Environment σ) (nodes : UInt32 → DataNode)
    (P : UInt32 → Bytes → Bytes → Prop) (I : σ → Prop) : Prop where
  reports : E.Reports nodes P I
  files : E.KeepsFiles I
  halves : ∀ node start end_ median, P node start end_ → start < median →
    (end_ = [] ∨ median < end_) → Short median → P node start median ∧ P node median end_

/-- The DataNode has keys at which the tablet can be cut, and reports fewer than twice the keys for a
split. The count it reports has 32 bits, so eleven keys more than an odd multiple of `2 ^ 32` do not
make a right half with six. -/
structure DataNode.SplitsUp (n : DataNode) (t : Tablet) : Prop where
  inside : n.keysIn t ≠ [] ∧ n.keysIn t ≠ [t.startKey]
  few : (n.keysIn t).length % 2 ^ 32 < 2 * SPLIT_THRESHOLD.toNat
  half : (n.keysIn t).length % 2 ^ 33 ≠ 2 ^ 32 + 11

/-- Twice the keys of a tablet, and one more for what makes it splittable. -/
def DataNode.sweepWeight (n : DataNode) (t : Tablet) : ℕ :=
  2 * (n.keysIn t).length + if n.keysIn t = [t.startKey] then 1 else 2

/-! ## Halves -/

section Halves

variable {n : DataNode} {t : Tablet}

/-- The right half has the keys from the median on. -/
theorem keysIn_rightHalf (m : Master) (count : UInt64) (hpoint : SplitPoint t (n.medianIn t)) :
    n.keysIn (m.rightHalf t count (n.medianIn t))
      = (n.keysIn t).drop ((n.keysIn t).length / 2) := by
  have hinside := (DataNode.splitPoint_medianIn hpoint.length_lt).mp hpoint
  exact (n.keysIn_halves m count hpoint (DataNode.getElem?_medianIn hinside.1)).2

/-- Both halves of a tablet come out small, the right one perhaps after another split. -/
theorem splitsUp_iff (m : Master) (hpoint : SplitPoint t (n.medianIn t)) :
    n.SplitsUp t ↔
      (m.leftHalf t (n.reported t).1 (n.medianIn t)).keyCount < SPLIT_THRESHOLD ∧
        (SPLIT_THRESHOLD ≤ (m.rightHalf t (n.reported t).1 (n.medianIn t)).keyCount →
          n.SplitsUp (m.rightHalf t (n.reported t).1 (n.medianIn t))) := by
  have hinside := (DataNode.splitPoint_medianIn hpoint.length_lt).mp hpoint
  have hright := keysIn_rightHalf m (n.reported t).1 hpoint
  have hlen : (n.keysIn (m.rightHalf t (n.reported t).1 (n.medianIn t))).length
      = (n.keysIn t).length - (n.keysIn t).length / 2 := by
    rw [hright, List.length_drop]
  have hsix : SPLIT_THRESHOLD.toNat = 6 := rfl
  -- the reply has 32 bits for the count, and the halves share this count
  have hcount : (n.reported t).1.toNat = (n.keysIn t).length % 2 ^ 32 := by
    rw [DataNode.reported, UInt64.toNat_ofNat_of_lt']
    exact (Nat.mod_lt _ (by norm_num)).trans (by norm_num)
  obtain ⟨hhalf, hrest⟩ := toNat_half (n.reported t).1
  have hleft : (m.leftHalf t (n.reported t).1 (n.medianIn t)).keyCount < SPLIT_THRESHOLD
      ↔ (n.keysIn t).length % 2 ^ 32 < 12 := by
    rw [UInt64.lt_iff_toNat_lt, hsix, Master.leftHalf, hhalf, hcount]
    omega
  have hbig : SPLIT_THRESHOLD ≤ (m.rightHalf t (n.reported t).1 (n.medianIn t)).keyCount
      ↔ 11 ≤ (n.keysIn t).length % 2 ^ 32 := by
    rw [UInt64.le_iff_toNat_le, hsix, Master.rightHalf, hrest, hcount]
    omega
  rw [hleft, hbig]
  constructor
  · rintro ⟨-, hfew, hodd⟩
    rw [hsix] at hfew
    refine ⟨hfew, fun heleven => ⟨⟨fun hnil => ?_, fun hone => ?_⟩, ?_, ?_⟩⟩
    · rw [hnil, List.length_nil] at hlen
      omega
    · rw [hone, List.length_singleton] at hlen
      omega
    · rw [hlen, hsix]
      omega
    · rw [hlen]
      omega
  · rintro ⟨hfew, hagain⟩
    refine ⟨hinside, hfew, fun hodd => ?_⟩
    have hhalf := (hagain (by omega)).few
    rw [hlen, hsix] at hhalf
    omega

/-- A split leaves less to do: the right half has fewer keys, or none but its first possible one. -/
theorem sweepWeight_rightHalf (m : Master) (count : UInt64) (hpoint : SplitPoint t (n.medianIn t)) :
    n.sweepWeight (m.rightHalf t count (n.medianIn t)) < n.sweepWeight t := by
  obtain ⟨hne, hone⟩ := (DataNode.splitPoint_medianIn hpoint.length_lt).mp hpoint
  have hright := keysIn_rightHalf m count hpoint
  have hpos := List.length_pos_of_ne_nil hne
  have hlen : (n.keysIn (m.rightHalf t count (n.medianIn t))).length
      = (n.keysIn t).length - (n.keysIn t).length / 2 := by
    rw [hright, List.length_drop]
  rw [DataNode.sweepWeight, DataNode.sweepWeight, if_neg hone, hlen]
  rcases Nat.lt_or_ge 1 (n.keysIn t).length with htwo | hle
  · split_ifs <;> omega
  · -- the only key is the median, the start of the right half
    have hlast : (n.keysIn t).length = 1 := le_antisymm hle hpos
    have hmedian := DataNode.getElem?_medianIn hne
    obtain ⟨k, hk⟩ := List.length_eq_one_iff.mp hlast
    rw [hk, List.length_singleton] at hmedian
    obtain rfl : k = n.medianIn t := Option.some.inj hmedian
    have hstart : n.keysIn (m.rightHalf t count (n.medianIn t))
        = [(m.rightHalf t count (n.medianIn t)).startKey] := by
      rw [hright, hk]
      simp [Master.rightHalf]
    rw [if_pos hstart]
    omega

end Halves

/-! ## The sweep -/

section Sweep

variable {σ : Type} {E : Environment σ} {nodes : UInt32 → DataNode}
  {P : UInt32 → Bytes → Bytes → Prop} {I : σ → Prop} {m : Master} {s : σ} {idx : ℕ} {t : Tablet}

/-- One round of the sweep at a tablet with enough keys in the table. -/
theorem Environment.ReportsHalves.round (hE : E.ReportsHalves nodes P I) (rounds : ℕ)
    (hidx : m.tablets[idx]? = some t) (hbig : SPLIT_THRESHOLD ≤ t.keyCount)
    (hP : P t.nodeId t.startKey t.endKey) (hs : I s) :
    let n := nodes t.nodeId
    Short (n.medianIn t) ∧ ∃ s', I s' ∧
      (¬SplitPoint t (n.medianIn t) →
        E.run (splitSweep (rounds + 1) idx) (m, s) = E.run (splitSweep rounds (idx + 1)) (m, s')) ∧
      (SplitPoint t (n.medianIn t) →
        let m' := m.splitAt idx t (n.reported t).1 (n.medianIn t)
        E.run (splitSweep (rounds + 1) idx) (m, s) = (none, (m', s')) ∨
          E.run (splitSweep (rounds + 1) idx) (m, s)
            = E.run (splitSweep rounds (idx + 1)) (m', s')) := by
  intro n
  obtain ⟨s₁, hquery, hs₁⟩ := hE.reports t hP m s hs
  have hshort : Short (n.medianIn t) := (queryTabletStats_returns _ _ _).run hquery _ rfl
  have hbig' : ¬t.keyCount < SPLIT_THRESHOLD := UInt64.not_lt.mpr hbig
  rw [Environment.run_splitSweep_big rounds hidx hbig]
  refine ⟨hshort, ?_⟩
  by_cases hpoint : SplitPoint t (n.medianIn t)
  · obtain ⟨r, s₂, hs₂, -, hsplit⟩ :=
      Environment.run_trySplitTablet_point hidx hbig' hquery hE.files hs₁ hpoint
    refine ⟨s₂, hs₂, fun hnot => absurd hpoint hnot, fun _ => ?_⟩
    rcases r with _ | ok
    · exact .inl (Environment.run_bind_none hsplit _)
    · exact .inr (Environment.run_bind_some hsplit _)
  · have hsplit := Environment.run_trySplitTablet_refused hidx hbig' hquery hpoint
    exact ⟨s₁, hs₁, fun _ => Environment.run_bind_some hsplit _, fun h => absurd h hpoint⟩

/-- A list that starts with `l₁` and `a`. -/
theorem drop_of_take_succ {α : Type*} {l l₁ : List α} {a : α}
    (h : l.take (l₁.length + 1) = l₁ ++ [a]) :
    l.take l₁.length = l₁ ∧ l.drop l₁.length = a :: l.drop (l₁.length + 1) := by
  have hl : l = l₁ ++ a :: l.drop (l₁.length + 1) := by
    conv_lhs => rw [← List.take_append_drop (l₁.length + 1) l, h]
    simp
  constructor
  · rw [hl, List.take_left]
  · conv_lhs => rw [hl, List.drop_left]

theorem take_drop_succ {α : Type*} (l₁ l₂ : List α) (a : α) :
    (l₁ ++ a :: l₂).take (l₁.length + 1) = l₁ ++ [a] ∧
      (l₁ ++ a :: l₂).drop (l₁.length + 1) = l₂ := by
  have hl : l₁ ++ a :: l₂ = (l₁ ++ [a]) ++ l₂ := by simp
  have hlen : (l₁ ++ [a]).length = l₁.length + 1 := by simp
  rw [hl, ← hlen, List.take_left, List.drop_left]
  exact ⟨rfl, rfl⟩

/-- From `idx` on a sweep leaves small tablets exactly where all tablets that are large in the table
split up; before `idx` it leaves the table as it is. -/
theorem Environment.ReportsHalves.of_sweep (hE : E.ReportsHalves nodes P I) {rounds : ℕ}
    {w' : Master × σ} (hP : ∀ t ∈ m.tablets.drop idx, P t.nodeId t.startKey t.endKey) (hs : I s)
    (hrun : E.run (splitSweep rounds idx) (m, s) = (some true, w')) :
    w'.1.tablets.take idx = m.tablets.take idx ∧
      (AllSmall (w'.1.tablets.drop idx) ↔
        ∀ t ∈ m.tablets.drop idx, SPLIT_THRESHOLD ≤ t.keyCount → (nodes t.nodeId).SplitsUp t) := by
  -- a round leaves what is in front of its index alone, so only the tablets from `idx` on need `P`
  induction rounds generalizing idx m s with
  | zero => exact absurd (congrArg Prod.fst hrun) (by simp [splitSweep])
  | succ rounds ih =>
    rcases hidx : m.tablets[idx]? with _ | t
    · rw [Environment.run_splitSweep_none rounds hidx] at hrun
      obtain ⟨-, rfl⟩ := Prod.mk.inj hrun
      have hdrop : m.tablets.drop idx = [] :=
        List.drop_eq_nil_of_le (List.getElem?_eq_none_iff.mp hidx)
      simp [hdrop, AllSmall]
    obtain ⟨l₁, l₂, htablets, rfl⟩ := exists_append_of_getElem? hidx
    obtain ⟨htake, hdrop⟩ := take_drop_succ l₁ l₂ t
    rw [← htablets] at htake hdrop
    have hdrop₀ : m.tablets.drop l₁.length = t :: l₂ := by rw [htablets, List.drop_left]
    have htake₀ : m.tablets.take l₁.length = l₁ := by rw [htablets, List.take_left]
    rw [hdrop₀] at hP ⊢
    rw [htake₀]
    have ht := hP t List.mem_cons_self
    have hrest : ∀ u ∈ l₂, P u.nodeId u.startKey u.endKey :=
      fun u hu => hP u (List.mem_cons_of_mem t hu)
    rw [List.forall_mem_cons]
    by_cases hbig : SPLIT_THRESHOLD ≤ t.keyCount
    · obtain ⟨hshort, s₁, hs₁, hrefused, hpoint⟩ := hE.round rounds hidx hbig ht hs
      by_cases hinside : SplitPoint t ((nodes t.nodeId).medianIn t)
      · -- the left half is behind the sweep, the right half in front of it
        obtain ⟨-, hPright⟩ :=
          hE.halves _ _ _ _ ht hinside.start_lt hinside.lt_end hshort
        rcases hpoint hinside with hcut | hgoes
        · rw [hcut] at hrun
          exact absurd (congrArg Prod.fst hrun) (by simp)
        rw [hgoes] at hrun
        have hsplit := tablets_splitAt ((nodes t.nodeId).reported t).1 htablets
          ((nodes t.nodeId).medianIn t)
        obtain ⟨htake', hdrop'⟩ := take_drop_succ l₁
          (m.rightHalf t ((nodes t.nodeId).reported t).1 ((nodes t.nodeId).medianIn t) :: l₂)
          (m.leftHalf t ((nodes t.nodeId).reported t).1 ((nodes t.nodeId).medianIn t))
        rw [← hsplit] at htake' hdrop'
        have hPnew : ∀ u ∈ m.rightHalf t ((nodes t.nodeId).reported t).1
            ((nodes t.nodeId).medianIn t) :: l₂, P u.nodeId u.startKey u.endKey :=
          List.forall_mem_cons.mpr ⟨hPright, hrest⟩
        obtain ⟨hfront, hback⟩ := ih (hdrop' ▸ hPnew) hs₁ hrun
        obtain ⟨hfront', hcons⟩ := drop_of_take_succ (hfront.trans htake')
        refine ⟨hfront', ?_⟩
        rw [hcons, allSmall_cons, hback, hdrop', List.forall_mem_cons, ← and_assoc]
        apply and_congr_left'
        rw [forall_prop_of_true hbig, splitsUp_iff m hinside]
        rfl
      · rw [hrefused hinside] at hrun
        obtain ⟨hfront, hback⟩ := ih (hdrop ▸ hrest) hs₁ hrun
        obtain ⟨hfront', hcons⟩ := drop_of_take_succ (hfront.trans htake)
        refine ⟨hfront', ?_⟩
        rw [hcons, allSmall_cons]
        apply iff_of_false (fun h => UInt64.not_lt.mpr hbig h.1)
        intro h
        exact hinside ((DataNode.splitPoint_medianIn hshort).mpr (h.1 hbig).inside)
    · rw [Environment.run_splitSweep_small rounds hidx hbig] at hrun
      obtain ⟨hfront, hback⟩ := ih (hdrop ▸ hrest) hs hrun
      obtain ⟨hfront', hcons⟩ := drop_of_take_succ (hfront.trans htake)
      refine ⟨hfront', ?_⟩
      rw [hcons, allSmall_cons, hback, hdrop, and_iff_right (UInt64.not_le.mp hbig),
        and_iff_right fun h => absurd h hbig]

/-- A sweep ends, or `dump` threw: in every round there is less in front of it. -/
theorem Environment.ReportsHalves.sweep_ends (hE : E.ReportsHalves nodes P I) {rounds : ℕ}
    (hP : ∀ t ∈ m.tablets.drop idx, P t.nodeId t.startKey t.endKey) (hs : I s)
    (hrounds : ((m.tablets.drop idx).map fun t => (nodes t.nodeId).sweepWeight t).sum < rounds) :
    (E.run (splitSweep rounds idx) (m, s)).1 ≠ some false := by
  induction rounds generalizing idx m s with
  | zero => exact absurd hrounds (Nat.not_lt_zero _)
  | succ rounds ih =>
    rcases hidx : m.tablets[idx]? with _ | t
    · rw [Environment.run_splitSweep_none rounds hidx]
      simp
    obtain ⟨l₁, l₂, htablets, rfl⟩ := exists_append_of_getElem? hidx
    have hdrop : m.tablets.drop (l₁.length + 1) = l₂ := htablets ▸ (take_drop_succ l₁ l₂ t).2
    have hdrop₀ : m.tablets.drop l₁.length = t :: l₂ := by rw [htablets, List.drop_left]
    rw [hdrop₀] at hP hrounds
    rw [List.map_cons, List.sum_cons] at hrounds
    have ht := hP t List.mem_cons_self
    have hrest : ∀ u ∈ m.tablets.drop (l₁.length + 1), P u.nodeId u.startKey u.endKey :=
      hdrop.symm ▸ fun u hu => hP u (List.mem_cons_of_mem t hu)
    have hweight : 0 < (nodes t.nodeId).sweepWeight t := by
      unfold DataNode.sweepWeight
      split_ifs <;> omega
    -- without a split the tablet is behind the sweep
    have hskip : ∀ s, I s → (E.run (splitSweep rounds (l₁.length + 1)) (m, s)).1 ≠ some false :=
      fun s hs => ih hrest hs (by rw [hdrop]; omega)
    by_cases hbig : SPLIT_THRESHOLD ≤ t.keyCount
    · obtain ⟨hshort, s₁, hs₁, hrefused, hpoint⟩ := hE.round rounds hidx hbig ht hs
      by_cases hinside : SplitPoint t ((nodes t.nodeId).medianIn t)
      · obtain ⟨-, hPright⟩ :=
          hE.halves _ _ _ _ ht hinside.start_lt hinside.lt_end hshort
        rcases hpoint hinside with hcut | hgoes
        · rw [hcut]
          simp
        rw [hgoes]
        have hright := sweepWeight_rightHalf m ((nodes t.nodeId).reported t).1 hinside
        have hdrop' := (take_drop_succ l₁
          (m.rightHalf t ((nodes t.nodeId).reported t).1 ((nodes t.nodeId).medianIn t) :: l₂)
          (m.leftHalf t ((nodes t.nodeId).reported t).1 ((nodes t.nodeId).medianIn t))).2
        rw [← tablets_splitAt _ htablets] at hdrop'
        refine ih ?_ hs₁ ?_
        · rw [hdrop']
          exact List.forall_mem_cons.mpr ⟨hPright, hdrop ▸ hrest⟩
        · rw [hdrop', List.map_cons, List.sum_cons]
          change (nodes t.nodeId).sweepWeight _ + _ < rounds
          omega
      · rw [hrefused hinside]
        exact hskip s₁ hs₁
    · rw [Environment.run_splitSweep_small rounds hidx hbig]
      exact hskip s hs

/-- Tablets whose counts are those of the nodes all split up, or need not, by their number of keys. -/
theorem splitsUp_refresh_iff : (SPLIT_THRESHOLD ≤ (t.refresh nodes).keyCount →
      (nodes (t.refresh nodes).nodeId).SplitsUp (t.refresh nodes)) ↔
    ((nodes t.nodeId).keysIn t).length % 2 ^ 32 < 2 * SPLIT_THRESHOLD.toNat ∧
      ((nodes t.nodeId).keysIn t).length % 2 ^ 33 ≠ 2 ^ 32 + 11 := by
  have hsix : SPLIT_THRESHOLD.toNat = 6 := rfl
  have hcount : (t.refresh nodes).keyCount.toNat
      = ((nodes t.nodeId).keysIn t).length % 2 ^ 32 := by
    rw [Tablet.refresh, DataNode.reported, UInt64.toNat_ofNat_of_lt']
    exact (Nat.mod_lt _ (by norm_num)).trans (by norm_num)
  rw [UInt64.le_iff_toNat_le, hcount, hsix]
  constructor
  · intro h
    by_cases hbig : 6 ≤ ((nodes t.nodeId).keysIn t).length % 2 ^ 32
    · exact ⟨(h hbig).few, (h hbig).half⟩
    · omega
  · rintro ⟨hfew, hhalf⟩ hbig
    refine ⟨⟨fun hnil => ?_, fun hone => ?_⟩, hfew, hhalf⟩
    · change (nodes t.nodeId).keysIn t = [] at hnil
      rw [hnil, List.length_nil] at hbig
      omega
    · change (nodes t.nodeId).keysIn t = [t.startKey] at hone
      rw [hone, List.length_singleton] at hbig
      omega

/-- For any table, any key counts in it and any stores, with every statistics query answered: the
sweep ends, unless `dump` throws, and leaves small tablets only exactly where every tablet that is
large in the table has keys to be cut at and fewer than twice the keys for a split. After the
statistics of a round that is where no tablet has twice these keys. -/
theorem sweepSplitsAll_iff (hE : E.ReportsHalves nodes P I)
    (hP : ∀ t ∈ m.tablets, P t.nodeId t.startKey t.endKey) (hs : I s) :
    (∃ bound, ∀ rounds, bound < rounds → (E.run (splitSweep rounds 0) (m, s)).1 ≠ some false) ∧
      (∀ rounds w', E.run (splitSweep rounds 0) (m, s) = (some true, w') →
        (AllSmall w'.1.tablets ↔
          ∀ t ∈ m.tablets, SPLIT_THRESHOLD ≤ t.keyCount → (nodes t.nodeId).SplitsUp t)) ∧
      ∀ rounds w', E.run (syncAndSplit rounds) (m, s) = (some true, w') →
        (AllSmall w'.1.tablets ↔
          ∀ t ∈ m.tablets,
            ((nodes t.nodeId).keysIn t).length % 2 ^ 32 < 2 * SPLIT_THRESHOLD.toNat ∧
              ((nodes t.nodeId).keysIn t).length % 2 ^ 33 ≠ 2 ^ 32 + 11) := by
  refine ⟨⟨_, fun rounds hrounds => hE.sweep_ends hP hs hrounds⟩, ?_, ?_⟩
  · intro rounds w' hrun
    exact (hE.of_sweep (show ∀ t ∈ m.tablets.drop 0, _ from hP) hs hrun).2
  · intro rounds w' hrun
    obtain ⟨s₁, hsync, hs₁⟩ := run_syncAllTabletStats_reports hE.reports hP hs
    rw [syncAndSplit, Environment.run_bind_some hsync] at hrun
    have hP₁ : ∀ t ∈ (m.tablets.map (Tablet.refresh nodes)).drop 0,
        P t.nodeId t.startKey t.endKey := by
      intro t ht
      obtain ⟨u, hu, rfl⟩ := List.mem_map.mp ht
      exact hP u hu
    apply (hE.of_sweep hP₁ hs₁ hrun).2.trans
    rw [List.drop_zero, List.forall_mem_map]
    exact forall₂_congr fun t _ => splitsUp_refresh_iff

end Sweep

/-! ## Quiet connections, and a node that answers -/

/-- Quiet connections to the nodes of a table, and no client: all statistics queries of a sweep are
answered. -/
theorem reportsHalves_quiet {nodes : UInt32 → DataNode} (connected : UInt32 → Bool)
    (hstored : ∀ node, (nodes node).Storables) :
    Cluster.env.ReportsHalves nodes (Cluster.Asks connected) (Cluster.Standing nodes connected) where
  reports := reports_quiet connected hstored
  files := by
    have hfiles := keepsFiles_quiet nodes
    refine ⟨fun s hs => ?_, fun text s hs => ⟨hs.nodes, hs.quiet, hs.connected⟩, fun s hs => ?_⟩
    · obtain ⟨hnodes, hquiet⟩ := hfiles.openTmp s ⟨hs.nodes, hs.quiet⟩
      refine ⟨hnodes, hquiet, fun node => (Eq.trans ?_ (hs.connected node))⟩
      show ((if s.outcomes.opens then _ else _ : Cluster).connections node).connected = _
      split_ifs <;> rfl
    · obtain ⟨hnodes, hquiet⟩ := hfiles.renameTmp s ⟨hs.nodes, hs.quiet⟩
      refine ⟨hnodes, hquiet, fun node => (Eq.trans ?_ (hs.connected node))⟩
      show ((if s.outcomes.renames then _ else _ : Cluster).connections node).connected = _
      split_ifs <;> rfl
  halves _ _ _ _ h _ _ hshort := ⟨⟨h.1, h.2.1, hshort⟩, h.1, hshort, h.2.2⟩

/-- A node that answers all requests reports what it stores. -/
theorem reportsHalves_answering {n : DataNode} (hkeys : ∀ k, n.lookup k ≠ none → Short k) :
    (answering n).ReportsHalves (fun _ => n) (fun _ start end_ => Short start ∧ Short end_)
      fun _ => True where
  reports t hbounded m s _ := by
    obtain ⟨s', hrun⟩ :=
      run_queryTabletStats_answered m hbounded hkeys (answers_answering n s _ 3000)
    exact ⟨s', hrun, trivial⟩
  files := keepsFiles_true _
  halves _ _ _ _ h _ _ hshort := ⟨⟨h.1, hshort⟩, hshort, h.2⟩

/-- Eleven keys are split up. -/
theorem sweepSplitsAll_eleven :
    AllSmall ((answering (letters 11)).run (syncAndSplit 6) (initialMaster, [])).2.1.tablets := by
  have hshort := short_letters 11 (by decide +kernel)
  have hbounded : Boundaries Short initialMaster.tablets :=
    short_buildInitialTablets (by decide : buildInitialTablets twoNodes = some initialMaster.tablets)
  refine ((sweepSplitsAll_iff (reportsHalves_answering hshort) (m := initialMaster) (s := [])
    hbounded trivial).2.2 6 _ (Prod.ext (by decide +kernel) rfl)).mpr ?_
  decide +kernel

/-- Twelve keys are not: the left half keeps six. -/
theorem not_sweepSplitsAll_twelve : ¬∀ m rounds w', Reachable twoNodes m →
    (answering (letters 12)).run (syncAndSplit rounds) (m, []) = (some true, w') →
      AllSmall w'.1.tablets := by
  intro hall
  have hinit : Reachable twoNodes initialMaster := .init (by decide) (by decide)
  have hsmall := hall initialMaster 6 _ hinit (Prod.ext (by decide +kernel) rfl)
  revert hsmall
  decide +kernel

end LeKV
