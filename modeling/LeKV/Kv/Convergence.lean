import LeKV.Kv.Rebalance
import LeKV.Lib.Potential

/-!
# The balancer converges

While no client writes and nothing fails, the rounds of the balancer come to rest. Each split lowers
`splitPotential`, which a move leaves alone; once all tablets are below the split threshold, each
move lowers the sum of the squared loads. `balancer_converges` puts the two in lexicographic order.
It needs the keys at which tablets are cut to be valid UTF-8, for otherwise a round ends in a `dump`
that throws.
-/

namespace LeKV

open Bytes BinaryProtocol Balancer

/-! ## Rounds -/

/-- One round of the balancer, with the file operations and the clock it finds, that runs to its end.
The reply to the scan of a tablet that is to be moved fits a frame. -/
structure Round (w w' : World) : Prop where
  run : ∃ rounds outcomes clock w₁,
    Cluster.env.run (syncAndSplit rounds) (w.1, { w.2 with outcomes, clock }) = (some true, w₁) ∧
    BalancerAction.balance.Fits w₁ ∧
    Cluster.env.run (balancerRound rounds) (w.1, { w.2 with outcomes, clock }) = (some true, w')

/-- Whatever the file operations and the clock, a round ends: its sweep comes to the end of the
table, and then load balancing ends. -/
def RoundEnds (w : World) : Prop :=
  ∀ (outcomes : FileOutcomes) (clock : List ℤ), ∃ n, ∀ rounds ≥ n, ∃ w₁,
    Cluster.env.run (syncAndSplit rounds) (w.1, { w.2 with outcomes, clock }) = (some true, w₁) ∧
    (BalancerAction.balance.Fits w₁ → ∃ w',
      Cluster.env.run (balancerRound rounds) (w.1, { w.2 with outcomes, clock }) = (some true, w'))

/-- All tablets are below the split threshold, and any two nodes that own a tablet store numbers of
keys below the balancing threshold apart. -/
structure Converged (w : World) : Prop where
  small : ∀ t ∈ w.1.tablets, ((w.2.nodes t.nodeId).keysIn t).length < 6
  close : ∀ t ∈ w.1.tablets, ∀ u ∈ w.1.tablets, w.stored t.nodeId < w.stored u.nodeId + 7

/-- Every round ends, and in any sequence of rounds only finitely many split or move a tablet; after
these the tablets are small and the loads close. -/
structure Converges (w : World) : Prop where
  ends : ∀ w', Relation.ReflTransGen Round w w' → RoundEnds w'
  settles : ∀ x : ℕ → World, x 0 = w → (∀ n, Round (x n) (x (n + 1))) →
    ∃ N, ∀ n ≥ N, assignment (x (n + 1)).1.tablets = assignment (x n).1.tablets ∧ Converged (x n)

/-! ## The potential -/

/-- How much there is left to split, and then how uneven the loads are. -/
def potential (S : Finset UInt32) (w : World) : ℕ ×ₗ ℕ :=
  toLex (splitPotential w.2.nodes w.1.tablets, ∑ node ∈ S, w.stored node ^ 2)

section Round

variable {σ : Bytes → Option Bytes} {w w' : World}

theorem Counted.splitPotential_eq (h : Counted w) :
    splitPotential w.2.nodes w.1.tablets = (w.1.tablets.map fun t => t.keyCount.toNat - 1).sum := by
  unfold splitPotential
  refine congrArg List.sum (List.map_congr_left fun t ht => ?_)
  rw [h t ht]

/-- A move splits nothing up. -/
theorem splitPotential_moveTo (hcounted : Counted w) (hcounted' : Counted w') {idx : ℕ} {dst : UInt32}
    (htablets : w'.1.tablets = (w.1.moveTo idx dst).tablets) :
    splitPotential w'.2.nodes w'.1.tablets = splitPotential w.2.nodes w.1.tablets := by
  rw [hcounted.splitPotential_eq, hcounted'.splitPotential_eq, htablets, Master.moveTo]
  refine congrArg List.sum (map_modify_eq ?_ w.1.tablets idx)
  exact fun t => rfl

/-- New key counts change nothing to split up. -/
theorem splitPotential_recount (nodes nodes' : UInt32 → DataNode) (tablets : List Tablet) :
    splitPotential nodes (tablets.map (Cluster.recount nodes')) = splitPotential nodes tablets := by
  unfold splitPotential
  rw [List.map_map]
  rfl

/-- The keys at which tablets may be cut depend on their ranges only. -/
theorem Savable.of_ranges (hs : Savable w) (h : Refines σ w) (h' : Refines σ w')
    (hranges : ∀ t ∈ w'.1.tablets, ∃ u ∈ w.1.tablets,
      u.startKey = t.startKey ∧ u.endKey = t.endKey) : Savable w' := by
  refine ⟨fun t ht => ?_, fun t ht k hk => ?_⟩
  · obtain ⟨u, hu, hstart, hend⟩ := hranges t ht
    exact hstart ▸ hend ▸ hs.boundaries u hu
  · obtain ⟨u, hu, hstart, hend⟩ := hranges t ht
    exact hs.cuts u hu k (h.keysIn_eq h' hu ht hstart hend ▸ hk)

/-- The parts of a round. -/
theorem Round.cases (h : Healthy σ w) (hfew : FewKeys σ) (hround : Round w w') :
    ∃ w₁ w₂ ok, Healthy σ w₁ ∧ Counted w₁ ∧
      w₁.1.tablets = w.1.tablets.map (Cluster.recount w.2.nodes) ∧ w₁.2.nodes = w.2.nodes ∧
      Swept σ 0 w₁ w₂ ∧ BalancerAction.balance.Fits w₂ ∧
      Cluster.env.run doLoadBalance w₂ = (some ok, w') := by
  obtain ⟨rounds, outcomes, clock, w₂, hsplit, hfits, hrun⟩ := hround.run
  obtain ⟨w₁, hhealthy, hcounted, htablets, hnodes, hswept⟩ :=
    (h.of_files outcomes clock).of_syncAndSplit hfew hsplit
  rw [balancerRound, Environment.run_bind_some hsplit, if_neg (not_not.mpr rfl)] at hrun
  rcases hbalance : Cluster.env.run doLoadBalance w₂ with ⟨_ | ok, w₃⟩
  · rw [Environment.run_bind_none hbalance] at hrun
    exact absurd (congrArg Prod.fst hrun) (by simp)
  · rw [Environment.run_bind_some hbalance] at hrun
    obtain ⟨-, rfl⟩ := Prod.mk.inj hrun
    exact ⟨w₁, w₂, ok, hhealthy, hcounted, htablets, hnodes, hswept, hfits, hbalance⟩

/-- Recounted tablets are small where the tablets are. -/
theorem keyCount_recounted {w₁ : World} (hcounted : Counted w₁)
    (htablets : w₁.1.tablets = w.1.tablets.map (Cluster.recount w.2.nodes))
    (hnodes : w₁.2.nodes = w.2.nodes) :
    (∀ t ∈ w₁.1.tablets, t.keyCount.toNat < 6) ↔
      ∀ t ∈ w.1.tablets, ((w.2.nodes t.nodeId).keysIn t).length < 6 := by
  constructor
  · intro h t ht
    have hmem : Cluster.recount w.2.nodes t ∈ w₁.1.tablets := htablets ▸ List.mem_map_of_mem ht
    have hcount := hcounted _ hmem
    rw [hnodes] at hcount
    exact lt_of_eq_of_lt hcount.symm (h _ hmem)
  · intro h t ht
    rw [hcounted t ht, hnodes]
    rw [htablets] at ht
    obtain ⟨u, hu, rfl⟩ := List.mem_map.mp ht
    exact h u hu

/-- What a round keeps: the map, and that the table can be saved, on the nodes of the table. -/
theorem Healthy.round (h : Healthy σ w) (hfew : FewKeys σ) (hround : Round w w') :
    Healthy σ w' ∧ (Savable w → Savable w') ∧
      ∀ t ∈ w'.1.tablets, ∃ u ∈ w.1.tablets, u.nodeId = t.nodeId := by
  obtain ⟨w₁, w₂, ok, h₁, -, htablets, -, hswept, hfits, hrun⟩ := hround.cases h hfew
  have hsavable₁ : Savable w → Savable w₁ := by
    refine fun hs => hs.of_ranges h.toRefines h₁.toRefines fun t ht => ?_
    obtain ⟨u, hu, rfl⟩ := List.mem_map.mp (htablets ▸ ht)
    exact ⟨u, hu, rfl, rfl⟩
  have howners₂ : ∀ t ∈ w₂.1.tablets, ∃ u ∈ w.1.tablets, u.nodeId = t.nodeId := by
    intro t ht
    obtain ⟨u, hu, hnode⟩ := hswept.owners t ht
    obtain ⟨v, hv, rfl⟩ := List.mem_map.mp (htablets ▸ hu)
    exact ⟨v, hv, hnode⟩
  rcases hswept.healthy.balance hfew hswept.counted hfits hrun with
    ⟨-, -, rfl⟩ | ⟨-, idx, t, dst, -, hidx, hchosen, -, hmoved, h', -⟩
  · exact ⟨hswept.healthy, hswept.savable ∘ hsavable₁, howners₂⟩
  obtain ⟨rest, hold, hnew⟩ := mem_moveTo dst hidx
  refine ⟨h', fun hs => ?_, fun u hu => ?_⟩
  · refine (hswept.savable (hsavable₁ hs)).of_ranges hswept.healthy.toRefines h'.toRefines
      fun u hu => ?_
    rcases (hnew u).mp (hmoved ▸ hu) with rfl | hu
    · exact ⟨t, (hold t).mpr (.inl rfl), rfl, rfl⟩
    · exact ⟨u, (hold u).mpr (.inr hu), rfl, rfl⟩
  · rcases (hnew u).mp (hmoved ▸ hu) with rfl | hu
    · obtain ⟨v, hv, hnode⟩ := hchosen.owns
      exact hnode ▸ howners₂ v hv
    · exact howners₂ u ((hold u).mpr (.inr hu))

/-- In a converged world a round changes nothing. -/
theorem Converged.round (hc : Converged w) (h : Healthy σ w) (hfew : FewKeys σ)
    (hround : Round w w') :
    Converged w' ∧ assignment w'.1.tablets = assignment w.1.tablets := by
  obtain ⟨w₁, w₂, ok, h₁, hcounted₁, htablets, hnodes, hswept, hfits, hrun⟩ := hround.cases h hfew
  have hsmall := (keyCount_recounted hcounted₁ htablets hnodes).mpr hc.small
  -- there is nothing to split
  have hsame : w₂.1.tablets = w.1.tablets.map (Cluster.recount w.2.nodes) := by
    rcases hswept.progress with ⟨hsame, -⟩ | ⟨⟨t, ht, hbig⟩, -⟩
    · rw [hsame, htablets]
    · exact absurd (hsmall t (List.mem_of_mem_drop ht)) (not_lt.mpr hbig)
  have hnodes₂ : w₂.2.nodes = w.2.nodes := hswept.nodes.trans hnodes
  have hstored : ∀ node, w₂.stored node = w.stored node := fun node => by
    rw [World.stored, World.stored, hnodes₂]
  have hmem : ∀ t ∈ w₂.1.tablets, ∃ u ∈ w.1.tablets, t = Cluster.recount w.2.nodes u := by
    intro t ht
    obtain ⟨u, hu, rfl⟩ := List.mem_map.mp (hsame ▸ ht)
    exact ⟨u, hu, rfl⟩
  rcases hswept.healthy.balance hfew hswept.counted hfits hrun with
    ⟨-, -, rfl⟩ | ⟨-, idx, t, dst, htarget, hidx, hchosen, -⟩
  · refine ⟨⟨fun t ht => ?_, fun t ht u hu => ?_⟩, ?_⟩
    · obtain ⟨u, hu, rfl⟩ := hmem t ht
      rw [hnodes₂]
      exact hc.small u hu
    · obtain ⟨a, ha, rfl⟩ := hmem t ht
      obtain ⟨b, hb, rfl⟩ := hmem u hu
      rw [hstored, hstored]
      exact hc.close a ha b hb
    · rw [hsame]
      unfold assignment
      rw [List.map_map]
      rfl
  · -- nor anything to move
    obtain ⟨-, -, hgap⟩ :=
      hswept.healthy.target_stored hfew hswept.counted htarget hidx hchosen
    obtain ⟨a, ha, rfl⟩ := hmem t (List.mem_of_getElem? hidx)
    obtain ⟨v, hv, rfl⟩ := hchosen.owns
    obtain ⟨b, hb, rfl⟩ := hmem v hv
    rw [hstored, hstored] at hgap
    have hclose := hc.close a ha b hb
    have hle : w.stored b.nodeId + 7 ≤ w.stored a.nodeId := hgap
    omega

/-- In any other world a round lowers the potential. -/
theorem Healthy.potential_lt (h : Healthy σ w) (hfew : FewKeys σ) (hround : Round w w')
    (hnot : ¬Converged w) {S : Finset UInt32} (hS : ∀ t ∈ w.1.tablets, t.nodeId ∈ S) :
    potential S w' < potential S w := by
  obtain ⟨w₁, w₂, ok, h₁, hcounted₁, htablets, hnodes, hswept, hfits, hrun⟩ := hround.cases h hfew
  have hsplit₁ : splitPotential w₁.2.nodes w₁.1.tablets = splitPotential w.2.nodes w.1.tablets := by
    rw [htablets, hnodes]
    exact splitPotential_recount _ _ _
  have hbalance := hswept.healthy.balance hfew hswept.counted hfits hrun
  -- load balancing splits nothing
  have hsplit₂ : splitPotential w'.2.nodes w'.1.tablets
      = splitPotential w₂.2.nodes w₂.1.tablets := by
    rcases hbalance with ⟨-, -, rfl⟩ | ⟨-, idx, t, dst, -, -, -, -, hmoved, -, hcounted'⟩
    · rfl
    · exact splitPotential_moveTo hswept.counted hcounted' hmoved
  rw [potential, potential, Prod.Lex.toLex_lt_toLex, hsplit₂]
  rcases hswept.progress with ⟨hsame, hall⟩ | ⟨-, hless⟩
  swap
  · exact .inl (hsplit₁ ▸ hless)
  right
  have hsmall := (keyCount_recounted hcounted₁ htablets hnodes).mp hall
  have hstored : ∀ node, w₂.stored node = w.stored node := fun node => by
    rw [World.stored, World.stored, hswept.nodes, hnodes]
  have hrecount : ∀ t ∈ w.1.tablets, Cluster.recount w.2.nodes t ∈ w₂.1.tablets := by
    intro t ht
    rw [hsame, htablets]
    exact List.mem_map_of_mem ht
  rcases hbalance with ⟨-, hbalanced, -⟩ | ⟨-, idx, t, dst, htarget, hidx, hchosen, hne, hmoved, h', hcounted'⟩
  · -- without a move the world has converged
    refine absurd ⟨hsmall, fun t ht u hu => ?_⟩ hnot
    have hlt := hbalanced _ (hrecount t ht) _ (hrecount u hu)
    rw [hswept.counted.loadOf_eq hswept.healthy.toRefines hfew,
      hswept.counted.loadOf_eq hswept.healthy.toRefines hfew] at hlt
    rw [← hstored, ← hstored]
    exact hlt
  · obtain ⟨-, -, hgap⟩ :=
      hswept.healthy.target_stored hfew hswept.counted htarget hidx hchosen
    obtain ⟨hfrom, hto, hrest⟩ :=
      stored_moveTo hswept.healthy hswept.counted h' hcounted' hidx hne hmoved
    have ht : t ∈ w₁.1.tablets := hsame ▸ List.mem_of_getElem? hidx
    have hnodeS : ∀ u ∈ w₂.1.tablets, u.nodeId ∈ S := by
      intro u hu
      obtain ⟨v, hv, rfl⟩ := List.mem_map.mp (htablets ▸ hsame ▸ hu)
      exact hS v hv
    obtain ⟨u, hu, hunode⟩ := hchosen.owns
    -- the tablet that moves has fewer keys than the loads are apart
    have hfive := hall t ht
    simp only [hstored] at hfrom hto hrest hgap
    refine ⟨hsplit₁ ▸ hsame ▸ hswept.nodes ▸ rfl, ?_⟩
    exact Potential.sum_sq_lt (hnodeS t (List.mem_of_getElem? hidx)) (hunode ▸ hnodeS u hu) hne hfrom
      hto hrest (UInt64.lt_iff_toNat_lt.mp hchosen.pos) (by omega)

/-- A round ends where the table can be saved. -/
theorem Healthy.roundEnds (h : Healthy σ w) (hfew : FewKeys σ) (hsavable : Savable w) :
    RoundEnds w := by
  intro outcomes clock
  have hfiles := h.of_files outcomes clock
  obtain ⟨w₁, hsync, h₁, hcounted₁, htablets, -⟩ := hfiles.sync hfew
  have hsavable₁ : Savable w₁ := by
    apply Savable.of_ranges hsavable h.toRefines h₁.toRefines
    intro t ht
    obtain ⟨u, hu, rfl⟩ := List.mem_map.mp (htablets ▸ ht)
    exact ⟨u, hu, rfl, rfl⟩
  refine ⟨((w₁.1.tablets.drop 0).map fun t => t.keyCount.toNat + 1).sum + 1,
    fun rounds hrounds => ?_⟩
  obtain ⟨w₂, hsweep⟩ := h₁.sweep_ends hfew hcounted₁ hsavable₁ (Nat.lt_of_succ_le hrounds)
  have hswept := h₁.of_sweep hfew hcounted₁ hsweep
  have hsplit : Cluster.env.run (syncAndSplit rounds) (w.1, { w.2 with outcomes, clock })
      = (some true, w₂) := by
    rw [syncAndSplit, Environment.run_bind_some hsync]
    exact hsweep
  refine ⟨w₂, hsplit, fun hfits => ?_⟩
  obtain ⟨r, w₃, hbalance, -, hnone⟩ := hswept.healthy.balance_runs hfits
  rcases r with _ | ok
  · exact absurd (hswept.savable hsavable₁).boundaries (hnone rfl).2
  · refine ⟨w₃, ?_⟩
    rw [balancerRound, Environment.run_bind_some hsplit, if_neg (not_not.mpr rfl),
      Environment.run_bind_some hbalance]
    rfl

/-- What holds after any number of rounds. -/
theorem Healthy.rounds (h : Healthy σ w) (hfew : FewKeys σ) (hsavable : Savable w)
    (hrounds : Relation.ReflTransGen Round w w') : Healthy σ w' ∧ Savable w' := by
  induction hrounds with
  | refl => exact ⟨h, hsavable⟩
  | tail _ hround ih =>
    obtain ⟨h', hsavable', -⟩ := ih.1.round hfew hround
    exact ⟨h', hsavable' ih.2⟩

theorem Healthy.converges (h : Healthy σ w) (hfew : FewKeys σ) (hsavable : Savable w) :
    Converges w where
  ends w' hrounds := by
    obtain ⟨h', hsavable'⟩ := h.rounds hfew hsavable hrounds
    exact h'.roundEnds hfew hsavable'
  settles x hx hround := by
    -- the nodes that own a tablet now
    let S : Finset UInt32 := (w.1.tablets.map Tablet.nodeId).toFinset
    have hinv : ∀ n, Healthy σ (x n) ∧ ∀ t ∈ (x n).1.tablets, t.nodeId ∈ S := by
      intro n
      induction n with
      | zero =>
        rw [hx]
        exact ⟨h, fun t ht => List.mem_toFinset.mpr (List.mem_map_of_mem ht)⟩
      | succ n ih =>
        obtain ⟨h', -, hnodes⟩ := ih.1.round hfew (hround n)
        refine ⟨h', fun t ht => ?_⟩
        obtain ⟨u, hu, hnode⟩ := hnodes t ht
        exact hnode ▸ ih.2 u hu
    have hstep : ∀ n, Converged (x n) ∨ potential S (x (n + 1)) < potential S (x n) := by
      intro n
      by_cases hc : Converged (x n)
      · exact .inl hc
      · exact .inr ((hinv n).1.potential_lt hfew (hround n) hc (hinv n).2)
    obtain ⟨N, hN⟩ := Potential.eventually_idle (fun n => potential S (x n)) hstep fun n hc =>
      (hc.round (hinv n).1 hfew (hround n)).1
    refine ⟨N, fun n hn => ⟨?_, hN n hn⟩⟩
    exact ((hN n hn).round (hinv n).1 hfew (hround n)).2

end Round

/-- From every state of a run: every round of the balancer ends, only finitely many of them split or
move a tablet, and after these all tablets are small and the loads close, provided that the keys at
which tablets are cut can be saved. -/
theorem balancer_converges {peers : List PeerInfo} {w₀ w : World} {ops : List ClientOp}
    (hstart : Start peers w₀) (h : Run w₀ ops w) (hfew : FewKeys (mapAfter ops))
    (hsavable : Savable w) : Converges w :=
  (h.healthy hstart).converges hfew hsavable

/-- With nine keys that are ASCII the balancer converges. -/
theorem balancer_converges_nine : ∃ w, Run (initialMaster, emptyCluster) (writes (byteKeys 1 9)) w ∧
    Converges w := by
  have hlen : (byteKeys 1 9).length < 2 ^ 32 := by decide
  have hkeys : ∀ k ∈ byteKeys 1 9, k.length < 2 ^ 16 := by decide
  obtain ⟨w, hrun, hmaster⟩ := exists_run_writes hkeys
  have hsavable : Savable w :=
    savable_writes (hrun.refines emptyCluster_start) (by rw [hmaster]) (by decide)
  exact ⟨w, hrun, balancer_converges emptyCluster_start hrun (fewKeys_writes hlen) hsavable⟩

/-- With six keys that are not UTF-8 the first round does not end, for `dump` throws. -/
theorem not_converges_binary : ¬∀ (peers : List PeerInfo) (w₀ w : World) (ops : List ClientOp),
    Start peers w₀ → Run w₀ ops w → FewKeys (mapAfter ops) → Converges w := by
  intro hall
  have hlen : (byteKeys 0x80 6).length < 2 ^ 32 := by decide
  have hkeys : ∀ k ∈ byteKeys 0x80 6, k.length < 2 ^ 16 := by decide
  have hsorted : (byteKeys 0x80 6).Pairwise (· < ·) := by decide
  have hfew := fewKeys_writes hlen
  obtain ⟨w, hrun, hmaster⟩ := exists_run_writes hkeys
  obtain ⟨n, hn⟩ := (hall _ _ w _ emptyCluster_start hrun hfew).ends w .refl ⟨true, true, true⟩ []
  obtain ⟨w₂, hsplit, -⟩ := hn (n + 2) (Nat.le_add_right n 2)
  obtain ⟨w₁, hsync, h₁, hcounted₁, htablets, hnodes⟩ :=
    ((hrun.healthy emptyCluster_start).of_files ⟨true, true, true⟩ []).sync hfew
  rw [syncAndSplit, Environment.run_bind_some hsync] at hsplit
  have hopens : w₁.2.outcomes.opens = true := by
    have houtcomes := Cluster.outcomes_run syncAllTabletStats
      (w.1, { w.2 with outcomes := ⟨true, true, true⟩, clock := [] })
    rw [hsync] at houtcomes
    rw [houtcomes]
  have htablets' : w₁.1.tablets = initialMaster.tablets.map (Cluster.recount w.2.nodes) :=
    hmaster ▸ htablets
  obtain ⟨-, hnone, -⟩ :=
    stored_writes h₁ hcounted₁ htablets' hsorted ⟨1, [], [0x6D], 2, 0⟩ (by decide)
  obtain ⟨hmem, hsix, -⟩ :=
    stored_writes h₁ hcounted₁ htablets' hsorted ⟨2, [0x6D], [], 3, 0⟩ (by decide)
  have hfirst : w₁.1.tablets[0]? = some (Cluster.recount w.2.nodes ⟨1, [], [0x6D], 2, 0⟩) := by
    rw [htablets']
    rfl
  have hsecond : w₁.1.tablets[1]? = some (Cluster.recount w.2.nodes ⟨2, [0x6D], [], 3, 0⟩) := by
    rw [htablets']
    rfl
  have hsmall : ¬SPLIT_THRESHOLD ≤ (Cluster.recount w.2.nodes ⟨1, [], [0x6D], 2, 0⟩).keyCount := by
    rw [splitThreshold_le, hnone]
    decide
  have hbig : 6 ≤ (Cluster.recount w.2.nodes ⟨2, [0x6D], [], 3, 0⟩).keyCount.toNat := by
    rw [hsix]
    decide
  obtain ⟨m₁, s₁⟩ := w₁
  rw [Environment.run_splitSweep_small _ hfirst hsmall,
    Environment.run_splitSweep_big _ hsecond (splitThreshold_le.mpr hbig)] at hsplit
  obtain ⟨-, -, s', htry, -⟩ := h₁.split hfew hcounted₁ hsecond hbig
  -- the median is byte 83
  have hmedian : ¬Utf8 ((s₁.nodes 3).medianIn (Cluster.recount w.2.nodes ⟨2, [0x6D], [], 3, 0⟩)) := by
    have hkeysIn := keysIn_writes h₁.toRefines hsorted hmem
    have hsame : ((byteKeys 0x80 6).filter fun k => (Tablet.mk 2 [0x6D] [] 3 0).Contains k)
      = byteKeys 0x80 6 := by decide
    rw [DataNode.medianIn, show (s₁.nodes 3).keysIn _ = _ from hkeysIn.trans hsame]
    decide
  rw [if_pos ⟨hopens, dump_eq_none.mpr fun hd =>
    hmedian ((dumpable_splitAt _ _ hsecond).mp hd).2⟩] at htry
  rw [Environment.run_bind_none htry] at hsplit
  exact absurd (congrArg Prod.fst hsplit) (by simp)

end LeKV
