import LeKV.Kv.Tiling
import Mathlib.Data.UInt

/-!
# Loads and the balancer's choice (`RaftNode::DoLoadBalance`)

`nodeLoad` adds up the key counts of each node's tablets, so it knows the nodes that own a tablet and
no others. `IsTarget` says what is chosen among them: a largest tablet of a most loaded node, and a
least loaded node. A DataNode that owns nothing is never chosen, however little the others leave it
(`leastLoaded_iff`).
-/

namespace LeKV

open Bytes BinaryProtocol Balancer

/-- The keys of a node by the key counts of its tablets, added in `uint64_t`. -/
def loadOf (tablets : List Tablet) (node : UInt32) : UInt64 :=
  ((tablets.filter fun t => t.nodeId = node).map Tablet.keyCount).sum

theorem loadOf_append (tablets : List Tablet) (t : Tablet) (node : UInt32) :
    loadOf (tablets ++ [t]) node
      = if t.nodeId = node then loadOf tablets node + t.keyCount else loadOf tablets node := by
  unfold loadOf
  rw [List.filter_append, List.map_append, List.sum_append, List.filter_singleton]
  split_ifs with h <;> simp [h]

/-- A node without tablets has no load. -/
theorem loadOf_eq_zero {tablets : List Tablet} {node : UInt32} (h : ∀ t ∈ tablets, t.nodeId ≠ node) :
    loadOf tablets node = 0 := by
  have hnone : tablets.filter (fun t => t.nodeId = node) = [] :=
    List.filter_eq_nil_iff.mpr fun t ht => by simpa using h t ht
  rw [loadOf, hnone]
  rfl

/-! ## The map from node to load -/

theorem nodeLoad_append (tablets : List Tablet) (t : Tablet) :
    nodeLoad (tablets ++ [t]) = (nodeLoad tablets).insert t.nodeId.toNat
      (((nodeLoad tablets).find? t.nodeId.toNat).getD 0 + t.keyCount) := by
  unfold nodeLoad
  rw [List.foldl_append]
  rfl

/-- A map with these entries has the load of every node. -/
theorem find?_of_loads {load : SortedMap ℕ UInt64} {tablets : List Tablet}
    (h : ∀ e, e ∈ load.entries ↔ ∃ t ∈ tablets, e = (t.nodeId.toNat, loadOf tablets t.nodeId))
    (node : UInt32) : (load.find? node.toNat).getD 0 = loadOf tablets node := by
  rcases hfind : load.find? node.toNat with _ | c
  · refine (loadOf_eq_zero fun t ht heq => ?_).symm
    have hmem := (h _).mpr ⟨t, ht, rfl⟩
    rw [heq] at hmem
    exact SortedMap.find?_eq_none.mp hfind _ hmem
  · obtain ⟨t, -, heq⟩ := (h _).mp (SortedMap.find?_eq_some.mp hfind)
    obtain ⟨hnode, rfl⟩ := Prod.mk.inj heq
    rw [UInt32.toNat_inj.mp hnode]
    rfl

/-- The entries are the nodes that own a tablet, with their loads. -/
theorem mem_nodeLoad {tablets : List Tablet} {e : ℕ × UInt64} :
    e ∈ (nodeLoad tablets).entries ↔ ∃ t ∈ tablets, e = (t.nodeId.toNat, loadOf tablets t.nodeId) := by
  induction tablets using List.reverseRecOn generalizing e with
  | nil => exact iff_of_false List.not_mem_nil fun ⟨t, ht, _⟩ => List.not_mem_nil ht
  | append_singleton tablets u ih =>
    -- what the map held for the new tablet's node
    have hold := find?_of_loads (fun _ => ih) u.nodeId
    rw [nodeLoad_append, SortedMap.mem_insert, hold, ih]
    constructor
    · rintro (rfl | ⟨⟨t, ht, rfl⟩, hne⟩)
      · refine ⟨u, by simp, ?_⟩
        rw [loadOf_append, if_pos rfl]
      · have hnode : u.nodeId ≠ t.nodeId := fun h => hne (congrArg UInt32.toNat h.symm)
        refine ⟨t, List.mem_append_left _ ht, ?_⟩
        rw [loadOf_append, if_neg hnode]
    · rintro ⟨t, ht, rfl⟩
      by_cases hnode : u.nodeId = t.nodeId
      · left
        rw [loadOf_append, if_pos hnode, hnode]
      · right
        rw [loadOf_append, if_neg hnode]
        rcases List.mem_append.mp ht with ht | ht
        · exact ⟨⟨t, ht, rfl⟩, fun h => hnode (UInt32.toNat_inj.mp h).symm⟩
        · exact absurd (congrArg Tablet.nodeId (List.mem_singleton.mp ht)).symm hnode

theorem nodeLoad_find? (tablets : List Tablet) (node : UInt32) :
    ((nodeLoad tablets).find? node.toNat).getD 0 = loadOf tablets node :=
  find?_of_loads (fun _ => mem_nodeLoad) node

/-! ## The chosen nodes and tablet -/

/-- A scan that replaces its choice by what is better ends with a choice that nothing exceeds. -/
theorem foldl_choose {α : Type*} {le : α → α → Prop} {better : α → α → Prop} [DecidableRel better]
    (hrefl : ∀ a, le a a) (htrans : ∀ {a b c}, le a b → le b c → le a c)
    (hbetter : ∀ a b, better a b → le a b) (hnot : ∀ a b, ¬better a b → le b a) (l : List α) (e : α) :
    (l.foldl (fun best x => if better best x then x else best) e) ∈ e :: l ∧
      ∀ x ∈ e :: l, le x (l.foldl (fun best x => if better best x then x else best) e) := by
  induction l generalizing e with
  | nil => simpa using hrefl e
  | cons x l ih =>
    obtain ⟨hmem, hle⟩ := ih (if better e x then x else e)
    rw [List.foldl_cons]
    have hnext : (if better e x then x else e) ∈ [e, x] ∧ le e (if better e x then x else e) ∧
        le x (if better e x then x else e) := by
      split_ifs with h
      · exact ⟨by simp, hbetter e x h, hrefl x⟩
      · exact ⟨by simp, hrefl e, hnot e x h⟩
    obtain ⟨hchoice, he, hx⟩ := hnext
    have hfirst := hle _ List.mem_cons_self
    constructor
    · rcases List.mem_cons.mp hmem with hr | hr
      · rw [hr]
        exact List.mem_append_left l hchoice
      · exact List.mem_append_right [e, x] hr
    · intro y hy
      rcases List.mem_cons.mp hy with rfl | hy
      · exact htrans he hfirst
      · rcases List.mem_cons.mp hy with rfl | hy
        · exact htrans hx hfirst
        · exact hle y (List.mem_cons_of_mem _ hy)

theorem maxElement_spec {l : List (ℕ × UInt64)} (h : l ≠ []) :
    ∃ e ∈ l, maxElement l = some e ∧ ∀ x ∈ l, x.2 ≤ e.2 := by
  obtain ⟨e, l, rfl⟩ := List.exists_cons_of_ne_nil h
  obtain ⟨hmem, hle⟩ := @foldl_choose (ℕ × UInt64) (fun a b => a.2 ≤ b.2) (fun a b => a.2 < b.2) _
    (fun _ => UInt64.le_refl _) UInt64.le_trans (fun _ _ => UInt64.le_of_lt)
    (fun _ _ => UInt64.not_lt.mp) l e
  exact ⟨_, hmem, rfl, hle⟩

theorem minElement_spec {l : List (ℕ × UInt64)} (h : l ≠ []) :
    ∃ e ∈ l, minElement l = some e ∧ ∀ x ∈ l, e.2 ≤ x.2 := by
  obtain ⟨e, l, rfl⟩ := List.exists_cons_of_ne_nil h
  obtain ⟨hmem, hle⟩ := @foldl_choose (ℕ × UInt64) (fun a b => b.2 ≤ a.2) (fun a b => b.2 < a.2) _
    (fun _ => UInt64.le_refl _) (fun hab hbc => UInt64.le_trans hbc hab)
    (fun _ _ => UInt64.le_of_lt) (fun _ _ => UInt64.not_lt.mp) l e
  exact ⟨_, hmem, rfl, hle⟩

/-- The choice among the tablets looked at so far: the first with the most keys, if one has any. -/
structure BestTablet (tablets : List Tablet) (src : UInt32) (best : Option ℕ × UInt64) : Prop where
  le : ∀ t ∈ tablets, t.nodeId = src → t.keyCount ≤ best.2
  none : best.1 = none → best.2 = 0
  some : ∀ i, best.1 = some i →
    0 < best.2 ∧ ∃ t, tablets[i]? = some t ∧ t.nodeId = src ∧ t.keyCount = best.2

theorem bestTablet_targetTablet (tablets : List Tablet) (src : UInt32) :
    ∃ count, BestTablet tablets src (targetTablet tablets src, count) := by
  suffices h : BestTablet tablets src (tablets.zipIdx.foldl
      (fun (best : Option ℕ × UInt64) (e : Tablet × ℕ) =>
        if e.1.nodeId = src ∧ best.2 < e.1.keyCount then (some e.2, e.1.keyCount) else best)
      (none, 0)) from ⟨_, h⟩
  induction tablets using List.reverseRecOn with
  | nil => exact ⟨fun t ht => absurd ht List.not_mem_nil, fun _ => rfl, fun i hi => absurd hi (by simp)⟩
  | append_singleton tablets u ih =>
    rw [List.zipIdx_append, List.foldl_append]
    generalize tablets.zipIdx.foldl (fun (best : Option ℕ × UInt64) (e : Tablet × ℕ) =>
      if e.1.nodeId = src ∧ best.2 < e.1.keyCount then (some e.2, e.1.keyCount) else best)
      (none, 0) = best at ih ⊢
    rw [Nat.zero_add, List.zipIdx_singleton, List.foldl_cons, List.foldl_nil]
    by_cases hu : u.nodeId = src ∧ best.2 < u.keyCount
    · rw [if_pos hu]
      refine ⟨fun t ht hsrc => ?_, fun h => absurd h (by simp), ?_⟩
      · rcases List.mem_append.mp ht with ht | ht
        · exact UInt64.le_of_lt (UInt64.lt_of_le_of_lt (ih.le t ht hsrc) hu.2)
        · rw [List.mem_singleton.mp ht]
          exact UInt64.le_refl _
      · rintro i ⟨⟩
        exact ⟨UInt64.lt_of_le_of_lt (UInt64.zero_le) hu.2, u, by simp, hu.1, rfl⟩
    · rw [if_neg hu]
      refine ⟨fun t ht hsrc => ?_, ih.none, fun i hi => ?_⟩
      · rcases List.mem_append.mp ht with ht | ht
        · exact ih.le t ht hsrc
        · obtain rfl := List.mem_singleton.mp ht
          exact UInt64.not_lt.mp fun hlt => hu ⟨hsrc, hlt⟩
      · obtain ⟨hpos, t, ht, hsrc, hcount⟩ := ih.some i hi
        refine ⟨hpos, t, ?_, hsrc, hcount⟩
        rw [List.getElem?_append_left (List.getElem?_eq_some_iff.mp ht).1, ht]

/-- What `DoLoadBalance` chooses: a largest tablet `t` of a most loaded node, and a least loaded
node, among those that own a tablet. -/
structure IsTarget (tablets : List Tablet) (t : Tablet) (dst : UInt32) : Prop where
  pos : 0 < t.keyCount
  largest : ∀ u ∈ tablets, u.nodeId = t.nodeId → u.keyCount ≤ t.keyCount
  owns : ∃ u ∈ tablets, u.nodeId = dst
  most : ∀ u ∈ tablets, loadOf tablets u.nodeId ≤ loadOf tablets t.nodeId
  least : ∀ u ∈ tablets, loadOf tablets dst ≤ loadOf tablets u.nodeId
  gap : (loadOf tablets dst).toNat + 7 ≤ (loadOf tablets t.nodeId).toNat

/-- The loads of any two nodes that own a tablet are less than the threshold apart. -/
def Balanced (tablets : List Tablet) : Prop :=
  ∀ t ∈ tablets, ∀ u ∈ tablets,
    (loadOf tablets t.nodeId).toNat < (loadOf tablets u.nodeId).toNat + 7

/-- A node with a load owns a tablet with keys. -/
theorem exists_pos_of_loadOf {tablets : List Tablet} {node : UInt32}
    (h : 0 < (loadOf tablets node).toNat) : ∃ t ∈ tablets, t.nodeId = node ∧ 0 < t.keyCount := by
  by_contra hnone
  push Not at hnone
  have hzero : ∀ c ∈ (tablets.filter fun t => t.nodeId = node).map Tablet.keyCount, c = 0 := by
    intro c hc
    obtain ⟨t, ht, rfl⟩ := List.mem_map.mp hc
    obtain ⟨ht, hnode⟩ := List.mem_filter.mp ht
    exact UInt64.le_zero_iff.mp (UInt64.not_lt.mp (hnone t ht (by simpa using hnode)))
  have hsum : ∀ l : List UInt64, (∀ c ∈ l, c = 0) → l.sum = 0 := by
    intro l
    induction l with
    | nil => exact fun _ => rfl
    | cons c l ih =>
      intro hl
      rw [List.sum_cons, hl c List.mem_cons_self, ih fun d hd => hl d (List.mem_cons_of_mem c hd)]
      rfl
  rw [loadOf, hsum _ hzero] at h
  exact absurd h (lt_irrefl 0)

/-- The difference of the loads, as the code computes it. -/
theorem diff_lt_threshold {x y : UInt64} :
    (if y < x then x - y else 0) < BALANCE_DIFF_THRESHOLD ↔ x.toNat < y.toNat + 7 := by
  have hthreshold : BALANCE_DIFF_THRESHOLD.toNat = 7 := rfl
  rw [UInt64.lt_iff_toNat_lt, hthreshold]
  split_ifs with h
  · have hle := UInt64.le_of_lt h
    rw [UInt64.toNat_sub_of_le _ _ hle]
    rw [UInt64.le_iff_toNat_le] at hle
    omega
  · rw [UInt64.lt_iff_toNat_lt] at h
    have hzero : (0 : UInt64).toNat = 0 := rfl
    omega

/-- `DoLoadBalance` moves something exactly when the loads are not balanced, and then a target. -/
theorem balanceTarget_spec {tablets : List Tablet} (hne : tablets ≠ []) :
    (balanceTarget tablets = none ∧ Balanced tablets) ∨
      ∃ idx t dst, balanceTarget tablets = some (idx, dst) ∧ tablets[idx]? = some t ∧
        IsTarget tablets t dst := by
  have hload : (nodeLoad tablets).entries ≠ [] := by
    obtain ⟨t, l, rfl⟩ := List.exists_cons_of_ne_nil hne
    exact List.ne_nil_of_mem (mem_nodeLoad.mpr ⟨t, List.mem_cons_self, rfl⟩)
  obtain ⟨e, he, hmax, hmost⟩ := maxElement_spec hload
  obtain ⟨f, hf, hmin, hleast⟩ := minElement_spec hload
  obtain ⟨a, ha, rfl⟩ := mem_nodeLoad.mp he
  obtain ⟨b, hb, rfl⟩ := mem_nodeLoad.mp hf
  have hmost' : ∀ u ∈ tablets, loadOf tablets u.nodeId ≤ loadOf tablets a.nodeId :=
    fun u hu => hmost _ (mem_nodeLoad.mpr ⟨u, hu, rfl⟩)
  have hleast' : ∀ u ∈ tablets, loadOf tablets b.nodeId ≤ loadOf tablets u.nodeId :=
    fun u hu => hleast _ (mem_nodeLoad.mpr ⟨u, hu, rfl⟩)
  unfold balanceTarget
  simp only [hmax, hmin, Option.bind_eq_bind, Option.bind_some, diff_lt_threshold,
    UInt32.ofNat_toNat]
  by_cases hgap : (loadOf tablets a.nodeId).toNat < (loadOf tablets b.nodeId).toNat + 7
  · left
    refine ⟨?_, fun t ht u hu => ?_⟩
    · rw [if_pos hgap]
      split_ifs <;> rfl
    · have hta := UInt64.le_iff_toNat_le.mp (hmost' t ht)
      have hbu := UInt64.le_iff_toNat_le.mp (hleast' u hu)
      omega
  · right
    have hnodes : a.nodeId ≠ b.nodeId := fun heq => hgap (by rw [heq]; omega)
    -- two nodes own tablets, so there are two tablets and two loads
    have htwo : ∀ {α : Type} {l : List α} {x y : α}, x ∈ l → y ∈ l → x ≠ y → ¬l.length < 2 := by
      intro α l x y hx hy hxy hlt
      rcases l with _ | ⟨z, _ | ⟨w, l⟩⟩
      · exact List.not_mem_nil hx
      · exact hxy ((List.mem_singleton.mp hx).trans (List.mem_singleton.mp hy).symm)
      · rw [List.length_cons, List.length_cons] at hlt
        omega
    have htablets := htwo ha hb fun heq => hnodes (congrArg Tablet.nodeId heq)
    have hentries := htwo he hf fun heq => hnodes (UInt32.toNat_inj.mp (Prod.mk.inj heq).1)
    obtain ⟨count, hbest⟩ := bestTablet_targetTablet tablets a.nodeId
    have hapos : 0 < (loadOf tablets a.nodeId).toNat := by omega
    obtain ⟨v, hv, hva, hvpos⟩ := exists_pos_of_loadOf hapos
    rcases htarget : targetTablet tablets a.nodeId with _ | idx
    · have hle := hbest.le v hv hva
      rw [hbest.none htarget] at hle
      exact absurd hvpos (UInt64.not_lt.mpr hle)
    · obtain ⟨hpos, t, ht, hta, hcount⟩ := hbest.some idx htarget
      refine ⟨idx, t, b.nodeId, ?_, ht, ?_⟩
      · rw [if_neg htablets, if_neg hentries, if_neg hgap]
        rfl
      · exact
          { pos := hcount ▸ hpos
            largest := fun u hu hut => hcount ▸ hbest.le u hu (hut.trans hta)
            owns := ⟨b, hb, rfl⟩
            most := hta ▸ hmost'
            least := hleast'
            gap := by rw [hta]; omega }

/-! ## The result -/

/-- The most loaded DataNode has at least the threshold more than the least loaded one. -/
def Unbalanced (nodes : List UInt32) (tablets : List Tablet) : Prop :=
  ∃ a ∈ nodes, ∃ b ∈ nodes, (loadOf tablets b).toNat + 7 ≤ (loadOf tablets a).toNat

/-- On loads that are apart `DoLoadBalance` migrates a non-empty tablet of a most loaded DataNode to
a least loaded one, of all DataNodes. -/
def LeastLoadedChosen (nodes : List UInt32) (tablets : List Tablet) : Prop :=
  Unbalanced nodes tablets → ∃ idx t dst, balanceTarget tablets = some (idx, dst) ∧
    tablets[idx]? = some t ∧ 0 < t.keyCount ∧
    (∀ a ∈ nodes, loadOf tablets a ≤ loadOf tablets t.nodeId) ∧
    dst ∈ nodes ∧ ∀ b ∈ nodes, loadOf tablets dst ≤ loadOf tablets b

/-- A least loaded DataNode owns a tablet. -/
def LeastLoadedOwns (nodes : List UInt32) (tablets : List Tablet) : Prop :=
  ∃ t ∈ tablets, ∀ b ∈ nodes, loadOf tablets t.nodeId ≤ loadOf tablets b

/-- For any DataNodes and every reachable table, the least loaded of all DataNodes is chosen exactly
when one such DataNode already owns a tablet, or there is nothing to choose. -/
theorem leastLoaded_iff {peers : List PeerInfo} {m : Master} (h : Reachable peers m) :
    LeastLoadedChosen (dataNodes peers) m.tablets ↔
      (Unbalanced (dataNodes peers) m.tablets → LeastLoadedOwns (dataNodes peers) m.tablets) := by
  have hassigned := h.spec.2
  refine imp_congr_right fun ⟨a, ha, b, hb, hgap⟩ => ⟨?_, fun ⟨v, hv, hvleast⟩ => ?_⟩
  · rintro ⟨idx, t, dst, htarget, -, -, -, -, hdst⟩
    rcases balanceTarget_spec h.tiles.ne_nil with ⟨hnone, -⟩ | ⟨idx', t', dst', htarget', -, hchosen⟩
    · exact absurd (hnone.symm.trans htarget) (by simp)
    · obtain ⟨-, rfl⟩ := Prod.mk.inj (Option.some.inj (htarget'.symm.trans htarget))
      obtain ⟨u, hu, rfl⟩ := hchosen.owns
      exact ⟨u, hu, hdst⟩
  · -- the most loaded DataNode owns a tablet, for it has a load
    have hapos : 0 < (loadOf m.tablets a).toNat := by omega
    obtain ⟨w, hw, rfl, -⟩ := exists_pos_of_loadOf hapos
    have hvb := UInt64.le_iff_toNat_le.mp (hvleast b hb)
    rcases balanceTarget_spec h.tiles.ne_nil with ⟨-, hbalanced⟩ | ⟨idx, t, dst, htarget, ht, hchosen⟩
    · have hlt := hbalanced w hw v hv
      omega
    · refine ⟨idx, t, dst, htarget, ht, hchosen.pos, fun c hc => ?_, ?_, fun c hc => ?_⟩
      · by_cases hcpos : 0 < (loadOf m.tablets c).toNat
        · obtain ⟨u, hu, rfl, -⟩ := exists_pos_of_loadOf hcpos
          exact hchosen.most u hu
        · rw [UInt64.le_iff_toNat_le]
          omega
      · obtain ⟨u, hu, rfl⟩ := hchosen.owns
        exact hassigned u hu
      · exact UInt64.le_trans (hchosen.least v hv) (hvleast c hc)

/-- Three DataNodes on one host, and the Master. -/
def threeNodes : List PeerInfo := twoNodes ++ [⟨4, [0x31], 9004⟩]

/-- DataNodes that always answer with `counts` keys and no median. -/
def counting (peers : List PeerInfo) (counts : UInt32 → ℕ) : Environment Unit where
  isConnected node _ := decide (node ∈ dataNodes peers)
  send _ _ s := (true, s)
  recvFrame node _ s :=
    (some (encodeResponse 1 ST_OK (be 4 (counts node) ++ be 2 0)), s)
  openTmp s := (true, s)
  writeTmp _ s := s
  renameTmp s := (true, s)
  now s := (0, s)

/-- The members after the statistics of the two initial tablets. -/
def counted (peers : List PeerInfo) (counts : UInt32 → ℕ) : Master :=
  BalancerAction.after .sync (counting peers counts)
    { Master.init with tablets := [⟨1, [], [0x6D], 2, 0⟩, ⟨2, [0x6D], [], 3, 0⟩] } ()

theorem reachable_counted {peers : List PeerInfo} (hnodes : 2 ≤ (dataNodes peers).length)
    (hinit : buildInitialTablets peers = some [⟨1, [], [0x6D], 2, 0⟩, ⟨2, [0x6D], [], 3, 0⟩])
    (counts : UInt32 → ℕ) : Reachable peers (counted peers counts) :=
  (Reachable.init hnodes hinit).act (fun _ _ hconnected => of_decide_eq_true hconnected) () .sync

/-- Nine keys on the first of two DataNodes and none on the second: the second one is chosen. -/
theorem leastLoaded_two :
    balanceTarget (counted twoNodes fun node => if node = 2 then 9 else 0).tablets = some (0, 3) ∧
      LeastLoadedChosen (dataNodes twoNodes)
        (counted twoNodes fun node => if node = 2 then 9 else 0).tablets := by
  have hzero : loadOf (counted twoNodes fun node => if node = 2 then 9 else 0).tablets 3 = 0 := rfl
  refine ⟨by decide, (leastLoaded_iff (reachable_counted (by decide) (by decide) _)).mpr ?_⟩
  intro _
  refine ⟨⟨2, [0x6D], [], 3, 0⟩, List.mem_cons_of_mem _ (List.mem_singleton.mpr rfl), ?_⟩
  intro b _
  rw [hzero]
  exact UInt64.zero_le

/-- Two DataNodes with nine keys each and one without a tablet: nothing is moved. -/
theorem not_leastLoaded_third : ¬∀ (peers : List PeerInfo) (m : Master), Reachable peers m →
    LeastLoadedChosen (dataNodes peers) m.tablets := by
  intro hall
  have hgap : Unbalanced (dataNodes threeNodes) (counted threeNodes fun _ => 9).tablets :=
    ⟨2, by decide, 4, by decide, by decide⟩
  obtain ⟨idx, t, dst, htarget, -⟩ :=
    hall threeNodes _ (reachable_counted (by decide) (by decide) fun _ => 9) hgap
  have hnone : balanceTarget (counted threeNodes fun _ => 9).tablets = none := by decide
  exact absurd (hnone.symm.trans htarget) (by simp)

end LeKV
