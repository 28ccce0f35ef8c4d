import LeKV.Common
import LeKV.Lib.Search

/-!
# The routing table (`kv/raft_node.cpp`)

`findTabletIndex` and `getTabletRoute` are the Master's lookup, `buildInitialTablets` the table it
starts from. `Tiling` says what a usable table is; on such a table the lookup finds the one tablet
that contains the key (`getTabletRoute_eq_some`).
-/

namespace LeKV

open KeySpace

/-- The test of the binary search: tablet `mid` starts at or before `key`. -/
def startsBefore (tablets : List Tablet) (key : Bytes) (mid : ℕ) : Bool :=
  tablets[mid]?.any fun t => t.startKey ≤ key

/-- `RaftNode::FindTabletIndex`: the last tablet whose start key is at most `key`. -/
def findTabletIndex (tablets : List Tablet) (key : Bytes) : ℕ :=
  let left := Search.boundary (startsBefore tablets key) tablets.length 0 tablets.length
  if left = 0 then tablets.length else left - 1

/-- `RaftNode::GetTabletRoute`. -/
def getTabletRoute (tablets : List Tablet) (key : Bytes) : Option Tablet :=
  if tablets = [] then none
  else
    match tablets[findTabletIndex tablets key]? with
    | none => none
    | some t => if t.endKey ≠ [] ∧ t.endKey ≤ key then none else some t

/-- The ids of the DataNodes, narrowed to `uint32_t` as `BuildInitialTablets` stores them. -/
def dataNodes (peers : List PeerInfo) : List UInt32 :=
  (peers.filter fun p => p.port ≠ LEADER_PORT).map fun p => p.id.toUInt32

/-- `RaftNode::BuildInitialTablets`: two tablets on the first two DataNodes. Without DataNodes the
table stays empty; `none` is the read of `data_nodes[1]` where there is one DataNode only. -/
def buildInitialTablets (peers : List PeerInfo) : Option (List Tablet) :=
  match dataNodes peers with
  | [] => some []
  | [_] => none
  | a :: b :: _ => some [⟨1, [], [0x6D], a, 0⟩, ⟨2, [0x6D], [], b, 0⟩]

/-! ## Tables that tile the key space -/

/-- The table's intervals lie end to end over all keys. -/
def Tiles (tablets : List Tablet) : Prop := TilesFrom [] (tablets.map Tablet.interval)

/-- A usable routing table, in the words of its fields. -/
structure Tiling (tablets : List Tablet) : Prop where
  ne_nil : tablets ≠ []
  first_start : ∀ t ∈ tablets.head?, t.startKey = []
  starts_increase : tablets.Pairwise fun a b => a.startKey < b.startKey
  end_eq_next_start : ∀ n a b, tablets[n]? = some a → tablets[n + 1]? = some b →
    a.endKey = b.startKey
  end_eq_nil_iff : ∀ n a, tablets[n]? = some a → (a.endKey = [] ↔ n + 1 = tablets.length)

theorem Tiles.ne_nil {tablets : List Tablet} (h : Tiles tablets) : tablets ≠ [] := by
  rintro rfl
  exact h

theorem Tiles.starts_increase {tablets : List Tablet} (h : Tiles tablets) :
    tablets.Pairwise fun a b => a.startKey < b.startKey := by
  have hlo := TilesFrom.pairwise_lo h
  rw [List.pairwise_map] at hlo
  exact hlo

/-- The end of each tablet is the start of the next one, and infinity for the last one. -/
theorem Tiles.endBound_eq {tablets : List Tablet} (h : Tiles tablets) {n : ℕ} {t : Tablet}
    (hn : tablets[n]? = some t) : endBound t.endKey = (tablets[n + 1]?).map Tablet.startKey := by
  have hi := h.hi_eq (i := t.interval) (n := n) (by rw [List.getElem?_map, hn, Option.map_some])
  rw [List.getElem?_map, Option.map_map] at hi
  exact hi

/-- Tiling the key space means what the fields say. -/
theorem Tiles.tiling {tablets : List Tablet} (h : Tiles tablets) : Tiling tablets where
  ne_nil := h.ne_nil
  first_start := by
    rcases tablets with _ | ⟨t, l⟩
    · exact fun t ht => absurd ht (by simp)
    · rintro _ ⟨⟩
      exact h.lo_head
  starts_increase := h.starts_increase
  end_eq_next_start n a b ha hb := by
    have hend := h.endBound_eq ha
    rw [hb, Option.map_some] at hend
    exact eq_of_endBound_eq_some hend
  end_eq_nil_iff n a ha := by
    have hlt : n < tablets.length := (List.getElem?_eq_some_iff.mp ha).1
    rw [← endBound_eq_none, h.endBound_eq ha, Option.map_eq_none_iff, List.getElem?_eq_none_iff]
    omega

/-- The search finds a tablet of a usable table, and this tablet contains the key. -/
theorem Tiles.findTabletIndex_spec {tablets : List Tablet} (h : Tiles tablets) (key : Bytes) :
    ∃ t, tablets[findTabletIndex tablets key]? = some t ∧ t.Contains key := by
  obtain ⟨⟨-, hle⟩, hbefore, hat⟩ := Search.boundary_spec (startsBefore tablets key)
    (Nat.sub_le tablets.length 0) (Nat.zero_le _)
  unfold findTabletIndex
  generalize Search.boundary (startsBefore tablets key) tablets.length 0 tablets.length = left
    at hle hbefore hat ⊢
  have hpos : 0 < tablets.length := List.length_pos_iff.mpr h.ne_nil
  have hleft : left ≠ 0 := by
    rintro rfl
    rcases hat with heq | hfail
    · omega
    · obtain ⟨t, l, rfl⟩ := List.exists_cons_of_length_pos hpos
      have hstart : t.startKey = [] := h.lo_head
      simp [startsBefore, hstart, Bytes.nil_le] at hfail
  obtain ⟨t, ht⟩ : ∃ t, tablets[left - 1]? = some t :=
    ⟨_, List.getElem?_eq_getElem (by omega)⟩
  refine ⟨t, by simp only [if_neg hleft, ht], ?_, ?_⟩
  · rcases hbefore with heq | hprev
    · exact absurd heq hleft
    · rw [startsBefore, ht] at hprev
      simpa using hprev
  · have hend := h.endBound_eq ht
    rw [Nat.sub_add_cancel (Nat.one_le_iff_ne_zero.mpr hleft)] at hend
    rcases hnext : tablets[left]? with _ | u
    · rw [hnext, Option.map_none, endBound_eq_none] at hend
      exact Or.inl hend
    · rcases hat with heq | hfail
      · rw [heq, List.getElem?_eq_none le_rfl] at hnext
        exact absurd hnext (by simp)
      · rw [startsBefore, hnext] at hfail
        rw [hnext] at hend
        have hlt : key < u.startKey := by simpa using hfail
        exact Or.inr (eq_of_endBound_eq_some hend ▸ hlt)

/-- A key lies in one tablet of a usable table only. -/
theorem Tiles.contains_unique {tablets : List Tablet} (h : Tiles tablets) {key : Bytes} {m n : ℕ}
    {t u : Tablet} (hm : tablets[m]? = some t) (hn : tablets[n]? = some u)
    (ht : t.Contains key) (hu : u.Contains key) : m = n := by
  have hget : ∀ (i : ℕ) (w : Tablet), tablets[i]? = some w → w.Contains key →
      ∃ hi : i < (tablets.map Tablet.interval).length,
        ((tablets.map Tablet.interval).get ⟨i, hi⟩).Has key := by
    intro i w hi hw
    obtain ⟨hlt, rfl⟩ := List.getElem?_eq_some_iff.mp hi
    refine ⟨by rwa [List.length_map], ?_⟩
    rw [List.get_eq_getElem, List.getElem_map]
    exact Tablet.interval_has.mpr hw
  obtain ⟨hlm, hhas⟩ := hget m t hm ht
  obtain ⟨hln, hhas'⟩ := hget n u hn hu
  have huniq := (TilesFrom.existsUnique h (Bytes.nil_le key)).unique hhas hhas'
  exact congrArg Fin.val huniq

/-- On a usable table the lookup succeeds, with a tablet that contains the key. -/
theorem Tiles.getTabletRoute_isSome {tablets : List Tablet} (h : Tiles tablets) (key : Bytes) :
    ∃ t ∈ tablets, getTabletRoute tablets key = some t ∧ t.Contains key := by
  obtain ⟨t, hget, hcontains⟩ := h.findTabletIndex_spec key
  refine ⟨t, List.mem_of_getElem? hget, ?_, hcontains⟩
  have hend : ¬(t.endKey ≠ [] ∧ t.endKey ≤ key) := by
    rintro ⟨hne, hle⟩
    rcases hcontains.2 with hnil | hlt
    · exact hne hnil
    · exact hlt.not_ge hle
  rw [getTabletRoute, if_neg h.ne_nil, hget]
  exact if_neg hend

/-- The lookup returns a tablet exactly when this is the table's tablet that contains the key. -/
theorem Tiles.getTabletRoute_eq_some {tablets : List Tablet} (h : Tiles tablets) {key : Bytes}
    {t : Tablet} : getTabletRoute tablets key = some t ↔ t ∈ tablets ∧ t.Contains key := by
  obtain ⟨u, hmem, hroute, hcontains⟩ := h.getTabletRoute_isSome key
  constructor
  · intro heq
    obtain rfl : u = t := Option.some.inj (hroute.symm.trans heq)
    exact ⟨hmem, hcontains⟩
  · rintro ⟨hmem', hcontains'⟩
    obtain ⟨m, hm⟩ := List.mem_iff_getElem?.mp hmem
    obtain ⟨n, hn⟩ := List.mem_iff_getElem?.mp hmem'
    obtain rfl := h.contains_unique hm hn hcontains hcontains'
    obtain rfl : u = t := Option.some.inj (hm.symm.trans hn)
    exact hroute

/-- The first key of a tablet belongs to it. -/
theorem Tiles.contains_startKey {tablets : List Tablet} (h : Tiles tablets) {t : Tablet}
    (ht : t ∈ tablets) : t.Contains t.startKey := by
  obtain ⟨n, hn⟩ := List.mem_iff_getElem?.mp ht
  refine ⟨le_rfl, or_iff_not_imp_left.mpr fun hne => ?_⟩
  have hlt : n < tablets.length := (List.getElem?_eq_some_iff.mp hn).1
  have hlast : n + 1 ≠ tablets.length := mt (h.tiling.end_eq_nil_iff n t hn).mpr hne
  have hnext := List.getElem?_eq_getElem (by omega : n + 1 < tablets.length)
  rw [h.tiling.end_eq_next_start n _ _ hn hnext]
  have hincrease := List.pairwise_iff_getElem.mp h.starts_increase n (n + 1) hlt (by omega)
    (Nat.lt_succ_self n)
  rwa [(List.getElem?_eq_some_iff.mp hn).2] at hincrease

/-! ## What the Master does to a table -/

/-- The initial table of at least two DataNodes is usable. -/
theorem tiles_initial (a b : UInt32) :
    Tiles [⟨1, [], [0x6D], a, 0⟩, ⟨2, [0x6D], [], b, 0⟩] :=
  ⟨rfl, rfl, List.nil_lt_cons _ _, rfl, rfl⟩

/-- Changing one element of a list does not show where `g` does not see the change. -/
theorem map_modify_eq {α β : Type*} {f : α → α} {g : α → β} (h : ∀ a, g (f a) = g a) (l : List α)
    (i : ℕ) : (l.modify i f).map g = l.map g := by
  induction l generalizing i with
  | nil => rw [List.modify_nil]
  | cons a l ih =>
    cases i with
    | zero => rw [List.modify_zero_cons, List.map_cons, List.map_cons, h]
    | succ i => rw [List.modify_succ_cons, List.map_cons, List.map_cons, ih]

/-- Changing a tablet but not its keys leaves the table usable. -/
theorem Tiles.modify {tablets : List Tablet} (h : Tiles tablets) (idx : ℕ) {f : Tablet → Tablet}
    (hf : ∀ t, (f t).interval = t.interval) : Tiles (tablets.modify idx f) := by
  rw [Tiles, map_modify_eq hf]
  exact h

/-- A list around one of its elements. -/
theorem exists_append_of_getElem? {α : Type*} {l : List α} {i : ℕ} {a : α} (h : l[i]? = some a) :
    ∃ l₁ l₂, l = l₁ ++ a :: l₂ ∧ l₁.length = i := by
  obtain ⟨hlt, rfl⟩ := List.getElem?_eq_some_iff.mp h
  refine ⟨l.take i, l.drop (i + 1), ?_, List.length_take_of_le hlt.le⟩
  rw [← List.drop_eq_getElem_cons hlt, List.take_append_drop]

/-- Replacing one element of a list by two, as `TrySplitTablet` does it. -/
theorem set_insertIdx_append {α : Type*} (l₁ l₂ : List α) (a b c : α) :
    ((l₁ ++ a :: l₂).set l₁.length b).insertIdx (l₁.length + 1) c = l₁ ++ b :: c :: l₂ := by
  induction l₁ with
  | nil => rfl
  | cons d l₁ ih =>
    simp only [List.cons_append, List.length_cons, List.set_cons_succ, List.insertIdx_succ_cons, ih]

/-- Cutting a tablet in two at a key inside it leaves the table usable. -/
theorem Tiles.split {tablets : List Tablet} (h : Tiles tablets) {idx : ℕ} {t left right : Tablet}
    {median : Bytes} (hidx : tablets[idx]? = some t) (hlo : t.startKey < median)
    (hhi : t.endKey = [] ∨ median < t.endKey)
    (hleft : left.startKey = t.startKey ∧ left.endKey = median)
    (hright : right.startKey = median ∧ right.endKey = t.endKey) :
    Tiles ((tablets.set idx left).insertIdx (idx + 1) right) := by
  obtain ⟨l₁, l₂, rfl, rfl⟩ := exists_append_of_getElem? hidx
  rw [set_insertIdx_append]
  rw [Tiles, List.map_append, List.map_cons] at h ⊢
  have hcut : ∀ b ∈ t.interval.hi, median < b := by
    intro b hb
    rcases hhi with hnil | hlt
    · simp [Tablet.interval, hnil] at hb
    · simp only [Tablet.interval, endBound_of_lt hlt, Option.mem_some] at hb
      exact hb ▸ hlt
  have hli : left.interval = ⟨t.interval.lo, some median⟩ := by
    simp only [Tablet.interval, hleft, endBound_of_lt hlo]
  have hri : right.interval = ⟨median, t.interval.hi⟩ := by
    simp only [Tablet.interval, hright]
  rw [List.map_cons, hli, hri]
  exact h.split hlo hcut

end LeKV
