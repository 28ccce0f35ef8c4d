import LeKV.Kv.Tiling
import LeKV.Kv.MigrationSafety

/-!
# Which node owns a key

A routing table that tiles the key space gives every key one owner. Statistics and splits change no
owner; a migration changes the owner of the keys of one tablet. `Short` boundaries are those a
request can carry.
-/

namespace LeKV

open Bytes

/-- The table assigns `key` to `node`. -/
def Owner (tablets : List Tablet) (key : Bytes) (node : UInt32) : Prop :=
  ∃ t ∈ tablets, t.Contains key ∧ t.nodeId = node

/-- A boundary that fits a two-byte length. -/
def Short (key : Bytes) : Prop := key.length < 2 ^ 16

section Tiles

variable {tablets : List Tablet} {key : Bytes} {a b : UInt32}

/-- A tablet that contains the key is the one the lookup returns. -/
theorem Tiles.eq_of_contains (h : Tiles tablets) {t u : Tablet} (ht : t ∈ tablets) (hu : u ∈ tablets)
    (hkt : t.Contains key) (hku : u.Contains key) : t = u := by
  have hroute := h.getTabletRoute_eq_some.mpr ⟨ht, hkt⟩
  have hroute' := h.getTabletRoute_eq_some.mpr ⟨hu, hku⟩
  exact Option.some.inj (hroute.symm.trans hroute')

theorem Tiles.owner_unique (h : Tiles tablets) (ha : Owner tablets key a) (hb : Owner tablets key b) :
    a = b := by
  obtain ⟨t, ht, hkt, rfl⟩ := ha
  obtain ⟨u, hu, hku, rfl⟩ := hb
  rw [h.eq_of_contains ht hu hkt hku]

/-- The lookup returns a tablet on the owner. -/
theorem Tiles.route_owner (h : Tiles tablets) (key : Bytes) :
    ∃ t, getTabletRoute tablets key = some t ∧ Owner tablets key t.nodeId := by
  obtain ⟨t, ht, hroute, hkt⟩ := h.getTabletRoute_isSome key
  exact ⟨t, hroute, t, ht, hkt, rfl⟩

end Tiles

/-! ## Changes of the table -/

/-- Key counts do not matter. -/
theorem owner_of_assignment_eq {ts tablets : List Tablet} (h : assignment ts = assignment tablets)
    {key : Bytes} {node : UInt32} : Owner ts key node ↔ Owner tablets key node := by
  have himp : ∀ {ts tablets : List Tablet}, assignment ts = assignment tablets →
      Owner ts key node → Owner tablets key node := by
    rintro ts tablets h ⟨t, ht, hk, hn⟩
    have hmem : { t with keyCount := 0 } ∈ assignment tablets := h ▸ List.mem_map_of_mem ht
    obtain ⟨u, hu, hut⟩ := List.mem_map.mp hmem
    obtain ⟨-, hstart, hend, hnode, -⟩ := Tablet.mk.inj hut
    refine ⟨u, hu, ?_, hnode.trans hn⟩
    unfold Tablet.Contains at hk ⊢
    rwa [hstart, hend]
  exact ⟨himp h, himp h.symm⟩

section Split

variable {m : Master} {idx : ℕ} {old : Tablet} {median : Bytes} (keyCount : UInt64)

/-- The halves of a tablet that is split. -/
def Master.leftHalf (m : Master) (old : Tablet) (keyCount : UInt64) (median : Bytes) : Tablet :=
  { old with id := m.nextTabletId, endKey := median, keyCount := keyCount / 2 }

def Master.rightHalf (m : Master) (old : Tablet) (keyCount : UInt64) (median : Bytes) : Tablet :=
  { old with id := m.nextTabletId + 1, startKey := median, keyCount := keyCount - keyCount / 2 }

/-- The table after a split, around its halves. -/
theorem tablets_splitAt {l₁ l₂ : List Tablet} (htablets : m.tablets = l₁ ++ old :: l₂)
    (median : Bytes) : (m.splitAt l₁.length old keyCount median).tablets
      = l₁ ++ m.leftHalf old keyCount median :: m.rightHalf old keyCount median :: l₂ := by
  show ((m.tablets.set _ _).insertIdx _ _) = _
  rw [htablets, set_insertIdx_append]
  rfl

/-- A split replaces a tablet by its halves. -/
theorem mem_splitAt (median : Bytes) (hidx : m.tablets[idx]? = some old) :
    ∃ rest : List Tablet, (∀ t, t ∈ m.tablets ↔ t = old ∨ t ∈ rest) ∧
      ∀ t, t ∈ (m.splitAt idx old keyCount median).tablets ↔
        t = m.leftHalf old keyCount median ∨ t = m.rightHalf old keyCount median ∨ t ∈ rest := by
  obtain ⟨l₁, l₂, htablets, rfl⟩ := exists_append_of_getElem? hidx
  refine ⟨l₁ ++ l₂, fun t => ?_, fun t => ?_⟩
  · rw [htablets, List.mem_append, List.mem_cons, List.mem_append]
    tauto
  · rw [tablets_splitAt keyCount htablets, List.mem_append, List.mem_cons, List.mem_cons,
      List.mem_append]
    tauto

/-- A key of the old tablet is a key of one of its halves. -/
theorem contains_halves (hpoint : SplitPoint old median) (key : Bytes) :
    old.Contains key ↔ (m.leftHalf old keyCount median).Contains key ∨
      (m.rightHalf old keyCount median).Contains key := by
  have hne : median ≠ [] := Bytes.ne_nil_of_lt hpoint.start_lt
  simp only [Tablet.Contains, Master.leftHalf, Master.rightHalf, hne, false_or]
  constructor
  · rintro ⟨hlo, hhi⟩
    rcases lt_or_ge key median with hlt | hge
    · exact .inl ⟨hlo, hlt⟩
    · exact .inr ⟨hge, hhi⟩
  · rintro (⟨hlo, hlt⟩ | ⟨hge, hhi⟩)
    · exact ⟨hlo, hpoint.lt_end.imp_right hlt.trans⟩
    · exact ⟨hpoint.start_lt.le.trans hge, hhi⟩

/-- A split changes no owner. -/
theorem owner_splitAt (hidx : m.tablets[idx]? = some old) (hpoint : SplitPoint old median)
    {key : Bytes} {node : UInt32} :
    Owner (m.splitAt idx old keyCount median).tablets key node ↔ Owner m.tablets key node := by
  obtain ⟨rest, hold, hnew⟩ := mem_splitAt keyCount median hidx
  have hhalves := contains_halves (m := m) keyCount hpoint key
  constructor
  · rintro ⟨t, ht, hk, hn⟩
    rcases (hnew t).mp ht with rfl | rfl | ht
    · exact ⟨old, (hold old).mpr (.inl rfl), hhalves.mpr (.inl hk), hn⟩
    · exact ⟨old, (hold old).mpr (.inl rfl), hhalves.mpr (.inr hk), hn⟩
    · exact ⟨t, (hold t).mpr (.inr ht), hk, hn⟩
  · rintro ⟨t, ht, hk, hn⟩
    rcases (hold t).mp ht with rfl | ht
    · rcases hhalves.mp hk with hk | hk
      · exact ⟨_, (hnew _).mpr (.inl rfl), hk, hn⟩
      · exact ⟨_, (hnew _).mpr (.inr (.inl rfl)), hk, hn⟩
    · exact ⟨t, (hnew t).mpr (.inr (.inr ht)), hk, hn⟩

/-- A split brings its median in as a boundary, and no other key. -/
theorem boundaries_splitAt {P : Bytes → Prop} (hidx : m.tablets[idx]? = some old) (hmedian : P median)
    (h : Boundaries P m.tablets) : Boundaries P (m.splitAt idx old keyCount median).tablets := by
  obtain ⟨rest, hold, hnew⟩ := mem_splitAt keyCount median hidx
  obtain ⟨hstart, hend⟩ := h old ((hold old).mpr (.inl rfl))
  intro t ht
  rcases (hnew t).mp ht with rfl | rfl | ht
  · exact ⟨hstart, hmedian⟩
  · exact ⟨hmedian, hend⟩
  · exact h t ((hold t).mpr (.inr ht))

/-- A split at a median that fits keeps the boundaries short. -/
theorem short_splitAt (hidx : m.tablets[idx]? = some old) (hpoint : SplitPoint old median)
    (h : Boundaries Short m.tablets) :
    Boundaries Short (m.splitAt idx old keyCount median).tablets :=
  boundaries_splitAt keyCount hidx hpoint.length_lt h

end Split

/-- Changing one element of a list, seen from its place. -/
theorem modify_append {α : Type*} (l₁ l₂ : List α) (a : α) (f : α → α) :
    (l₁ ++ a :: l₂).modify l₁.length f = l₁ ++ f a :: l₂ := by
  induction l₁ with
  | nil => rfl
  | cons b l₁ ih => rw [List.cons_append, List.length_cons, List.modify_succ_cons, ih, List.cons_append]

section Move

variable {m : Master} {idx : ℕ} {t : Tablet} {dst : UInt32}

/-- The tablets after a move. -/
theorem mem_moveTo (dst : UInt32) (hidx : m.tablets[idx]? = some t) :
    ∃ rest : List Tablet, (∀ u, u ∈ m.tablets ↔ u = t ∨ u ∈ rest) ∧
      ∀ u, u ∈ (m.moveTo idx dst).tablets ↔ u = { t with nodeId := dst } ∨ u ∈ rest := by
  obtain ⟨l₁, l₂, htablets, rfl⟩ := exists_append_of_getElem? hidx
  have hmodify : (m.moveTo l₁.length dst).tablets = l₁ ++ { t with nodeId := dst } :: l₂ := by
    rw [Master.moveTo, htablets]
    exact modify_append _ _ _ _
  refine ⟨l₁ ++ l₂, fun u => ?_, fun u => ?_⟩
  · rw [htablets, List.mem_append, List.mem_cons, List.mem_append]
    tauto
  · rw [hmodify, List.mem_append, List.mem_cons, List.mem_append]
    tauto

theorem Tiles.moveTo (h : Tiles m.tablets) : Tiles (m.moveTo idx dst).tablets :=
  h.modify idx fun _ => rfl

/-- A move gives the keys of the tablet to the destination and changes no other owner. -/
theorem owner_moveTo (h : Tiles m.tablets) (hidx : m.tablets[idx]? = some t) {key : Bytes}
    {node : UInt32} :
    Owner (m.moveTo idx dst).tablets key node ↔
      if t.Contains key then node = dst else Owner m.tablets key node := by
  obtain ⟨rest, hold, hnew⟩ := mem_moveTo dst hidx
  have hmoved : Tablet.Contains { t with nodeId := dst } key ↔ t.Contains key := Iff.rfl
  split_ifs with hk
  · constructor
    · intro howner
      exact (h.moveTo : Tiles (m.moveTo idx dst).tablets).owner_unique howner
        ⟨_, (hnew _).mpr (.inl rfl), hmoved.mpr hk, rfl⟩
    · rintro rfl
      exact ⟨_, (hnew _).mpr (.inl rfl), hmoved.mpr hk, rfl⟩
  · constructor
    · rintro ⟨u, hu, hku, hn⟩
      rcases (hnew u).mp hu with rfl | hu
      · exact absurd (hmoved.mp hku) hk
      · exact ⟨u, (hold u).mpr (.inr hu), hku, hn⟩
    · rintro ⟨u, hu, hku, hn⟩
      rcases (hold u).mp hu with rfl | hu
      · exact absurd hku hk
      · exact ⟨u, (hnew u).mpr (.inr hu), hku, hn⟩

/-- A move leaves the boundaries as they are. -/
theorem boundaries_moveTo {P : Bytes → Prop} (hidx : m.tablets[idx]? = some t)
    (h : Boundaries P m.tablets) : Boundaries P (m.moveTo idx dst).tablets := by
  obtain ⟨rest, hold, hnew⟩ := mem_moveTo dst hidx
  intro u hu
  rcases (hnew u).mp hu with rfl | hu
  · exact h t ((hold t).mpr (.inl rfl))
  · exact h u ((hold u).mpr (.inr hu))

/-- So they stay short. -/
theorem short_moveTo (hidx : m.tablets[idx]? = some t) (h : Boundaries Short m.tablets) :
    Boundaries Short (m.moveTo idx dst).tablets := boundaries_moveTo hidx h

end Move

end LeKV
