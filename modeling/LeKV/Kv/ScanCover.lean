import LeKV.Kv.Routing
import LeKV.Lib.RangeCover
import LeKV.Storage.StorageEngine

/-!
# Routing and range scans

A key belongs to a tablet for the lookup of the Master and for the range scan of a DataNode alike:
on a usable table the scans of the tablets, one after the other, are the whole store, and each key is
found by the scan of the tablet to which it is routed.
-/

namespace LeKV

open KeySpace

/-- A table that is usable in the words of its fields tiles the key space. -/
theorem Tiling.tiles {tablets : List Tablet} (h : Tiling tablets) : Tiles tablets := by
  -- along the table, from the start key of its first tablet on
  have hfrom : ∀ (l : List Tablet) (a : Bytes), l ≠ [] → (∀ t ∈ l.head?, t.startKey = a) →
      (l.Pairwise fun a b => a.startKey < b.startKey) →
      (∀ n a b, l[n]? = some a → l[n + 1]? = some b → a.endKey = b.startKey) →
      (∀ n a, l[n]? = some a → (a.endKey = [] ↔ n + 1 = l.length)) →
      TilesFrom a (l.map Tablet.interval) := by
    intro l
    induction l with
    | nil => exact fun a hne => absurd rfl hne
    | cons t l ih =>
      intro a _ hstart hinc hnext hlast
      rcases l with _ | ⟨u, l⟩
      · exact ⟨hstart t rfl, endBound_eq_none.mpr ((hlast 0 t rfl).mpr rfl)⟩
      · obtain ⟨hhead, htail⟩ := List.pairwise_cons.mp hinc
        have hlt : t.startKey < u.startKey := hhead u List.mem_cons_self
        have hend : t.endKey = u.startKey := hnext 0 t u rfl rfl
        have hrest : TilesFrom u.startKey ((u :: l).map Tablet.interval) := by
          refine ih u.startKey (List.cons_ne_nil u l) ?_ htail
            (fun n b c hb hc => hnext (n + 1) b c hb hc) fun n b hb => ?_
          · rintro v ⟨⟩
            rfl
          · rw [hlast (n + 1) b hb]
            exact Nat.add_right_cancel_iff
        refine ⟨hstart t rfl, ?_, hstart t rfl ▸ hlt, hrest⟩
        show endBound t.endKey = some u.startKey
        rw [hend]
        exact endBound_of_lt hlt
  exact hfrom tablets [] h.ne_nil h.first_start h.starts_increase h.end_eq_next_start
    h.end_eq_nil_iff

/-- The scan of a tablet visits the stored keys that it contains. -/
theorem Tablet.mem_rangeQuery {t : Tablet} {st : StorageEngine} {e : Bytes × Bytes} :
    e ∈ st.rangeQuery t.startKey t.endKey ↔ e ∈ st.db.entries ∧ t.Contains e.1 := by
  rw [StorageEngine.mem_rangeQuery, SortedMap.find?_eq_some]
  exact Iff.rfl

theorem Tiles.flatten_rangeQuery {tablets : List Tablet} (h : Tiles tablets) (st : StorageEngine) :
    (tablets.map fun t => st.rangeQuery t.startKey t.endKey).flatten = st.db.entries := by
  have hflat := h.flatten_range st.db
  rw [List.map_map] at hflat
  refine hflat.trans (List.filter_eq_self.mpr fun e _ => ?_)
  exact decide_eq_true (Bytes.nil_le e.1)

/-- On every usable table and every store, the scans of the tablets in table order are the store in
order; each stored key is visited by one of them only, that of the tablet the lookup returns. -/
theorem scans_cover {tablets : List Tablet} (h : Tiling tablets) (st : StorageEngine) :
    (tablets.map fun t => st.rangeQuery t.startKey t.endKey).flatten = st.db.entries ∧
      ∀ e ∈ st.db.entries, ∃ (n : ℕ) (t : Tablet), tablets[n]? = some t ∧
        e ∈ st.rangeQuery t.startKey t.endKey ∧ getTabletRoute tablets e.1 = some t ∧
        ∀ (n' : ℕ) (t' : Tablet), tablets[n']? = some t' →
          e ∈ st.rangeQuery t'.startKey t'.endKey → n' = n := by
  have htiles := h.tiles
  refine ⟨htiles.flatten_rangeQuery st, fun e he => ?_⟩
  obtain ⟨t, ht, hroute, hcontains⟩ := htiles.getTabletRoute_isSome e.1
  obtain ⟨n, hn⟩ := List.mem_iff_getElem?.mp ht
  refine ⟨n, t, hn, Tablet.mem_rangeQuery.mpr ⟨he, hcontains⟩, hroute, fun n' t' hn' he' => ?_⟩
  exact htiles.contains_unique hn' hn (Tablet.mem_rangeQuery.mp he').2 hcontains

/-- Two keys on both sides of the boundary `m` of the initial table. -/
theorem scans_cover_initial :
    let st : StorageEngine := ⟨(SortedMap.empty.insert [0x6D] [0x32]).insert [0x6C] [0x31], []⟩
    let tablets : List Tablet := [⟨1, [], [0x6D], 2, 0⟩, ⟨2, [0x6D], [], 3, 0⟩]
    (tablets.map fun t => st.rangeQuery t.startKey t.endKey).flatten
        = [([0x6C], [0x31]), ([0x6D], [0x32])] ∧
      (tablets.map fun t => st.rangeQuery t.startKey t.endKey)
        = [[([0x6C], [0x31])], [([0x6D], [0x32])]] := by
  intro st tablets
  exact ⟨(scans_cover (tiles_initial 2 3).tiling st).1, by decide⟩

end LeKV
