import LeKV.Kv.Healthy
import LeKV.Kv.RangeRequests
import LeKV.Kv.Visits

/-!
# The count a split is decided on

`TrySplitTablet` queries the statistics again, but checks the key count of the table twice. The
count it queried decides the key counts of the halves only.
-/

namespace LeKV

open Bytes BinaryProtocol Effects Balancer

/-- The members that routing depends on are the same. -/
structure SameRouting (m m' : Master) : Prop where
  tablets : m'.tablets = m.tablets
  nextTabletId : m'.nextTabletId = m.nextTabletId
  epoch : m'.epoch = m.epoch

/-- The tablets at `idx` and `idx + 1` have enough keys for one tablet that is split, and both have
some. -/
def FullHalves (m : Master) (idx : ℕ) : Prop :=
  ∃ left right, m.tablets[idx]? = some left ∧ m.tablets[idx + 1]? = some right ∧
    SPLIT_THRESHOLD.toNat ≤ left.keyCount.toNat + right.keyCount.toNat ∧
    left.keyCount ≠ 0 ∧ right.keyCount ≠ 0

namespace Environment

variable {σ : Type} (E : Environment σ) (m : Master) (s : σ) (idx : ℕ)

/-- What the statistics query of `TrySplitTablet` reports, if it is answered. -/
def freshStats : Option (UInt64 × Bytes) :=
  m.tablets[idx]?.bind fun t =>
    (E.run (queryTabletStats t.nodeId t.startKey t.endKey) (m, s)).1.join

/-- `TrySplitTablet` changes the table only on a reported count of `SPLIT_THRESHOLD` keys or more,
into two tablets that have these keys. -/
def SplitsOnFresh : Prop :=
  let m' := (E.run (trySplitTablet idx) (m, s)).2.1
  SameRouting m m' ∨
    (∃ keyCount median, E.freshStats m s idx = some (keyCount, median) ∧ SPLIT_THRESHOLD ≤ keyCount) ∧
      FullHalves m' idx

/-- The table has enough keys for a split and the DataNode reports fewer, with a median that is
strictly inside the tablet. -/
def StaleSplit : Prop :=
  ∃ t keyCount median, m.tablets[idx]? = some t ∧ SPLIT_THRESHOLD ≤ t.keyCount ∧
    E.freshStats m s idx = some (keyCount, median) ∧ keyCount < SPLIT_THRESHOLD ∧
    SplitPoint t median

variable {E m s idx}

theorem freshStats_eq {t : Tablet} {r : Option (UInt64 × Bytes)} {s' : σ}
    (hidx : m.tablets[idx]? = some t)
    (hquery : E.run (queryTabletStats t.nodeId t.startKey t.endKey) (m, s) = (some r, (m, s'))) :
    E.freshStats m s idx = r := by
  rw [freshStats, hidx, Option.bind_some, hquery]
  rfl

end Environment

/-! ## The halves -/

/-- The two halves stand where the tablet was. -/
theorem getElem?_splitAt {m : Master} {idx : ℕ} {t : Tablet} (keyCount : UInt64) (median : Bytes)
    (hidx : m.tablets[idx]? = some t) :
    (m.splitAt idx t keyCount median).tablets[idx]? = some (m.leftHalf t keyCount median) ∧
      (m.splitAt idx t keyCount median).tablets[idx + 1]? = some (m.rightHalf t keyCount median) := by
  obtain ⟨l₁, l₂, htablets, rfl⟩ := exists_append_of_getElem? hidx
  rw [tablets_splitAt keyCount htablets]
  constructor
  · rw [List.getElem?_append_right le_rfl, Nat.sub_self]
    rfl
  · rw [List.getElem?_append_right (Nat.le_add_right _ 1), Nat.add_sub_cancel_left]
    rfl

/-- A split is never invisible in the table. -/
theorem not_sameRouting_splitAt (m : Master) (idx : ℕ) (t : Tablet) (keyCount : UInt64)
    (median : Bytes) : ¬SameRouting m (m.splitAt idx t keyCount median) := by
  intro h
  have hepoch : m.epoch + 1 = m.epoch := h.epoch
  simp at hepoch

/-- The halves have the keys that were counted for them. -/
theorem fullHalves_splitAt {m : Master} {idx : ℕ} {t : Tablet} {keyCount : UInt64} {median : Bytes}
    (hidx : m.tablets[idx]? = some t) :
    FullHalves (m.splitAt idx t keyCount median) idx ↔ SPLIT_THRESHOLD ≤ keyCount := by
  obtain ⟨hleft, hright⟩ := getElem?_splitAt keyCount median hidx
  obtain ⟨hhalf, hrest⟩ := toNat_half keyCount
  have hsix : SPLIT_THRESHOLD.toNat = 6 := rfl
  rw [UInt64.le_iff_toNat_le, hsix]
  constructor
  · rintro ⟨left, right, hl, hr, hsum, -, -⟩
    obtain rfl := Option.some.inj (hleft.symm.trans hl)
    obtain rfl := Option.some.inj (hright.symm.trans hr)
    simp only [Master.leftHalf, Master.rightHalf, hhalf, hrest, hsix] at hsum
    omega
  · intro hbig
    refine ⟨_, _, hleft, hright, ?_, ?_, ?_⟩
    · simp only [Master.leftHalf, Master.rightHalf, hhalf, hrest, hsix]
      omega
    · intro hzero
      have hnat := congrArg UInt64.toNat hzero
      rw [Master.leftHalf, hhalf] at hnat
      change _ = 0 at hnat
      omega
    · intro hzero
      have hnat := congrArg UInt64.toNat hzero
      rw [Master.rightHalf, hrest] at hnat
      change _ = 0 at hnat
      omega

/-! ## Stale counts -/

section Stale

variable {σ : Type} {E : Environment σ} {m : Master} {s : σ} {idx : ℕ}

/-- In any environment a split is decided on the count just reported, except where the table still
has the keys for a split that the DataNode does not report. -/
theorem Environment.splitsOnFresh_iff_not_stale :
    E.SplitsOnFresh m s idx ↔ ¬E.StaleSplit m s idx := by
  by_cases hsmall : ∀ t, m.tablets[idx]? = some t → t.keyCount < SPLIT_THRESHOLD
  · -- the table's own count is small, so the DataNode is not asked
    refine iff_of_true (.inl ?_) ?_
    · rw [Environment.run_trySplitTablet_of_small hsmall]
      exact ⟨rfl, rfl, rfl⟩
    · rintro ⟨t, -, -, hidx, hbig, -⟩
      exact UInt64.not_lt.mpr hbig (hsmall t hidx)
  push Not at hsmall
  obtain ⟨t, hidx, hbig⟩ := hsmall
  obtain ⟨r, s', hquery, -⟩ := Environment.run_of_uses
    (queryTabletStats_uses t.nodeId t.startKey t.endKey) (keepsRpc_true E) m (s := s) trivial
  have hfresh := Environment.freshStats_eq hidx hquery
  rcases r with _ | ⟨keyCount, median⟩
  · refine iff_of_true (.inl ?_) ?_
    · rw [Environment.run_trySplitTablet_none hidx hbig hquery]
      exact ⟨rfl, rfl, rfl⟩
    · rintro ⟨_, _, _, _, _, hstats, _⟩
      exact absurd (hfresh.symm.trans hstats) (by simp)
  by_cases hpoint : SplitPoint t median
  · obtain ⟨r, s'', -, -, hrun⟩ := Environment.run_trySplitTablet_point hidx hbig hquery
      (keepsFiles_true E) trivial hpoint
    have hsplits : E.SplitsOnFresh m s idx ↔ SPLIT_THRESHOLD ≤ keyCount := by
      -- the split is made for its median alone; the count that came with it is not compared
      unfold Environment.SplitsOnFresh
      rw [hrun, hfresh, or_iff_right (not_sameRouting_splitAt m idx t keyCount median),
        fullHalves_splitAt hidx]
      refine ⟨And.right, fun hle => ⟨⟨keyCount, median, rfl, hle⟩, hle⟩⟩
    rw [hsplits, ← UInt64.not_lt]
    refine not_congr ⟨fun hlt => ⟨t, keyCount, median, hidx, UInt64.not_lt.mp hbig, hfresh, hlt,
      hpoint⟩, ?_⟩
    rintro ⟨_, keyCount', median', _, _, hstats, hlt, _⟩
    obtain ⟨rfl, rfl⟩ := Prod.mk.inj (Option.some.inj (hfresh.symm.trans hstats))
    exact hlt
  · refine iff_of_true (.inl ?_) ?_
    · rw [Environment.run_trySplitTablet_refused hidx hbig hquery hpoint]
      exact ⟨rfl, rfl, rfl⟩
    · rintro ⟨t', keyCount', median', hidx', -, hstats, -, hpoint'⟩
      obtain rfl := Option.some.inj (hidx.symm.trans hidx')
      obtain ⟨rfl, rfl⟩ := Prod.mk.inj (Option.some.inj (hfresh.symm.trans hstats))
      exact hpoint hpoint'

/-- What a DataNode reports is stale where it has some, but too few keys of a tablet whose count in
the table is large enough. One key at the start of the tablet is no median. -/
theorem Environment.staleSplit_answered {t : Tablet} {n : DataNode} (hidx : m.tablets[idx]? = some t)
    (hbounded : t.Bounded) (hkeys : ∀ k, n.lookup k ≠ none → Short k)
    (hcount : (n.keysIn t).length < 2 ^ 32)
    (h : E.Answers s ⟨t.nodeId, 1, rangePayload OP_TABLET_STATS t.startKey t.endKey⟩ 3000 n) :
    E.StaleSplit m s idx ↔ SPLIT_THRESHOLD ≤ t.keyCount ∧
      (n.keysIn t).length < SPLIT_THRESHOLD.toNat ∧ n.keysIn t ≠ [] ∧ n.keysIn t ≠ [t.startKey] := by
  obtain ⟨s', hquery⟩ := run_queryTabletStats_answered m hbounded hkeys h
  rw [DataNode.reported_eq hcount] at hquery
  have hfresh := Environment.freshStats_eq hidx hquery
  have hpoint := DataNode.splitPoint_medianIn (DataNode.length_medianIn hkeys t)
  have hlt : UInt64.ofNat (n.keysIn t).length < SPLIT_THRESHOLD
      ↔ (n.keysIn t).length < SPLIT_THRESHOLD.toNat := by
    rw [UInt64.lt_iff_toNat_lt, UInt64.toNat_ofNat_of_lt' (hcount.trans (by norm_num))]
  constructor
  · rintro ⟨t', keyCount, median, hidx', hbig, hstats, hfew, hinside⟩
    obtain rfl := Option.some.inj (hidx.symm.trans hidx')
    obtain ⟨rfl, rfl⟩ := Prod.mk.inj (Option.some.inj (hfresh.symm.trans hstats))
    exact ⟨hbig, hlt.mp hfew, hpoint.mp hinside⟩
  · rintro ⟨hbig, hfew, hinside⟩
    exact ⟨t, _, _, hidx, hbig, hfresh, hlt.mpr hfew, hpoint.mpr hinside⟩

/-- In any environment `TrySplitTablet` decides on the count just reported, except where the table
still has the keys for a split that the DataNode does not report. Where the DataNode answers, that is
where it stores some, but too few keys of the tablet. -/
theorem splitsOnFresh_iff (E : Environment σ) (m : Master) (s : σ) (idx : ℕ) :
    (E.SplitsOnFresh m s idx ↔ ¬E.StaleSplit m s idx) ∧
      ∀ (t : Tablet) (n : DataNode), m.tablets[idx]? = some t → t.Bounded →
        (∀ k, n.lookup k ≠ none → Short k) → (n.keysIn t).length < 2 ^ 32 →
        E.Answers s ⟨t.nodeId, 1, rangePayload OP_TABLET_STATS t.startKey t.endKey⟩ 3000 n →
        (E.SplitsOnFresh m s idx ↔ ¬(SPLIT_THRESHOLD ≤ t.keyCount ∧
          (n.keysIn t).length < SPLIT_THRESHOLD.toNat ∧
          n.keysIn t ≠ [] ∧ n.keysIn t ≠ [t.startKey])) := by
  refine ⟨Environment.splitsOnFresh_iff_not_stale, ?_⟩
  intro t n hidx hbounded hkeys hcount hanswers
  rw [Environment.splitsOnFresh_iff_not_stale,
    Environment.staleSplit_answered hidx hbounded hkeys hcount hanswers]

end Stale

/-- A node that has only the key `a` left. -/
def oneLeft : DataNode := ⟨some ⟨SortedMap.empty.insert [0x61] [1], []⟩⟩

theorem keys_oneLeft : oneLeft.keys = [[0x61]] := by decide +kernel

theorem short_oneLeft : ∀ k, oneLeft.lookup k ≠ none → Short k := by
  intro k hk
  have hmem := DataNode.mem_keys.mpr hk
  rw [keys_oneLeft] at hmem
  obtain rfl := List.mem_singleton.mp hmem
  exact Nat.one_lt_two_pow (by norm_num)

/-- The first initial tablet after statistics that counted `count` keys on its node. -/
def countedFirst (count : ℕ) : Master := counted twoNodes fun node => if node = 2 then count else 0

/-- The first `count` letters, on any node. -/
def letters (count : ℕ) : DataNode :=
  ⟨some ⟨(List.range count).foldl (fun db i => db.insert [UInt8.ofNat (0x61 + i)] [1]) .empty, []⟩⟩

theorem short_letters (count : ℕ) (h : ∀ k ∈ (letters count).keys, k.length = 1) :
    ∀ k, (letters count).lookup k ≠ none → Short k := by
  intro k hk
  have hlen := h k (DataNode.mem_keys.mpr hk)
  unfold Short
  rw [hlen]
  norm_num

/-- Twelve keys were counted, and six are left: they still are enough, and the halves say so. -/
theorem splitsOnFresh_iff_sixLeft :
    (answering (letters 6)).SplitsOnFresh (countedFirst 12) [] 0 := by
  have hshort := short_letters 6 (by decide +kernel)
  have hsix : ((letters 6).keysIn ⟨1, [], [0x6D], 2, 12⟩).length = 6 := by decide +kernel
  refine ((splitsOnFresh_iff (answering (letters 6)) (countedFirst 12) [] 0).2 ⟨1, [], [0x6D], 2, 12⟩
    (letters 6) (by decide) ⟨by decide, by decide⟩ hshort ?_ (answers_answering _ _ _ _)).mpr ?_
  · rw [hsix]
    norm_num
  · rintro ⟨-, hfew, -⟩
    rw [hsix] at hfew
    exact absurd hfew (by decide)

/-- Six keys were counted, and one is left: the tablet is split, and its left half is empty. -/
theorem not_splitsOnFresh_oneLeft : ¬∀ m, Reachable twoNodes m →
    (answering oneLeft).SplitsOnFresh m [] 0 := by
  intro hall
  have hreach : Reachable twoNodes (countedFirst 6) := reachable_counted (by decide) (by decide) _
  have hstale : (answering oneLeft).StaleSplit (countedFirst 6) [] 0 := by
    refine (Environment.staleSplit_answered (t := ⟨1, [], [0x6D], 2, 6⟩) (by decide)
      ⟨by decide, by decide⟩ short_oneLeft ?_ (answers_answering _ _ _ _)).mpr ?_
    · decide
    · decide
  exact Environment.splitsOnFresh_iff_not_stale.mp (hall _ hreach) hstale

end LeKV
