import LeKV.Kv.Tiling

/-!
# Between two steps of an action

What the members look like whenever the balancer is about to perform an operation, in any
environment. There is one moment at which the table is not what it was or will be: between the two
assignments of a split (`HalfSplit`). At all others it satisfies every invariant of tables.
-/

namespace LeKV

open Bytes BinaryProtocol Effects

/-- A property of tables that statistics, splits and migrations keep. -/
structure TableInvariant (T : List Tablet → Prop) : Prop where
  keep : ∀ {ts tablets}, T tablets → assignment ts = assignment tablets → T ts
  split : ∀ {m : Master} {idx old median} (keyCount), T m.tablets → m.tablets[idx]? = some old →
    SplitPoint old median → T (m.splitAt idx old keyCount median).tablets
  move : ∀ {m : Master} {idx} {t : Tablet} {dst}, T m.tablets → m.tablets[idx]? = some t →
    T (m.moveTo idx dst).tablets

theorem tableInvariant_tiles : TableInvariant Tiles where
  keep h hts := by
    rw [Tiles, map_interval_eq hts]
    exact h
  split keyCount h hidx hpoint := h.split hidx hpoint.start_lt hpoint.lt_end ⟨rfl, rfl⟩ ⟨rfl, rfl⟩
  move h hidx := h.modify _ fun _ => rfl

section Visits

variable {σ : Type} {E : Environment σ} {m : Master} {s : σ} {x : MasterOp × (Master × σ)}
  {T : List Tablet → Prop}

/-- The operation adds a tablet to the table. -/
def Grows (x : MasterOp × (Master × σ)) : Prop :=
  ∃ f, x.1 = .modify f ∧ x.2.1.tablets.length < (f x.2.1).tablets.length

/-- An operation that finds a table with `T`, adds no tablet to it and saves no other table. -/
structure Settled (T : List Tablet → Prop) (x : MasterOp × (Master × σ)) : Prop where
  table : T x.2.1.tablets
  not_grows : ¬Grows x
  saved : ∀ text, x.1 = .writeTmp text → dump (Balancer.document x.2.1) = some text

/-- `tablets_.insert`. -/
def insertTablet (i : ℕ) (t : Tablet) (m : Master) : Master :=
  { m with tablets := m.tablets.insertIdx i t }

/-- The operation that inserts the right half of a tablet whose left half is already in the table. -/
def HalfSplit (m : Master) (x : MasterOp × (Master × σ)) : Prop :=
  ∃ idx old keyCount median, m.tablets[idx]? = some old ∧ SplitPoint old median ∧
    x.2.1.tablets = m.tablets.set idx
      { old with id := m.nextTabletId, endKey := median, keyCount := keyCount / 2 } ∧
    x.1 = .modify (insertTablet (idx + 1)
      { old with id := m.nextTabletId + 1, startKey := median, keyCount := keyCount - keyCount / 2 })

theorem Settled.of_rpc (hx : Balancer.IsRpc x.1) (h : T x.2.1.tablets) : Settled T x where
  table := h
  not_grows := by
    rintro ⟨f, hf, -⟩
    rw [hf] at hx
    exact hx
  saved := by
    intro text htext
    rw [htext] at hx
    exact hx.elim

theorem Settled.get (h : T m.tablets) : Settled T ((.get, (m, s)) : MasterOp × (Master × σ)) where
  table := h
  not_grows := by
    rintro ⟨f, hf, -⟩
    exact absurd hf (by simp)
  saved := by simp

theorem Settled.modify {f : Master → Master} (h : T m.tablets)
    (hf : (f m).tablets.length = m.tablets.length) :
    Settled T ((.modify f, (m, s)) : MasterOp × (Master × σ)) where
  table := h
  not_grows := by
    rintro ⟨g, hg, hlt⟩
    obtain rfl := MasterOp.modify.inj hg
    exact absurd hlt hf.not_gt
  saved := by simp

/-- What an `RpcClient` is asked to do is settled. -/
theorem Settled.of_uses {α : Type} {p : Balancer α} (hp : Balancer.RpcOnly p) (h : T m.tablets)
    (hx : x ∈ E.visits p (m, s)) : Settled T x := by
  obtain ⟨hrpc, hmembers, -⟩ := Environment.visits_of_uses (I := fun _ => True) hp
    ⟨fun _ _ _ _ => trivial, fun _ _ _ _ => trivial⟩ trivial hx
  exact .of_rpc hrpc (hmembers ▸ h)

theorem Settled.of_saveTablets (h : T m.tablets)
    (hx : x ∈ E.visits Balancer.saveTablets (m, s)) : Settled T x := by
  have hmember : ∀ {o : MasterOp} {s' : σ}, (∀ f, o ≠ .modify f) →
      (∀ text, o = .writeTmp text → dump (Balancer.document m) = some text) →
      Settled T ((o, (m, s')) : MasterOp × (Master × σ)) :=
    fun hmodify hwrite => ⟨h, fun ⟨f, hf, _⟩ => hmodify f hf, hwrite⟩
  rw [Environment.visits_saveTablets] at hx
  rcases List.mem_cons.mp hx with rfl | hx
  · exact .get h
  rcases List.mem_cons.mp hx with rfl | hx
  · exact hmember (by simp) (by simp)
  split_ifs at hx
  · rcases hdump : dump (Balancer.document m) with _ | text
    · rw [hdump] at hx
      rw [List.mem_singleton.mp hx]
      exact hmember (by simp) (by simp)
    · rw [hdump] at hx
      rcases List.mem_cons.mp hx with rfl | hx
      · apply hmember (by simp)
        rintro text' ⟨⟩
        exact hdump
      · rw [List.mem_singleton.mp hx]
        exact hmember (by simp) (by simp)
  · exact absurd hx List.not_mem_nil

/-! ## The actions -/

theorem Settled.of_syncTabletStats (h : T m.tablets) {i : ℕ}
    (hx : x ∈ E.visits (Balancer.syncTabletStats i) (m, s)) : Settled T x := by
  unfold Balancer.syncTabletStats at hx
  rw [Environment.visits_get] at hx
  rcases List.mem_cons.mp hx with rfl | hx
  · exact .get h
  rcases hi : m.tablets[i]? with _ | t
  · rw [hi] at hx
    exact absurd hx List.not_mem_nil
  rw [hi] at hx
  obtain ⟨r, s', hrun, -⟩ := Environment.run_of_uses (E := E)
    (Balancer.queryTabletStats_uses t.nodeId t.startKey t.endKey) (keepsRpc_true E) m
    (s := s) trivial
  rcases (Environment.mem_visits_bind_some hrun).mp hx with hx | hx
  · exact .of_uses (Balancer.queryTabletStats_uses _ _ _) h hx
  · rcases r with _ | ⟨keyCount, median⟩
    · exact absurd hx List.not_mem_nil
    · rw [List.mem_singleton.mp hx]
      exact .modify h (List.length_modify _ _ _)

theorem Settled.of_syncFrom (hT : TableInvariant T) (h : T m.tablets) {n i : ℕ}
    (hx : x ∈ E.visits (Balancer.syncFrom n i) (m, s)) : Settled T x := by
  induction n generalizing m s i with
  | zero => exact absurd hx List.not_mem_nil
  | succ n ih =>
    obtain ⟨ts, s', hrun, hts, -⟩ := Environment.run_syncTabletStats (E := E)
      (keepsRpc_true E).keepsQuery m (boundaries_true _) (s := s) trivial i
    rcases (Environment.mem_visits_bind_some hrun).mp hx with hx | hx
    · exact .of_syncTabletStats h hx
    · exact ih (hT.keep h hts) hx

/-- During a split the table is settled, but for the moment between its two assignments. -/
theorem settled_of_trySplitTablet (hT : TableInvariant T) (h : T m.tablets) {idx : ℕ}
    (hx : x ∈ E.visits (Balancer.trySplitTablet idx) (m, s)) : Settled T x ∨ HalfSplit m x := by
  unfold Balancer.trySplitTablet at hx
  rw [Environment.visits_get] at hx
  rcases List.mem_cons.mp hx with rfl | hx
  · exact .inl (.get h)
  rcases hidx : m.tablets[idx]? with _ | old
  · rw [hidx] at hx
    exact absurd hx List.not_mem_nil
  simp only [hidx] at hx
  by_cases hsmall : old.keyCount < SPLIT_THRESHOLD
  · rw [if_pos hsmall] at hx
    exact absurd hx List.not_mem_nil
  rw [if_neg hsmall] at hx
  obtain ⟨r, s', hrun, -⟩ := Environment.run_of_uses (E := E)
    (Balancer.queryTabletStats_uses old.nodeId old.startKey old.endKey) (keepsRpc_true E) m
    (s := s) trivial
  have hshort := (Balancer.queryTabletStats_returns _ _ _).run hrun
  rcases (Environment.mem_visits_bind_some hrun).mp hx with hx | hx
  · exact .inl (.of_uses (Balancer.queryTabletStats_uses _ _ _) h hx)
  rcases r with _ | ⟨keyCount, median⟩
  · exact absurd hx List.not_mem_nil
  dsimp only at hx
  by_cases hmedian : median = [] ∨ median ≤ old.startKey ∨ (old.endKey ≠ [] ∧ old.endKey ≤ median)
  · rw [if_pos hmedian] at hx
    exact absurd hx List.not_mem_nil
  have hpoint := (splitPoint_iff (hshort _ rfl)).mpr hmedian
  rw [if_neg hmedian, Environment.visits_get] at hx
  rcases List.mem_cons.mp hx with rfl | hx
  · exact .inl (.get h)
  simp only [hidx, ne_eq, not_true_eq_false, if_false, if_neg hsmall] at hx
  -- the four assignments: only the third one finds a table with a hole
  rw [Environment.visits_modify] at hx
  rcases List.mem_cons.mp hx with rfl | hx
  · exact .inl (.modify h rfl)
  rw [Environment.visits_modify] at hx
  rcases List.mem_cons.mp hx with rfl | hx
  · exact .inl (.modify h (List.length_set))
  rw [Environment.visits_modify] at hx
  rcases List.mem_cons.mp hx with rfl | hx
  · exact .inr ⟨idx, old, keyCount, median, hidx, hpoint, rfl, rfl⟩
  rw [Environment.visits_modify] at hx
  rcases List.mem_cons.mp hx with rfl | hx
  · exact .inl (.modify (hT.split keyCount h hidx hpoint) rfl)
  rcases Environment.mem_visits_bind.mp hx with hx | ⟨_, w', -, hx⟩
  · exact .inl (.of_saveTablets (m := m.splitAt idx old keyCount median)
      (hT.split keyCount h hidx hpoint) hx)
  · exact absurd hx List.not_mem_nil

theorem Settled.of_migrateTablet (hT : TableInvariant T) (h : T m.tablets) {idx : ℕ} {dst : UInt32}
    (hx : x ∈ E.visits (Balancer.migrateTablet idx dst) (m, s)) : Settled T x := by
  unfold Balancer.migrateTablet at hx
  rw [Environment.visits_get] at hx
  rcases List.mem_cons.mp hx with rfl | hx
  · exact .get h
  rcases hidx : m.tablets[idx]? with _ | t
  · rw [hidx] at hx
    exact absurd hx List.not_mem_nil
  simp only [hidx] at hx
  by_cases hstay : t.nodeId = dst
  · rw [if_pos hstay] at hx
    exact absurd hx List.not_mem_nil
  rw [if_neg hstay] at hx
  obtain ⟨ok, s₁, hscan, -⟩ := Environment.run_of_uses (E := E)
    (Balancer.scanAndTransferData_uses t.nodeId dst t.startKey t.endKey) (keepsRpc_true E) m
    (s := s) trivial
  rcases (Environment.mem_visits_bind_some hscan).mp hx with hx | hx
  · exact .of_uses (Balancer.scanAndTransferData_uses _ _ _ _) h hx
  cases ok with
  | false => exact absurd hx List.not_mem_nil
  | true =>
    rw [if_neg (not_not.mpr rfl), Environment.visits_get] at hx
    rcases List.mem_cons.mp hx with rfl | hx
    · exact .get h
    simp only [hidx, Option.map_some, if_true] at hx
    -- from the first `modify` on, the table is the moved one
    have hmoved : T (m.moveTo idx dst).tablets := hT.move h hidx
    rw [Environment.visits_modify] at hx
    rcases List.mem_cons.mp hx with rfl | hx
    · exact .modify h (List.length_modify _ _ _)
    rw [Environment.visits_modify] at hx
    rcases List.mem_cons.mp hx with rfl | hx
    · exact .modify hmoved rfl
    obtain ⟨saved, s₂, hsave, -⟩ := Environment.run_saveTablets (E := E) (keepsFiles_true E)
      (m.moveTo idx dst) (s := s₁) trivial
    rcases Environment.mem_visits_bind.mp hx with hx | ⟨_, w', hsave', hx⟩
    · exact .of_saveTablets (m := m.moveTo idx dst) hmoved hx
    obtain ⟨-, rfl⟩ := Prod.mk.inj (hsave.symm.trans hsave')
    rcases Environment.mem_visits_bind.mp hx with hx | ⟨_, w', -, hx⟩
    · exact .of_uses (Balancer.sendDeleteRange_uses _ _ _) hmoved hx
    · exact absurd hx List.not_mem_nil

theorem Settled.of_doLoadBalance (hT : TableInvariant T) (h : T m.tablets)
    (hx : x ∈ E.visits Balancer.doLoadBalance (m, s)) : Settled T x := by
  unfold Balancer.doLoadBalance at hx
  rw [Environment.visits_get] at hx
  rcases List.mem_cons.mp hx with rfl | hx
  · exact .get h
  rcases htarget : Balancer.balanceTarget m.tablets with _ | ⟨target, dst⟩
  · rw [htarget] at hx
    exact absurd hx List.not_mem_nil
  have hnow : ∀ {m' : Master} {s' : σ}, T m'.tablets →
      Settled T ((.now, (m', s')) : MasterOp × (Master × σ)) :=
    fun h' => ⟨h', fun ⟨f, hf, _⟩ => absurd hf (by simp), by simp⟩
  simp only [htarget, Environment.visits_now] at hx
  rcases List.mem_cons.mp hx with rfl | hx
  · exact hnow h
  rcases Environment.mem_visits_bind.mp hx with hx | ⟨ok, ⟨m', s'⟩, hmig, hx⟩
  · exact .of_migrateTablet hT h hx
  have hm' : T m'.tablets := by
    obtain ⟨r, s₁, -, ⟨-, hrun⟩ | ⟨-, ⟨t, hidx, -⟩, -, hrun⟩⟩ :=
      Environment.run_migrateTablet_members
      (keepsRpc_true E) (keepsFiles_true E) m (s := (E.now s).2) trivial target dst
    · obtain ⟨rfl, -⟩ := Prod.mk.inj (congrArg Prod.snd (hrun.symm.trans hmig))
      exact h
    · obtain ⟨rfl, -⟩ := Prod.mk.inj (congrArg Prod.snd (hrun.symm.trans hmig))
      exact hT.move h hidx
  simp only [Environment.visits_now] at hx
  rcases List.mem_cons.mp hx with rfl | hx
  · exact hnow hm'
  · rw [List.mem_singleton.mp hx]
    exact .modify hm' rfl

/-- During any action every operation is settled, but for the second assignment of a split. -/
theorem settled_or_halfSplit (hT : TableInvariant T) (h : T m.tablets) (a : BalancerAction)
    (hx : x ∈ E.visits a.prog (m, s)) : Settled T x ∨ HalfSplit m x := by
  cases a with
  | sync =>
    unfold BalancerAction.prog Balancer.syncAllTabletStats at hx
    rcases Environment.mem_visits_bind.mp hx with hx | ⟨_, w', -, hx⟩
    · rw [Environment.visits_get] at hx
      rcases List.mem_cons.mp hx with rfl | hx
      · exact .inl (.get h)
      · exact .inl (.of_syncFrom hT h hx)
    · exact absurd hx List.not_mem_nil
  | split idx => exact settled_of_trySplitTablet hT h hx
  | migrate idx dst => exact .inl (.of_migrateTablet hT h hx)
  | balance => exact .inl (.of_doLoadBalance hT h hx)

end Visits

end LeKV
