import LeKV.Kv.Tiling
import LeKV.Lib.FreshIds

/-!
# Tablet ids and the epoch

`next_tablet_id_` hands out the ids of tablets and `epoch_` counts the changes of the routes. As long
as neither counter overflows, an id means the same key range in all states of a run, and the epoch
tells two tables with different routes apart (`tablet_identity`).
-/

namespace LeKV

open Bytes FreshIds

/-- How many splits and migrations an action with the result `r` carried out. `none` is `terminate`,
which comes after the change. -/
def BalancerAction.changes : BalancerAction → Option Bool → ℕ
  | .sync, _ => 0
  | _, some false => 0
  | _, _ => 1

/-- The members of a Master that started with `m₀`, and the splits and migrations since. -/
inductive ActionRun (m₀ : Master) : ℕ → Master → Prop where
  | start : ActionRun m₀ 0 m₀
  | act {n : ℕ} {m : Master} (h : ActionRun m₀ n m) {σ : Type} (E : Environment σ) (s : σ)
      (a : BalancerAction) :
      ActionRun m₀ (n + a.changes (E.run a.prog (m, s)).1) (a.after E m s)

/-- The members a Master starts with: those of the initial table, or those an earlier Master saved.
Counted are the splits and migrations of all earlier ones. -/
inductive Started (peers : List PeerInfo) : ℕ → Master → Prop where
  | init {tablets : List Tablet} (hinit : buildInitialTablets peers = some tablets) :
      Started peers 0 { Master.init with tablets }
  | load {n k : ℕ} {m₀ m : Master} {text : SavedText} (h₀ : Started peers n m₀)
      (h : ActionRun m₀ k m) (hsave : dump (Balancer.document m) = some text) :
      Started peers (n + k) (Balancer.loadTablets (some (.text text)) Master.init).2

namespace Master

/-- The ids in the table. -/
def ids (m : Master) : List UInt64 := m.tablets.map Tablet.id

/-- The ids in the table and what they mean. -/
def entries (m : Master) : List (ℕ × (Bytes × Bytes)) :=
  m.tablets.map fun t => (t.id.toNat, (t.startKey, t.endKey))

theorem fst_entries (m : Master) : m.entries.map Prod.fst = m.ids.map UInt64.toNat := by
  rw [entries, ids, List.map_map, List.map_map]
  rfl

theorem mem_ids {m : Master} {i : UInt64} : i ∈ m.ids ↔ i.toNat ∈ m.entries.map Prod.fst := by
  rw [fst_entries]
  refine ⟨List.mem_map_of_mem, fun h => ?_⟩
  obtain ⟨j, hj, heq⟩ := List.mem_map.mp h
  rwa [← UInt64.toNat_inj.mp heq]

/-- The routing part of a lookup. -/
def route (m : Master) (key : Bytes) : Option (UInt64 × Bytes × Bytes × UInt32) :=
  (getTabletRoute m.tablets key).map fun t => (t.id, t.startKey, t.endKey, t.nodeId)

/-- After `n` splits and migrations: the ids are in order and the counters have not overflowed. -/
structure Numbered (m : Master) (n : ℕ) : Prop where
  issued : Issued m.entries m.nextTabletId.toNat
  next_le : m.nextTabletId.toNat ≤ 3 + 2 * n
  epoch_le : m.epoch.toNat ≤ 1 + n

/-- What holds between the members and any later ones. -/
structure Precedes (m m' : Master) : Prop where
  succeeds : Succeeds m.entries m.nextTabletId.toNat m'.entries m'.nextTabletId.toNat
  epoch_le : m.epoch ≤ m'.epoch
  assignment_eq : m.epoch = m'.epoch → assignment m'.tablets = assignment m.tablets

theorem Precedes.refl (m : Master) : m.Precedes m := ⟨.refl _ _, UInt64.le_refl _, fun _ => rfl⟩

theorem Precedes.trans {m m' m'' : Master} (h : m.Precedes m') (h' : m'.Precedes m'') :
    m.Precedes m'' where
  succeeds := h.succeeds.trans h'.succeeds
  epoch_le := UInt64.le_trans h.epoch_le h'.epoch_le
  assignment_eq := by
    intro heq
    -- an epoch that is back at its value has not moved in between
    have hfirst : m.epoch = m'.epoch := UInt64.le_antisymm h.epoch_le (heq ▸ h'.epoch_le)
    exact (h'.assignment_eq (hfirst ▸ heq)).trans (h.assignment_eq hfirst)

/-- The epoch grew with a change of the assignment, or neither changed. -/
def Tracked (m m' : Master) : Prop :=
  m.epoch < m'.epoch ∧ assignment m'.tablets ≠ assignment m.tablets ∨
    m.epoch = m'.epoch ∧ assignment m'.tablets = assignment m.tablets

theorem Tracked.precedes {m m' : Master} (h : m.Tracked m')
    (hids : Succeeds m.entries m.nextTabletId.toNat m'.entries m'.nextTabletId.toNat) :
    m.Precedes m' where
  succeeds := hids
  epoch_le := by
    rcases h with ⟨hlt, -⟩ | ⟨heq, -⟩
    · exact UInt64.le_of_lt hlt
    · exact UInt64.le_of_eq heq
  assignment_eq := by
    intro heq
    rcases h with ⟨hlt, -⟩ | ⟨-, hsame⟩
    · exact absurd heq (UInt64.ne_of_lt hlt)
    · exact hsame

end Master

/-! ## One action -/

theorem entries_of_assignment_eq {m m' : Master} (h : assignment m'.tablets = assignment m.tablets) :
    m'.entries = m.entries := by
  have hmap := congrArg (List.map fun t : Tablet => (t.id.toNat, (t.startKey, t.endKey))) h
  rwa [assignment, assignment, List.map_map, List.map_map] at hmap

theorem entries_moveTo (m : Master) (idx : ℕ) (dst : UInt32) :
    (m.moveTo idx dst).entries = m.entries := by
  refine map_modify_eq ?_ m.tablets idx
  exact fun t => rfl

theorem assignment_moveTo_ne {m : Master} {idx : ℕ} {t : Tablet} {dst : UInt32}
    (hidx : m.tablets[idx]? = some t) (hne : t.nodeId ≠ dst) :
    assignment (m.moveTo idx dst).tablets ≠ assignment m.tablets := by
  intro heq
  have hnode := congrArg (fun l : List Tablet => (l[idx]?).map Tablet.nodeId) heq
  simp only [assignment, Master.moveTo, List.getElem?_map, List.getElem?_modify, if_true, hidx,
    Option.map_some] at hnode
  exact hne (Option.some.inj hnode).symm

theorem assignment_splitAt_ne {m : Master} {idx : ℕ} {old : Tablet} {median : Bytes}
    (hidx : m.tablets[idx]? = some old) (keyCount : UInt64) :
    assignment (m.splitAt idx old keyCount median).tablets ≠ assignment m.tablets := by
  obtain ⟨l₁, l₂, htablets, rfl⟩ := exists_append_of_getElem? hidx
  intro heq
  have hlength := congrArg List.length heq
  rw [Master.splitAt, htablets, set_insertIdx_append] at hlength
  simp [assignment] at hlength

/-- The counters of the Master, one step on. -/
theorem toNat_add_one {x : UInt64} (h : x.toNat + 1 < 2 ^ 64) : (x + 1).toNat = x.toNat + 1 := by
  rw [UInt64.toNat_add]
  exact Nat.mod_eq_of_lt h

theorem toNat_add_two {x : UInt64} (h : x.toNat + 2 < 2 ^ 64) : (x + 2).toNat = x.toNat + 2 := by
  rw [UInt64.toNat_add]
  exact Nat.mod_eq_of_lt h

theorem lt_add_one {x : UInt64} (h : x.toNat + 1 < 2 ^ 64) : x < x + 1 := by
  rw [UInt64.lt_iff_toNat_lt, toNat_add_one h]
  exact Nat.lt_succ_self _

/-- A split retires one id and issues two. -/
theorem entries_splitAt {m : Master} {idx : ℕ} {old : Tablet} {median : Bytes}
    (hidx : m.tablets[idx]? = some old) (keyCount : UInt64)
    (hnext : m.nextTabletId.toNat + 2 < 2 ^ 64) :
    ∃ l₁ e l₂, m.entries = l₁ ++ e :: l₂ ∧ (m.splitAt idx old keyCount median).entries
      = l₁ ++ (m.nextTabletId.toNat, (old.startKey, median)) ::
        (m.nextTabletId.toNat + 1, (median, old.endKey)) :: l₂ := by
  obtain ⟨l₁, l₂, htablets, rfl⟩ := exists_append_of_getElem? hidx
  let f : Tablet → ℕ × (Bytes × Bytes) := fun t => (t.id.toNat, (t.startKey, t.endKey))
  refine ⟨l₁.map f, f old, l₂.map f, ?_, ?_⟩
  · rw [Master.entries, htablets, List.map_append, List.map_cons]
  · rw [Master.entries, Master.splitAt, htablets, set_insertIdx_append, List.map_append,
      List.map_cons, List.map_cons, toNat_add_one (by omega)]

/-- What one change of the table does to ids and epoch. `c` counts it. -/
theorem Master.Numbered.change {connected : UInt32 → Prop} {m m' : Master} {n c : ℕ}
    (h : m.Numbered n) (hn : n + c < 2 ^ 63 - 1) (hchange : TableChange connected m m')
    (hc : c = 0 → m'.epoch = m.epoch) : m'.Numbered (n + c) ∧ m.Precedes m' ∧ m.Tracked m' := by
  obtain ⟨hissued, hnext, hepoch⟩ := h
  have hgrows : m.epoch.toNat + 1 < 2 ^ 64 := by omega
  -- an epoch that went up has been counted
  have hcount : m'.epoch = m.epoch + 1 → 1 ≤ c := by
    intro heq
    by_contra hzero
    have hsame : m.epoch + 1 = m.epoch := heq.symm.trans (hc (by omega))
    exact UInt64.ne_of_lt (lt_add_one hgrows) hsame.symm
  cases hchange with
  | keep htablets hid hep =>
    have hentries := entries_of_assignment_eq htablets
    have htracked : m.Tracked m' := .inr ⟨hep.symm, htablets⟩
    refine ⟨⟨?_, ?_, ?_⟩, htracked.precedes ?_, htracked⟩
    · rw [hentries, hid]
      exact hissued
    · rw [hid]
      omega
    · rw [hep]
      omega
    · rw [hentries, hid]
      exact .refl _ _
  | @split idx old median keyCount hidx hpoint =>
    have hone : 1 ≤ c := hcount rfl
    have htwo : m.nextTabletId.toNat + 2 < 2 ^ 64 := by omega
    -- the halves take the place of the old tablet, under the next two ids
    obtain ⟨l₁, e, l₂, hbefore, hafter⟩ := @entries_splitAt m idx old median hidx keyCount htwo
    have htracked : m.Tracked (m.splitAt idx old keyCount median) :=
      .inl ⟨lt_add_one hgrows, assignment_splitAt_ne hidx keyCount⟩
    have hnextId : (m.splitAt idx old keyCount median).nextTabletId.toNat
        = m.nextTabletId.toNat + 2 := toNat_add_two htwo
    refine ⟨⟨?_, ?_, ?_⟩, htracked.precedes ?_, htracked⟩
    · rw [hafter, hnextId]
      exact (hbefore ▸ hissued).replace _ _
    · rw [hnextId]
      omega
    · show (m.epoch + 1).toNat ≤ 1 + (n + c)
      rw [toNat_add_one hgrows]
      omega
    · rw [hafter, hnextId, hbefore]
      exact .replace _ _
  | @move _ idx t dst hidx hne hdst htablets hid hep =>
    have hone : 1 ≤ c := hcount hep
    -- only the owner is another: the tablet keeps its id and its range
    have hentries : m'.entries = m.entries := by
      rw [Master.entries, htablets]
      exact entries_moveTo m idx dst
    have htracked : m.Tracked m' := by
      refine .inl ⟨?_, ?_⟩
      · rw [hep]
        exact lt_add_one hgrows
      · rw [htablets]
        exact assignment_moveTo_ne hidx hne
    refine ⟨⟨?_, ?_, ?_⟩, htracked.precedes ?_, htracked⟩
    · rw [hentries, hid]
      exact hissued
    · rw [hid]
      omega
    · rw [hep, toNat_add_one hgrows]
      omega
    · rw [hentries, hid]
      exact .refl _ _

/-- What one action does to ids and epoch. -/
theorem Master.Numbered.act {m : Master} {n : ℕ} (h : m.Numbered n) {σ : Type} (E : Environment σ)
    (s : σ) (a : BalancerAction) (hn : n + a.changes (E.run a.prog (m, s)).1 < 2 ^ 63 - 1) :
    (a.after E m s).Numbered (n + a.changes (E.run a.prog (m, s)).1) ∧
      m.Precedes (a.after E m s) ∧ m.Tracked (a.after E m s) := by
  obtain ⟨hchange, hfalse⟩ := after_change_or_false E m s a
  refine h.change hn hchange fun hzero => hfalse ?_
  cases a with
  | sync => exact .inl rfl
  | split _ | migrate _ _ | balance =>
    rcases hr : (E.run _ (m, s)).1 with _ | _ | _
    · rw [hr] at hzero
      exact absurd hzero one_ne_zero
    · exact .inr rfl
    · rw [hr] at hzero
      exact absurd hzero one_ne_zero

/-! ## Runs -/

theorem Master.Numbered.run {m m' : Master} {n k : ℕ} (h : m.Numbered n) (hrun : ActionRun m k m')
    (hn : n + k < 2 ^ 63 - 1) : m'.Numbered (n + k) ∧ m.Precedes m' := by
  induction hrun with
  | start => exact ⟨h, .refl m⟩
  | @act k m₁ hrun σ E s a ih =>
    obtain ⟨hnumbered, hprecedes⟩ := ih (by omega)
    obtain ⟨hnumbered', hprecedes', -⟩ := hnumbered.act E s a (by omega)
    exact ⟨by rw [← Nat.add_assoc]; exact hnumbered', hprecedes.trans hprecedes'⟩

theorem Started.numbered {peers : List PeerInfo} {n : ℕ} {m : Master} (h : Started peers n m)
    (hn : n < 2 ^ 63 - 1) : m.Numbered n := by
  induction h with
  | @init tablets hinit =>
    unfold buildInitialTablets at hinit
    rcases hdn : dataNodes peers with _ | ⟨a, _ | ⟨b, l⟩⟩
    · rw [hdn] at hinit
      obtain rfl := Option.some.inj hinit
      exact ⟨⟨List.nodup_nil, fun e he => absurd he List.not_mem_nil⟩, le_rfl, le_rfl⟩
    · rw [hdn] at hinit
      exact absurd hinit (by simp)
    · rw [hdn] at hinit
      obtain rfl := Option.some.inj hinit
      refine ⟨⟨by simp [Master.entries], ?_⟩, le_rfl, le_rfl⟩
      simp [Master.entries, Master.init]
  | @load n k m₀ m text h₀ hrun hsave ih =>
    have hnumbered := ((ih (by omega)).run hrun hn).1
    rw [Balancer.loadTablets, FileContent.parse, dump_eq_some hsave]
    exact ⟨hnumbered.issued, hnumbered.next_le, hnumbered.epoch_le⟩

/-! ## The lookup reads the assignment only -/

theorem findTabletIndex_assignment (tablets : List Tablet) (key : Bytes) :
    findTabletIndex (assignment tablets) key = findTabletIndex tablets key := by
  have htest : startsBefore (assignment tablets) key = startsBefore tablets key := by
    funext mid
    unfold startsBefore assignment
    rw [List.getElem?_map, Option.any_map]
  unfold findTabletIndex
  rw [htest, assignment, List.length_map]

theorem getTabletRoute_assignment (tablets : List Tablet) (key : Bytes) :
    getTabletRoute (assignment tablets) key
      = (getTabletRoute tablets key).map fun t => { t with keyCount := 0 } := by
  unfold getTabletRoute
  rw [findTabletIndex_assignment]
  by_cases hnil : tablets = []
  · rw [hnil]
    rfl
  have hnil' : assignment tablets ≠ [] := fun h => hnil (List.map_eq_nil_iff.mp h)
  rw [if_neg hnil, if_neg hnil', assignment, List.getElem?_map]
  rcases tablets[findTabletIndex tablets key]? with _ | t
  · rfl
  · rw [Option.map_some]
    by_cases hend : t.endKey ≠ [] ∧ t.endKey ≤ key
    · simp only [if_pos hend, Option.map_none]
    · simp only [if_neg hend, Option.map_some]

theorem route_of_assignment_eq {m m' : Master} (h : assignment m'.tablets = assignment m.tablets)
    (key : Bytes) : m'.route key = m.route key := by
  have hroute : ∀ m : Master, m.route key
      = (getTabletRoute (assignment m.tablets) key).map
          fun t => (t.id, t.startKey, t.endKey, t.nodeId) := by
    intro m
    rw [getTabletRoute_assignment, Option.map_map]
    rfl
  rw [hroute m, hroute m', h]

/-! ## The result -/

/-- Two states of a run, `m` before `m'`: ids are distinct and below the counter, mean the same in
both states, and do not come back; every action moves the epoch exactly when it changes the
assignment, and states of equal epoch have equal routes. -/
theorem tablet_identity {peers : List PeerInfo} {m₀ m m' : Master} {n₀ n k : ℕ}
    (hstart : Started peers n₀ m₀) (hn₀ : n₀ < 2 ^ 62) (h : ActionRun m₀ n m)
    (h' : ActionRun m k m') (hn : n + k < 2 ^ 62) :
    (m.ids.Nodup ∧ ∀ i ∈ m.ids, i < m.nextTabletId) ∧
    (∀ t ∈ m.tablets, ∀ t' ∈ m'.tablets, t.id = t'.id →
      t.startKey = t'.startKey ∧ t.endKey = t'.endKey) ∧
    (∀ i ∈ m.ids, i ∉ m'.ids → ∀ (j : ℕ) (m'' : Master), ActionRun m' j m'' →
      n + k + j < 2 ^ 62 → i ∉ m''.ids) ∧
    (∀ (σ : Type) (E : Environment σ) (s : σ) (a : BalancerAction),
      n + a.changes (E.run a.prog (m, s)).1 < 2 ^ 62 → m.Tracked (a.after E m s)) ∧
    m.epoch ≤ m'.epoch ∧
    (m.epoch = m'.epoch →
      assignment m'.tablets = assignment m.tablets ∧ ∀ key, m'.route key = m.route key) := by
  have hnumbered₀ := hstart.numbered (by omega)
  have hnumbered := (hnumbered₀.run h (by omega)).1
  obtain ⟨hnumbered', hprecedes⟩ := hnumbered.run h' (by omega)
  have hissued := hnumbered.issued
  refine ⟨⟨?_, ?_⟩, ?_, ?_, ?_, hprecedes.epoch_le, ?_⟩
  · have hnodup := hissued.nodup
    rw [Master.fst_entries] at hnodup
    exact hnodup.of_map _
  · intro i hi
    obtain ⟨e, he, heq⟩ := List.mem_map.mp (Master.mem_ids.mp hi)
    rw [UInt64.lt_iff_toNat_lt, ← heq]
    exact hissued.lt_next e he
  · intro t ht t' ht' hid
    have heq : (t.id.toNat, (t.startKey, t.endKey)) = (t'.id.toNat, (t'.startKey, t'.endKey)) :=
      hprecedes.succeeds.eq_of_fst_eq hissued (List.mem_map_of_mem ht) (List.mem_map_of_mem ht')
        (congrArg UInt64.toNat hid)
    exact Prod.mk.inj (Prod.mk.inj heq).2
  · intro i hi hgone j m'' h'' hj
    have hsucceeds := (hnumbered'.run h'' (by omega)).2.succeeds
    rw [Master.mem_ids] at hi hgone ⊢
    exact hprecedes.succeeds.not_mem hsucceeds hissued hi hgone
  · intro σ E s a hchanges
    exact (hnumbered.act E s a (by omega)).2.2
  · intro hepoch
    have hassignment := hprecedes.assignment_eq hepoch
    exact ⟨hassignment, route_of_assignment_eq hassignment⟩

/-- The split of the first tablet at `g` retires id 1 and moves the epoch. -/
theorem tablet_identity_split :
    (afterSplit [0x67]).ids = [3, 4, 2] ∧ 1 ∉ (afterSplit [0x67]).ids ∧
      (afterSplit [0x67]).epoch = 2 ∧
      ∀ (j : ℕ) (m'' : Master), ActionRun (afterSplit [0x67]) j m'' → 1 + j < 2 ^ 62 →
        1 ∉ m''.ids := by
  have hsplit : ActionRun { Master.init with
      tablets := [⟨1, [], [0x6D], 2, 0⟩, ⟨2, [0x6D], [], 3, 0⟩] } 1 (afterSplit [0x67]) :=
    (ActionRun.start.act (nineKeys [0x67]) () .sync).act (nineKeys [0x67]) () (.split 0)
  have hinit : buildInitialTablets twoNodes
      = some [⟨1, [], [0x6D], 2, 0⟩, ⟨2, [0x6D], [], 3, 0⟩] := rfl
  have hidentity := tablet_identity (.init hinit) (by norm_num) .start hsplit (by norm_num)
  refine ⟨by decide, by decide, by decide, fun j m'' hrun hj => ?_⟩
  exact hidentity.2.2.1 1 (by decide) (by decide) j m'' hrun (by omega)

end LeKV
