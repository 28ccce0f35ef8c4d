import LeKV.Kv.CrashPoints

/-!
# Crash safety of the Master

`CrashSafe` says that, wherever an action is stopped, the Master that starts next routes every pair to
a node that has it. What `SaveTablets` comes to is not looked at: a migration deletes the range at its
source also where the file still has the old route. `crashSafe_iff` says when a split or a migration
is safe all the same.
-/

namespace LeKV

open Bytes BinaryProtocol Sharding Balancer

/-- The pairs that the owners hold. -/
abbrev held (m : Master) (s : Cluster) : Bytes → Option Bytes := (World.sharded (m, s)).view

/-- At all points of the action, the next Master would route the pairs that the owners held before it
to nodes that have them. -/
def CrashSafe (peers : List PeerInfo) (m : Master) (s : Cluster) (a : BalancerAction) : Prop :=
  Cluster.env.Always a.prog
    (OnStores fun file nodes => Recovers peers (held m s) (Has nodes) file) (m, s)

/-- The last request of a migration, the second one to its source, is executed. -/
def DeleteArrives (s : Cluster) (t : Tablet) : Prop :=
  (s.connections t.nodeId).send.sendOutcome.executed = true

section Migrate

variable {m : Master} {s : Cluster} {idx : ℕ} {dst : UInt32} {t : Tablet}
  {J : Option FileContent → (UInt32 → DataNode) → Prop}

/-- All points after a transfer: the file changes at the end of `SaveTablets`, the stores when the
range is deleted. -/
theorem always_finish (m : Master) {s : Cluster} {node : UInt32}
    (hconn : (s.connections node).connected = true) (r : KeyRange) :
    Cluster.env.Always (do
        saveTablets
        let _deleted ← sendDeleteRange node r.start r.end_
        return true) (OnStores J) (m, s) ↔
      J s.files.file s.nodes ∧ J (savedFile s.outcomes m s.files.file) s.nodes ∧
        (saveOutcome s.outcomes m ≠ .threw → (s.connections node).sendOutcome.executed = true →
          J (savedFile s.outcomes m s.files.file)
            (Function.update s.nodes node ((s.nodes node).deleteRange r.start r.end_).2)) := by
  obtain ⟨s', hnodes, hconns, hfile, hsave⟩ := always_save_bind (J := J) m s fun _ => do
    let _deleted ← sendDeleteRange node r.start r.end_
    return true
  have hdelete := always_sendDeleteRange (J := J) (m := m) (s := s') (hconns ▸ hconn) r
  rw [hnodes, hconns, hfile] at hdelete
  refine hsave.trans (and_congr_right fun _ => and_congr_right fun hsaved => ?_)
  apply forall_congr'
  intro _
  rw [Environment.always_bind_some (run_sendDeleteRange m s' node (hconns ▸ hconn) _ _), hdelete,
    and_iff_right hsaved]
  refine and_iff_left_of_imp fun hdeleted => (Environment.always_pure _ _).mpr ?_
  exact (hdelete.mpr ⟨hsaved, hdeleted⟩).last
    (run_sendDeleteRange m s' node (hconns ▸ hconn) r.start r.end_)

/-- All points of a migration: those of the transfer, and, where this reports success, those of the
save and of the range deletion. -/
theorem always_migrateTablet (hidx : m.tablets[idx]? = some t) (hne : t.nodeId ≠ dst)
    (hbounded : t.Bounded) :
    Cluster.env.Always (migrateTablet idx dst) (OnStores J) (m, s) ↔
      Cluster.env.Always (scanAndTransferData t.nodeId dst t.startKey t.endKey) (OnStores J) (m, s) ∧
        ∀ pairs, Reported s t.nodeId dst (t.range hbounded) pairs →
          J (savedFile s.outcomes (m.moveTo idx dst) s.files.file) (s.transferred dst pairs) ∧
          (saveOutcome s.outcomes (m.moveTo idx dst) ≠ .threw → DeleteArrives s t →
            J (savedFile s.outcomes (m.moveTo idx dst) s.files.file)
              (Function.update (s.transferred dst pairs) t.nodeId
                ((s.nodes t.nodeId).deleteRange t.startKey t.endKey).2)) := by
  unfold migrateTablet
  rw [Environment.always_get]
  simp only [hidx, if_neg hne]
  have hstart : Cluster.env.Always (scanAndTransferData t.nodeId dst t.startKey t.endKey)
      (OnStores J) (m, s) → OnStores J (m, s) := fun h => h.start
  by_cases hscanned : ∃ count pairs, Scanned s t.nodeId dst (t.range hbounded) count pairs
  swap
  · -- nothing is read, and the migration stops
    obtain ⟨s', hrun⟩ := run_scanAndTransferData_unscanned m hscanned
    change Cluster.env.run (scanAndTransferData t.nodeId dst t.startKey t.endKey) (m, s) = _ at hrun
    rw [Environment.always_bind_some hrun]
    constructor
    · rintro ⟨-, hpoints, -⟩
      exact ⟨hpoints, fun pairs h => absurd ⟨_, _, h.scanned⟩ hscanned⟩
    · rintro ⟨hpoints, -⟩
      exact ⟨hstart hpoints, hpoints, (Environment.always_pure _ _).mpr (hpoints.last hrun)⟩
  obtain ⟨count, pairs, hscanned⟩ := hscanned
  obtain ⟨ok, s₁, hrun, hok, hnodes, hsends, hconn, hfiles, houtcomes⟩ :=
    run_scanAndTransferData_scanned m hne hscanned
  change Cluster.env.run (scanAndTransferData t.nodeId dst t.startKey t.endKey) (m, s) = _ at hrun
  rw [Environment.always_bind_some hrun]
  cases ok with
  | false =>
    constructor
    · rintro ⟨-, hpoints, -⟩
      refine ⟨hpoints, fun pairs' h => ?_⟩
      obtain ⟨-, rfl⟩ := hscanned.unique h.scanned
      exact absurd (hok.mpr h) Bool.false_ne_true
    · rintro ⟨hpoints, -⟩
      exact ⟨hstart hpoints, hpoints, (Environment.always_pure _ _).mpr (hpoints.last hrun)⟩
  | true =>
    -- what the save and the deletion find
    have hnode : s₁.nodes t.nodeId = s.nodes t.nodeId := by
      rw [hnodes]
      exact Function.update_of_ne hne _ _
    have hexecuted : (s₁.connections t.nodeId).sendOutcome.executed = true ↔ DeleteArrives s t := by
      rw [DeleteArrives, Connection.sendOutcome, hsends]
      rfl
    have hfinish := always_finish (J := J) (m.moveTo idx dst) hconn (t.range hbounded)
    rw [hexecuted, hnode, hfiles, houtcomes, hnodes] at hfinish
    have hid : Option.map Tablet.id m.tablets[idx]? = some t.id := by rw [hidx]; rfl
    rw [if_neg (not_not.mpr rfl), Environment.always_get]
    simp only [hid, if_true, Environment.always_modify]
    constructor
    · rintro ⟨-, hpoints, -, -, -, hrest⟩
      refine ⟨hpoints, fun pairs' h => ?_⟩
      obtain ⟨-, rfl⟩ := hscanned.unique h.scanned
      exact (hfinish.mp hrest).2
    · rintro ⟨hpoints, hrest⟩
      have hlast := hpoints.last hrun
      have hmembers : ∀ w : Master, OnStores J (w, s₁) := fun _ => hlast
      unfold OnStores at hlast
      rw [hfiles, hnodes] at hlast
      exact ⟨hstart hpoints, hpoints, hmembers _, hmembers _, hmembers _,
        hfinish.mpr ⟨hlast, hrest pairs (hok.mp rfl)⟩⟩

end Migrate

/-! ## What the next Master finds -/

section Stores

variable {peers : List PeerInfo} {σ : Bytes → Option Bytes} {file : Option FileContent}
  {nodes : UInt32 → DataNode} {node : UInt32} {n : DataNode}

/-- The DataNode `node` loses `k` when it becomes `n`. -/
def Loses (node : UInt32) (n : DataNode) (other : UInt32) (k _v : Bytes) : Prop :=
  other = node ∧ n.lookup k = none

/-- What a range deletion leaves. -/
theorem has_deleteRange (start end_ : Bytes) {other : UInt32} {k v : Bytes} :
    Has (Function.update nodes node ((nodes node).deleteRange start end_).2) other k v ↔
      Has nodes other k v ∧ ¬Loses node ((nodes node).deleteRange start end_).2 other k v := by
  unfold Has Loses
  by_cases hother : other = node
  · subst hother
    rw [Function.update_self]
    constructor
    · intro h
      exact ⟨DataNode.lookup_of_deleteRange h, fun hnone => by simp [h] at hnone⟩
    · rintro ⟨hv, hkept⟩
      obtain ⟨v', hv'⟩ := Option.ne_none_iff_exists'.mp fun hnone => hkept ⟨rfl, hnone⟩
      have hold := DataNode.lookup_of_deleteRange hv'
      rw [hv', ← hold, hv]
  · rw [Function.update_of_ne hother]
    exact (and_iff_left fun h => hother h.1).symm

end Stores

/-! ## When an action is safe -/

/-- A table that tiles the key space and whose boundaries fit its requests. -/
structure CrashStart (m : Master) : Prop where
  tiles : Tiles m.tablets
  short : Boundaries Short m.tablets

/-- What a split has to find: if it leaves a part of a text in the file, the initial table will do. -/
def SplitStopsSafely (peers : List PeerInfo) (m : Master) (s : Cluster) (idx : ℕ) : Prop :=
  ∀ old keyCount median, Splits m s idx old keyCount median →
    saveOutcome s.outcomes (m.splitAt idx old keyCount median) = .torn →
    Recovers peers (held m s) (Has s.nodes) (some .torn)

/-- What the source of a migration loses. -/
def Dropped (s : Cluster) (t : Tablet) : UInt32 → Bytes → Bytes → Prop :=
  Loses t.nodeId ((s.nodes t.nodeId).deleteRange t.startKey t.endKey).2

/-- A `PUT` of another value than `v` is executed and accepted at the destination of a transfer. -/
def Overwritten (s : Cluster) (dst : UInt32) (pairs : List (Bytes × Bytes)) (node : UInt32)
    (k v : Bytes) : Prop :=
  node = dst ∧ ∃ j e, (s.nodes dst).Writes (executedPairs (s.connections dst).sends pairs) j e ∧
    e.1 = k ∧ e.2 ≠ v

/-- What a migration that has transferred `pairs` has to find. If it saves the new table, the
destination ends up with the pairs of the tablet, and with what it owned. If the file stays as it is,
or gets a part of the text only, then what is read from it does not lead to the source for a pair that
is deleted there. -/
def TransferStopsSafely (peers : List PeerInfo) (m : Master) (s : Cluster) (idx : ℕ) (dst : UInt32)
    (t : Tablet) (pairs : List (Bytes × Bytes)) : Prop :=
  match saveOutcome s.outcomes (m.moveTo idx dst) with
  | .saved => ∀ k v, held m s k = some v → t.Contains k ∨ ownerOf m.tablets k = dst →
      (s.nodes dst).EndsWith (executedPairs (s.connections dst).sends pairs) k v
  | .threw => True
  | .kept => DeleteArrives s t → Avoids peers (held m s) (Dropped s t) s.files.file
  | .torn => Recovers peers (held m s) (Has (s.transferred dst pairs)) (some .torn) ∧
      (DeleteArrives s t → Avoids peers (held m s) (Dropped s t) (some .torn))

/-- What a migration has to find: with the file it starts with, no value that the transfer overwrites
is looked for at the destination; and a transfer that reports success stops safely. -/
def MigrationStopsSafely (peers : List PeerInfo) (m : Master) (s : Cluster) (idx : ℕ) (dst : UInt32) :
    Prop :=
  ∀ t (hbounded : t.Bounded), m.tablets[idx]? = some t → t.nodeId ≠ dst → ∀ count pairs,
    Scanned s t.nodeId dst (t.range hbounded) count pairs →
      Avoids peers (held m s) (Overwritten s dst pairs) s.files.file ∧
      (Reported s t.nodeId dst (t.range hbounded) pairs →
        TransferStopsSafely peers m s idx dst t pairs)

section Actions

variable {peers : List PeerInfo} {m : Master} {s : Cluster} {idx : ℕ} {dst : UInt32}

/-- A saved table is in the file as a whole. -/
theorem savedFile_of_saved {o : FileOutcomes} (h : saveOutcome o m = .saved)
    (file : Option FileContent) :
    ∃ text : SavedText, text.1 = document m ∧ savedFile o m file = some (.text text) := by
  have hdump : (document m).Dumpable := by
    by_contra hdump
    unfold saveOutcome at h
    rw [if_pos hdump] at h
    split_ifs at h
  refine ⟨⟨document m, hdump⟩, rfl, ?_⟩
  rw [savedFile, h]
  exact congrArg (Option.map FileContent.text) (dif_pos hdump)

/-- A split changes no owner, and so serves every pair as before. -/
theorem serves_splitAt (h : CrashStart m) {old : Tablet} {keyCount : UInt64} {median : Bytes}
    (hsplits : Splits m s idx old keyCount median) (hpoint : SplitPoint old median) :
    Serves (routeOf (m.splitAt idx old keyCount median).tablets) (Has s.nodes) (held m s) := by
  intro k v hk
  have htiles : Tiles (m.splitAt idx old keyCount median).tablets :=
    tableInvariant_tiles.split keyCount h.tiles hsplits.tablet hpoint
  refine ⟨_, htiles.routeOf_eq k, ?_⟩
  have howner : ownerOf (m.splitAt idx old keyCount median).tablets k = ownerOf m.tablets k :=
    htiles.ownerOf_eq_iff.mpr
      ((owner_splitAt keyCount hsplits.tablet hpoint).mpr (h.tiles.ownerOf_eq_iff.mp rfl))
  rw [howner]
  exact hk

/-- When a split is safe. -/
theorem crashSafe_split (h : CrashStart m) : CrashSafe peers m s (.split idx) ↔
    Recovers peers (held m s) (Has s.nodes) s.files.file ∧ SplitStopsSafely peers m s idx := by
  refine (always_trySplitTablet h.short idx).trans (and_congr_right fun hfile => ?_)
  apply forall₄_congr
  intro old keyCount median hsplits
  have hpoint : SplitPoint old median := by
    obtain ⟨resp, -, hstats⟩ := Option.bind_eq_some_iff.mp hsplits.answer
    exact (splitPoint_iff (parseStats_median hstats)).mpr hsplits.inside
  rcases hout : saveOutcome s.outcomes (m.splitAt idx old keyCount median)
  · simpa [savedFile, hout] using hfile
  · simpa [savedFile, hout] using hfile
  · obtain ⟨text, htext, hsaved⟩ := savedFile_of_saved hout s.files.file
    rw [hsaved, recovers_text, htext]
    exact iff_of_true (serves_splitAt h hsplits hpoint) fun htorn => absurd htorn (by simp)
  · simp [savedFile, hout]

/-- All points of a transfer: the file does not lead to the destination for a value that the `PUT`s
overwrite there. -/
theorem always_transfer {src : UInt32} (hne : src ≠ dst) (r : KeyRange) (σ : Bytes → Option Bytes) :
    Cluster.env.Always (scanAndTransferData src dst r.start r.end_)
      (OnStores fun file nodes => Recovers peers σ (Has nodes) file) (m, s) ↔
      Recovers peers σ (Has s.nodes) s.files.file ∧ ∀ count pairs, Scanned s src dst r count pairs →
        Avoids peers σ (Overwritten s dst pairs) s.files.file := by
  rw [always_scanAndTransferData hne r]
  refine and_congr_right fun hfile => forall₃_congr fun count pairs _ => ?_
  have hhas : ∀ node k v, (∀ j, Has (Function.update s.nodes dst ((s.nodes dst).putAll
      ((executedPairs (s.connections dst).sends pairs).take j))) node k v) ↔
        Has s.nodes node k v ∧ ¬Overwritten s dst pairs node k v := by
    intro node k v
    unfold Has Overwritten
    by_cases hnode : node = dst
    · subst hnode
      simp only [Function.update_self, DataNode.lookup_putAll_take_iff, true_and]
      push Not
      rfl
    · simp only [Function.update_of_ne hnode, forall_const, hnode, false_and, not_false_eq_true,
        and_true]
  rw [recovers_forall_iff, recovers_congr fun node k v _ => hhas node k v, recovers_and_not_iff,
    and_iff_right hfile]

/-- The new route serves all pairs exactly when the destination has those of the tablet, and those it
owned. -/
theorem serves_moveTo (h : CrashStart m) {t : Tablet} (hidx : m.tablets[idx]? = some t)
    {nodes : UInt32 → DataNode} (hkept : ∀ node k v, node ≠ dst → ¬t.Contains k →
      Has s.nodes node k v → Has nodes node k v) :
    Serves (routeOf (m.moveTo idx dst).tablets) (Has nodes) (held m s) ↔
      ∀ k v, held m s k = some v → t.Contains k ∨ ownerOf m.tablets k = dst →
        (nodes dst).lookup k = some v := by
  have htiles : Tiles (m.moveTo idx dst).tablets := h.tiles.moveTo
  have howner := h.tiles.ownerOf_moveTo hidx dst
  constructor
  · intro hserves k v hk hdst
    obtain ⟨node, hroute, hhas⟩ := hserves k v hk
    rw [htiles.routeOf_eq, howner] at hroute
    obtain rfl := Option.some.inj hroute
    by_cases hcontains : t.Contains k
    · rwa [if_pos hcontains] at hhas
    · rwa [if_neg hcontains, hdst.resolve_left hcontains] at hhas
  · intro hall k v hk
    refine ⟨_, htiles.routeOf_eq k, ?_⟩
    rw [howner]
    split_ifs with hcontains
    · exact hall k v hk (.inl hcontains)
    · by_cases hdst : ownerOf m.tablets k = dst
      · rw [hdst]
        exact hall k v hk (.inr hdst)
      · exact hkept _ k v hdst hcontains hk

/-- What a successful transfer has to lead to. -/
theorem transferStopsSafely_iff (h : CrashStart m) {t : Tablet} (hidx : m.tablets[idx]? = some t)
    (hne : t.nodeId ≠ dst) {pairs : List (Bytes × Bytes)}
    (hfile : Recovers peers (held m s) (Has (s.transferred dst pairs)) s.files.file) :
    let recovers nodes := Recovers peers (held m s) (Has nodes)
      (savedFile s.outcomes (m.moveTo idx dst) s.files.file)
    (recovers (s.transferred dst pairs) ∧
      (saveOutcome s.outcomes (m.moveTo idx dst) ≠ .threw → DeleteArrives s t →
        recovers (Function.update (s.transferred dst pairs) t.nodeId
          ((s.nodes t.nodeId).deleteRange t.startKey t.endKey).2))) ↔
      TransferStopsSafely peers m s idx dst t pairs := by
  intro recovers
  -- the deletion, seen from any file
  have hnode : s.transferred dst pairs t.nodeId = s.nodes t.nodeId := Function.update_of_ne hne _ _
  have hdelete : ∀ file, Recovers peers (held m s) (Has (Function.update
      (s.transferred dst pairs) t.nodeId
        ((s.nodes t.nodeId).deleteRange t.startKey t.endKey).2)) file ↔
      Recovers peers (held m s) (Has (s.transferred dst pairs)) file ∧
        Avoids peers (held m s) (Dropped s t) file := by
    intro file
    rw [← recovers_and_not_iff]
    apply recovers_congr
    intro node k v _
    have hhas := @has_deleteRange (s.transferred dst pairs) t.nodeId t.startKey t.endKey node k v
    rwa [hnode] at hhas
  unfold TransferStopsSafely
  rcases hout : saveOutcome s.outcomes (m.moveTo idx dst)
  · simp only [recovers, savedFile, hout, hdelete, ne_eq, reduceCtorEq, not_false_eq_true,
      forall_const, and_iff_right hfile]
  · simpa [recovers, savedFile, hout] using hfile
  · obtain ⟨text, htext, hsaved⟩ := savedFile_of_saved hout s.files.file
    have htablets : text.1.tablets = (m.moveTo idx dst).tablets := by rw [htext]; rfl
    have hdst : s.transferred dst pairs dst
        = (s.nodes dst).putAll (executedPairs (s.connections dst).sends pairs) :=
      Function.update_self _ _ _
    have hother : ∀ node, node ≠ dst → s.transferred dst pairs node = s.nodes node :=
      fun node hnode => Function.update_of_ne hnode _ _
    -- what the source loses lies in the tablet
    have hdropped : ∀ node k v, node ≠ dst → ¬t.Contains k → Has s.nodes node k v →
        Has (Function.update (s.transferred dst pairs) t.nodeId
          ((s.nodes t.nodeId).deleteRange t.startKey t.endKey).2) node k v := by
      intro node k v hnode hk hhas
      by_cases hsrc : node = t.nodeId
      · subst hsrc
        rw [Has, Function.update_self, DataNode.lookup_deleteRange_of_not_contains hk]
        exact hhas
      · rwa [Has, Function.update_of_ne hsrc, hother node hnode]
    simp only [recovers]
    rw [hsaved, recovers_text, recovers_text, htablets, serves_moveTo h hidx hdropped,
      serves_moveTo h hidx fun node k v hnode _ hhas => by rwa [Has, hother node hnode],
      Function.update_of_ne hne.symm, hdst]
    simp only [DataNode.lookup_putAll_iff]
    exact and_iff_left_of_imp fun hends _ _ => hends
  · simp only [recovers, savedFile, hout, hdelete, ne_eq, reduceCtorEq, not_false_eq_true,
      forall_const]
    exact and_congr_right fun hserves => forall_congr' fun _ => and_iff_right hserves

/-- A migration of a tablet that is not moved stops at once. -/
theorem crashSafe_migrate_of_stay (hstay : ∀ t, m.tablets[idx]? = some t → t.nodeId = dst) :
    CrashSafe peers m s (.migrate idx dst) ↔
      Recovers peers (held m s) (Has s.nodes) s.files.file := by
  show Cluster.env.Always (migrateTablet idx dst) _ (m, s) ↔ _
  unfold migrateTablet
  rw [Environment.always_get]
  refine and_iff_left_of_imp fun hfile => ?_
  rcases hidx : m.tablets[idx]? with _ | t
  · exact (Environment.always_pure _ _).mpr hfile
  · dsimp only
    rw [if_pos (hstay t hidx)]
    exact (Environment.always_pure _ _).mpr hfile

/-- When a migration is safe. -/
theorem crashSafe_migrate (h : CrashStart m) : CrashSafe peers m s (.migrate idx dst) ↔
    Recovers peers (held m s) (Has s.nodes) s.files.file ∧
      MigrationStopsSafely peers m s idx dst := by
  by_cases hstay : ∀ t, m.tablets[idx]? = some t → t.nodeId = dst
  · rw [crashSafe_migrate_of_stay hstay]
    refine (and_iff_left ?_).symm
    exact fun t _ hidx hne => absurd (hstay t hidx) hne
  push Not at hstay
  obtain ⟨t, hidx, hne⟩ := hstay
  have hbounded : t.Bounded := h.short t (List.mem_of_getElem? hidx)
  have htransfer := @always_transfer peers m s dst t.nodeId hne (t.range hbounded)
    (held m s)
  change Cluster.env.Always (scanAndTransferData t.nodeId dst t.startKey t.endKey) _ _ ↔ _
    at htransfer
  refine (always_migrateTablet hidx hne hbounded).trans ?_
  -- with the old file, the transferred pairs are in their places
  have hdone : Cluster.env.Always (scanAndTransferData t.nodeId dst t.startKey t.endKey)
      (OnStores fun file nodes => Recovers peers (held m s) (Has nodes) file) (m, s) →
      ∀ {pairs}, Reported s t.nodeId dst (t.range hbounded) pairs →
        Recovers peers (held m s) (Has (s.transferred dst pairs)) s.files.file := by
    intro hpoints pairs hreported
    have hall := ((always_scanAndTransferData hne (t.range hbounded)).mp hpoints).2 _ pairs
      hreported.scanned (executedPairs (s.connections dst).sends pairs).length
    rwa [List.take_length] at hall
  constructor
  · rintro ⟨hpoints, hrest⟩
    refine ⟨(htransfer.mp hpoints).1, fun t' hbounded' hidx' _ count pairs hscanned => ?_⟩
    obtain rfl : t = t' := Option.some.inj (hidx.symm.trans hidx')
    refine ⟨(htransfer.mp hpoints).2 count pairs hscanned, fun hreported => ?_⟩
    exact (transferStopsSafely_iff h hidx hne (hdone hpoints hreported)).mp (hrest pairs hreported)
  · rintro ⟨hfile, hstops⟩
    have hpoints := htransfer.mpr ⟨hfile, fun count pairs hscanned =>
      (hstops t hbounded hidx hne count pairs hscanned).1⟩
    refine ⟨hpoints, fun pairs hreported => ?_⟩
    exact (transferStopsSafely_iff h hidx hne (hdone hpoints hreported)).mpr
      ((hstops t hbounded hidx hne _ pairs hreported.scanned).2 hreported)

end Actions

/-- A split or a migration is safe at all its points exactly when the file it starts with leads to all
pairs, and what its save comes to does not spoil this. -/
theorem crashSafe_iff {peers : List PeerInfo} {m : Master} {s : Cluster} (h : CrashStart m) :
    (∀ idx, CrashSafe peers m s (.split idx) ↔
      Recovers peers (held m s) (Has s.nodes) s.files.file ∧ SplitStopsSafely peers m s idx) ∧
    (∀ idx dst, CrashSafe peers m s (.migrate idx dst) ↔
      Recovers peers (held m s) (Has s.nodes) s.files.file ∧ MigrationStopsSafely peers m s idx dst) :=
  ⟨fun _ => crashSafe_split h, fun _ _ => crashSafe_migrate h⟩

/-! ## A save that fails -/

/-- The initial table is saved, node 2 holds the key `a`, and the temporary file opens or does not. -/
def savedKey (opens : Bool) : Cluster :=
  { oneKey [] with
    files := ⟨(dump (document initialMaster)).map .text, none⟩
    outcomes := ⟨opens, true, true⟩ }

theorem initialMaster_start : CrashStart initialMaster where
  tiles := tiles_initial 2 3
  short := by
    unfold Boundaries Short
    decide

theorem savedKey_reported (opens : Bool) : Reported (savedKey opens) 2 3
    ⟨[], [0x6D], by decide, by decide⟩ [([0x61], [0x31])] :=
  ⟨⟨rfl, rfl, (oneKey_reported []).scanned.reply⟩, (oneKey_reported []).acknowledged⟩

theorem savedKey_file (opens : Bool) : ∃ text : SavedText, text.1 = document initialMaster ∧
    (savedKey opens).files.file = some (.text text) := by
  have hdump : (document initialMaster).Dumpable := by decide
  have htext : dump (document initialMaster) = some ⟨document initialMaster, hdump⟩ := dif_pos hdump
  exact ⟨⟨document initialMaster, hdump⟩, rfl, congrArg (Option.map FileContent.text) htext⟩

/-- The file leads to all pairs. -/
theorem savedKey_recovers (opens : Bool) : Recovers twoNodes (held initialMaster (savedKey opens))
    (Has (savedKey opens).nodes) (savedKey opens).files.file := by
  obtain ⟨text, htext, hfile⟩ := savedKey_file opens
  rw [hfile, recovers_text, htext]
  exact fun k v hk => ⟨_, initialMaster_start.tiles.routeOf_eq k, hk⟩

/-- Only the owner of the key holds it. -/
theorem savedKey_exclusive (opens : Bool) :
    (World.sharded (initialMaster, savedKey opens)).Exclusive := by
  intro node k hne
  have hlookup : DataNode.lookup (if node = 2 then
      ⟨some ⟨SortedMap.empty.insert [0x61] [0x31], []⟩⟩ else ⟨some ⟨.empty, []⟩⟩) k ≠ none := hne
  split_ifs at hlookup with hnode
  · have hk : k = [0x61] := by
      by_contra hk
      exact hlookup ((SortedMap.find?_insert_of_ne _ _ hk).trans rfl)
    have howner : (World.sharded (initialMaster, savedKey opens)).owner
        = ownerOf initialMaster.tablets := rfl
    rw [hk, hnode, howner]
    decide
  · exact absurd rfl hlookup

/-- The pair that the source's reply holds. -/
theorem savedKey_pairs {opens : Bool} {t : Tablet} {hbounded : t.Bounded} {count : ℕ}
    {pairs : List (Bytes × Bytes)} (hidx : initialMaster.tablets[0]? = some t)
    (h : Scanned (savedKey opens) t.nodeId 3 (t.range hbounded) count pairs) :
    t = ⟨1, [], [0x6D], 2, 0⟩ ∧ pairs = [([0x61], [0x31])] := by
  obtain rfl : ⟨1, [], [0x6D], 2, 0⟩ = t := Option.some.inj hidx
  exact ⟨rfl, (h.unique (savedKey_reported opens).scanned).2⟩

/-- The owners hold the one pair. -/
theorem eq_of_held {opens : Bool} {k v : Bytes}
    (h : held initialMaster (savedKey opens) k = some v) : (k, v) = ([0x61], [0x31]) := by
  have hlookup : DataNode.lookup (if ownerOf initialMaster.tablets k = 2 then
      ⟨some ⟨SortedMap.empty.insert [0x61] [0x31], []⟩⟩ else ⟨some ⟨.empty, []⟩⟩) k = some v := h
  split_ifs at hlookup
  · exact List.mem_singleton.mp (SortedMap.find?_eq_some.mp hlookup)
  · exact absurd (hlookup.symm.trans rfl : some v = none) (by simp)

/-- Where the new table is saved, a migration is safe at all its points. -/
theorem crashSafe_iff_saved : CrashSafe twoNodes initialMaster (savedKey true) (.migrate 0 3) := by
  refine ((crashSafe_iff initialMaster_start).2 0 3).mpr ⟨savedKey_recovers true, ?_⟩
  intro t hbounded hidx _ count pairs hscanned
  obtain ⟨rfl, rfl⟩ := savedKey_pairs hidx hscanned
  constructor
  · -- the pair that is written is the one that is held
    rintro m p - k v hk node - ⟨-, j, e, hwrites, rfl, hne⟩
    obtain ⟨-, hv⟩ := Prod.mk.inj (eq_of_held hk)
    have he : e ∈ [(([0x61] : Bytes), ([0x31] : Bytes))] := List.mem_of_getElem? hwrites.1
    exact hne (hv ▸ List.mem_singleton.mp he ▸ rfl)
  · intro _
    have hout : saveOutcome (savedKey true).outcomes (initialMaster.moveTo 0 3) = .saved := by decide
    rw [TransferStopsSafely, hout]
    intro k v hk _
    obtain ⟨rfl, rfl⟩ := Prod.mk.inj (eq_of_held hk)
    refine .inl ⟨0, ⟨rfl, rfl⟩, fun j e he _ => ?_⟩
    have hlt : j < 1 := (List.getElem?_eq_some_iff.mp he.1).1
    omega

/-- Where the temporary file does not open, the range is deleted at the node that the file leads to. -/
theorem not_crashSafe_unsaved : ¬∀ (peers : List PeerInfo) (m : Master) (s : Cluster)
    (a : BalancerAction), CrashStart m → (World.sharded (m, s)).Exclusive →
    Recovers peers (held m s) (Has s.nodes) s.files.file → CrashSafe peers m s a := by
  intro hall
  have hsafe := hall twoNodes _ _ (.migrate 0 3) initialMaster_start (savedKey_exclusive false)
    (savedKey_recovers false)
  obtain ⟨text, htext, hfile⟩ := savedKey_file false
  have hreported := savedKey_reported false
  have havoids := (((crashSafe_migrate initialMaster_start).mp hsafe).2 ⟨1, [], [0x6D], 2, 0⟩
    ⟨by decide, by decide⟩ rfl (by decide) _ _ hreported.scanned).2 hreported
  have hout : saveOutcome (savedKey false).outcomes (initialMaster.moveTo 0 3) = .kept := by decide
  rw [TransferStopsSafely, hout, hfile] at havoids
  refine havoids rfl _ _ rfl [0x61] [0x31] (by decide) 2 ?_ ⟨rfl, by decide⟩
  show routeOf text.1.tablets [0x61] = some 2
  rw [htext]
  decide

end LeKV
