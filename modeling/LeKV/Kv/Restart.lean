import LeKV.Kv.Readers
import LeKV.Kv.MigrationSafety
import LeKV.Kv.SavedTable

/-!
# Starting the Master (`kv/raft_node.cpp`)

The constructor loads `tablets.json`, whatever peers the Master that wrote it had, and builds the
initial table where it cannot. `MasterRun` are the files that any number of Masters leave, one after
the other, each stopped at any point. `startUsable_iff` says when the table a Master starts with is
usable under its own peers.
-/

namespace LeKV

open Bytes BinaryProtocol Balancer

/-- The start of a Master under `peers`, on the content of `tablets.json`: the members, and what the
constructor does then. `none` is an index outside `data_nodes`. -/
def startUp (peers : List PeerInfo) (file : Option FileContent) : Option (Master × Balancer Unit) :=
  match loadTablets file Master.init with
  | (true, m) => some (m, return ())
  | (false, m) => (buildInitialTablets peers).map fun tablets => ({ m with tablets }, saveTablets)

/-- The files after any number of Masters, and the one that runs, with its peers and members: a
Master starts, completes actions, and stops anywhere. The DataNodes, the connections and the outcomes
of the file operations are others each time. -/
inductive MasterRun : Option (List PeerInfo × Master) → Files → Prop where
  | none : MasterRun none ⟨none, none⟩
  | start {x : Option (List PeerInfo × Master)} {s : Cluster} {peers : List PeerInfo} {m : Master}
      {p : Balancer Unit} {w' : Master × Cluster} (h : MasterRun x s.files)
      (hstart : startUp peers s.files.file = some (m, p))
      (hrun : Cluster.env.run p (m, s) = (some (), w')) :
      MasterRun (some (peers, w'.1)) w'.2.files
  | stopStart {x : Option (List PeerInfo × Master)} {s : Cluster} {peers : List PeerInfo} {m : Master}
      {p : Balancer Unit} {o : MasterOp} {w' : Master × Cluster} (h : MasterRun x s.files)
      (hstart : startUp peers s.files.file = some (m, p))
      (hvisit : (o, w') ∈ Cluster.env.visits p (m, s)) : MasterRun none w'.2.files
  | act {s : Cluster} {peers : List PeerInfo} {m : Master} {a : BalancerAction} {ok : Bool}
      {w' : Master × Cluster} (h : MasterRun (some (peers, m)) s.files)
      (hrun : Cluster.env.run a.prog (m, s) = (some ok, w')) :
      MasterRun (some (peers, w'.1)) w'.2.files
  | stop {s : Cluster} {peers : List PeerInfo} {m : Master} {a : BalancerAction} {o : MasterOp}
      {w' : Master × Cluster} (h : MasterRun (some (peers, m)) s.files)
      (hvisit : (o, w') ∈ Cluster.env.visits a.prog (m, s)) : MasterRun none w'.2.files

/-! ## What is in the files -/

/-- A table that tiles the key space, or the empty one of a Master without DataNodes. -/
def EmptyOrTiles (tablets : List Tablet) : Prop := tablets = [] ∨ Tiles tablets

theorem tableInvariant_emptyOrTiles : TableInvariant EmptyOrTiles where
  keep h hts := by
    refine h.imp (fun hnil => ?_) fun h => tableInvariant_tiles.keep h hts
    rw [hnil] at hts
    exact List.map_eq_nil_iff.mp hts
  split keyCount h hidx hpoint := by
    refine .inr (tableInvariant_tiles.split keyCount (h.resolve_left fun hnil => ?_) hidx hpoint)
    rw [hnil] at hidx
    exact absurd hidx (by simp)
  move h hidx := by
    refine .inr (tableInvariant_tiles.move (h.resolve_left fun hnil => ?_) hidx)
    rw [hnil] at hidx
    exact absurd hidx (by simp)

/-- A table that is read from the content has `T`. -/
def ContentHas (T : List Tablet → Prop) (content : Option FileContent) : Prop :=
  ∀ c ∈ content, ∀ d, c.parse = some d → T d.tablets

/-- Both files hold tables with `T`. -/
structure FilesHave (T : List Tablet → Prop) (files : Files) : Prop where
  file : ContentHas T files.file
  tmp : ContentHas T files.tmp

section Files

variable {T : List Tablet → Prop}

theorem ContentHas.none : ContentHas T none := fun _ hc => absurd hc (by simp)

theorem ContentHas.torn : ContentHas T (some .torn) := by
  rintro c ⟨⟩ d hd
  exact absurd hd (by simp [FileContent.parse])

theorem ContentHas.text {m : Master} {text : SavedText} (h : T m.tablets)
    (hdump : dump (document m) = some text) : ContentHas T (some (.text text)) := by
  rintro c ⟨⟩ d hd
  obtain rfl := Option.some.inj hd
  rw [dump_eq_some hdump]
  exact h

theorem files_send (s : Cluster) (node : UInt32) (data : Bytes) :
    (s.send node data).files = s.files := by
  unfold Cluster.send
  dsimp only
  split_ifs <;> rfl

/-- An operation that writes at most a table with `T` leaves files with `T`. -/
theorem FilesHave.step {x : MasterOp × (Master × Cluster)} {r : MasterOp.Res x.1}
    {w : Master × Cluster} (hwrite : ∀ text, x.1 = .writeTmp text → ContentHas T (some (.text text)))
    (h : FilesHave T x.2.2.files) (hx : Cluster.env.handler x.1 x.2 = some (r, w)) :
    FilesHave T w.2.files := by
  obtain ⟨o, m, s⟩ := x
  cases o with
  | get =>
    obtain ⟨-, rfl⟩ := Prod.mk.inj (Option.some.inj hx)
    exact h
  | modify f =>
    obtain ⟨-, rfl⟩ := Prod.mk.inj (Option.some.inj hx)
    exact h
  | isConnected node =>
    obtain ⟨-, rfl⟩ := Prod.mk.inj (Option.some.inj hx)
    exact h
  | send node data =>
    obtain ⟨-, rfl⟩ := Prod.mk.inj (Option.some.inj hx)
    show FilesHave T (s.send node data).files
    rw [files_send]
    exact h
  | recvFrame node t =>
    obtain ⟨-, rfl⟩ := Prod.mk.inj (Option.some.inj hx)
    exact h
  | openTmp =>
    obtain ⟨-, rfl⟩ := Prod.mk.inj (Option.some.inj hx)
    show FilesHave T (if s.outcomes.opens then s.tmpOpened else s).files
    split_ifs
    · exact ⟨h.file, .torn⟩
    · exact h
  | writeTmp text =>
    obtain ⟨-, rfl⟩ := Prod.mk.inj (Option.some.inj hx)
    refine ⟨h.file, ?_⟩
    -- a write that fails leaves a torn file, under its temporary name
    show ContentHas T (some (if s.outcomes.writes then .text text else .torn))
    split_ifs
    · exact hwrite text rfl
    · exact .torn
  | renameTmp =>
    obtain ⟨-, rfl⟩ := Prod.mk.inj (Option.some.inj hx)
    show FilesHave T s.tmpRenamed.files
    unfold Cluster.tmpRenamed
    split_ifs
    · exact ⟨h.tmp, .none⟩
    · exact h
  | now =>
    obtain ⟨-, rfl⟩ := Prod.mk.inj (Option.some.inj hx)
    exact h
  | terminate => exact r.elim

/-- A program that saves tables with `T` only, leaves files with `T` at every point. -/
theorem FilesHave.run {α : Type} {p : Balancer α} {w : Master × Cluster}
    (hsaved : ∀ x ∈ Cluster.env.visits p w, ∀ text, x.1 = .writeTmp text →
      ContentHas T (some (.text text))) (h : FilesHave T w.2.files) :
    (∀ x ∈ Cluster.env.visits p w, FilesHave T x.2.2.files) ∧
      FilesHave T (Cluster.env.run p w).2.2.files :=
  Effects.Prog.run_of_visits Cluster.env.handler (J := fun w => FilesHave T w.2.files)
    (fun x hx hJ _ _ hrun => hJ.step (hsaved x hx) hrun) h

theorem Settled.contentHas {σ : Type} {x : MasterOp × (Master × σ)} (h : Settled T x)
    (text : SavedText) (hx : x.1 = .writeTmp text) : ContentHas T (some (.text text)) :=
  .text h.table (h.saved text hx)

/-- An action on a table with `T` leaves files with `T` at every point. -/
theorem FilesHave.action (hT : TableInvariant T) (a : BalancerAction) {w : Master × Cluster}
    (hm : T w.1.tablets) (h : FilesHave T w.2.files) :
    (∀ x ∈ Cluster.env.visits a.prog w, FilesHave T x.2.2.files) ∧
      FilesHave T (Cluster.env.run a.prog w).2.2.files := by
  apply h.run
  intro x hx text htext
  rcases settled_or_halfSplit hT hm a hx with hsettled | ⟨idx, old, keyCount, median, -, -, -, hop⟩
  · exact hsettled.contentHas text htext
  · rw [hop] at htext
    exact absurd htext (by simp)

theorem TableInvariant.change (hT : TableInvariant T) {connected : UInt32 → Prop} {m m' : Master}
    (h : T m.tablets) (hchange : TableChange connected m m') : T m'.tablets := by
  cases hchange with
  | keep htablets hid hepoch => exact hT.keep h htablets
  | split keyCount hidx hpoint => exact hT.split keyCount h hidx hpoint
  | move hidx hne hdst htablets hid hepoch =>
    rw [htablets]
    exact hT.move h hidx

end Files

/-! ## The start -/

theorem emptyOrTiles_initial {peers : List PeerInfo} {tablets : List Tablet}
    (h : buildInitialTablets peers = some tablets) : EmptyOrTiles tablets := by
  unfold buildInitialTablets at h
  rcases hdn : dataNodes peers with _ | ⟨a, _ | ⟨b, l⟩⟩
  · rw [hdn] at h
    exact .inl (Option.some.inj h).symm
  · rw [hdn] at h
    exact absurd h (by simp)
  · rw [hdn] at h
    exact .inr (Option.some.inj h ▸ tiles_initial a b)

/-- A Master starts with the table it has loaded, or with the initial one. -/
theorem startUp_cases {peers : List PeerInfo} {file : Option FileContent} {m : Master}
    {p : Balancer Unit} (h : startUp peers file = some (m, p)) :
    (∃ c d, file = some c ∧ c.parse = some d ∧ m.tablets = d.tablets ∧ p = return ()) ∨
      (file.bind FileContent.parse = none ∧ buildInitialTablets peers = some m.tablets ∧
        p = saveTablets) := by
  have hbuild : ∀ {m₀ : Master},
      (buildInitialTablets peers).map (fun tablets => ({ m₀ with tablets }, saveTablets))
        = some (m, p) → buildInitialTablets peers = some m.tablets ∧ p = saveTablets := by
    intro m₀ hmap
    obtain ⟨tablets, hinit, heq⟩ := Option.map_eq_some_iff.mp hmap
    obtain ⟨rfl, rfl⟩ := Prod.mk.inj heq
    exact ⟨hinit, rfl⟩
  unfold startUp loadTablets at h
  rcases file with _ | c
  · exact .inr ⟨rfl, hbuild h⟩
  · dsimp only at h
    rcases hparse : c.parse with _ | d
    · rw [hparse] at h
      exact .inr ⟨hparse, hbuild h⟩
    · rw [hparse] at h
      obtain ⟨rfl, rfl⟩ := Prod.mk.inj (Option.some.inj h)
      exact .inl ⟨c, d, rfl, hparse, rfl, rfl⟩

/-- The start of a Master on files with usable tables. -/
theorem startUp_spec {peers : List PeerInfo} {s : Cluster} {m : Master} {p : Balancer Unit}
    (hfiles : FilesHave EmptyOrTiles s.files) (h : startUp peers s.files.file = some (m, p)) :
    EmptyOrTiles m.tablets ∧ (∀ x ∈ Cluster.env.visits p (m, s), Settled EmptyOrTiles x) ∧
      (Cluster.env.run p (m, s)).2.1 = m := by
  rcases startUp_cases h with ⟨c, d, hfile, hparse, htablets, rfl⟩ | ⟨-, hinit, rfl⟩
  · refine ⟨?_, fun x hx => absurd hx List.not_mem_nil, rfl⟩
    rw [htablets]
    exact hfiles.file c hfile d hparse
  · have htable := emptyOrTiles_initial hinit
    refine ⟨htable, fun x hx => .of_saveTablets htable hx, ?_⟩
    obtain ⟨r, s', hrun, -⟩ := Environment.run_saveTablets (keepsFiles_true Cluster.env) m
      (s := s) trivial
    rw [hrun]

/-- All tables that Masters have, or leave in their files, are empty or tile the key space. -/
theorem MasterRun.spec {x : Option (List PeerInfo × Master)} {files : Files}
    (h : MasterRun x files) :
    (∀ y ∈ x, EmptyOrTiles y.2.tablets) ∧ FilesHave EmptyOrTiles files := by
  induction h with
  | none => exact ⟨fun y hy => absurd hy (by simp), .none, .none⟩
  | @start x s peers m p w' h hstart hrun ih =>
    obtain ⟨htable, hvisits, hmembers⟩ := startUp_spec ih.2 hstart
    have hfiles := ih.2.run (p := p) (w := (m, s)) fun x hx => (hvisits x hx).contentHas
    rw [hrun] at hmembers hfiles
    refine ⟨?_, hfiles.2⟩
    rintro y ⟨⟩
    exact hmembers ▸ htable
  | @stopStart x s peers m p o w' h hstart hvisit ih =>
    obtain ⟨-, hvisits, -⟩ := startUp_spec ih.2 hstart
    have hfiles := ih.2.run (p := p) (w := (m, s)) fun x hx => (hvisits x hx).contentHas
    exact ⟨fun y hy => absurd hy (by simp), hfiles.1 _ hvisit⟩
  | @act s peers m a ok w' h hrun ih =>
    have hm : EmptyOrTiles m.tablets := ih.1 (peers, m) rfl
    have hfiles := FilesHave.action tableInvariant_emptyOrTiles a (w := (m, s)) hm ih.2
    have hchange := after_change Cluster.env m s a
    rw [BalancerAction.after, hrun] at hchange
    rw [hrun] at hfiles
    refine ⟨?_, hfiles.2⟩
    rintro y ⟨⟩
    exact tableInvariant_emptyOrTiles.change hm hchange
  | @stop s peers m a o w' h hvisit ih =>
    have hm : EmptyOrTiles m.tablets := ih.1 (peers, m) rfl
    have hfiles := FilesHave.action tableInvariant_emptyOrTiles a (w := (m, s)) hm ih.2
    exact ⟨fun y hy => absurd hy (by simp), hfiles.1 _ hvisit⟩

/-! ## The result -/

/-- The id is that of a DataNode. -/
def IsDataNode (peers : List PeerInfo) (node : UInt32) : Prop :=
  ∃ p ∈ peers, p.port ≠ LEADER_PORT ∧ p.id = node.toUInt64

/-- A usable start: the table tiles the key space, and every key has a route to a DataNode with an
address. -/
structure StartUsable (peers : List PeerInfo) (tablets : List Tablet) : Prop where
  tiling : Tiling tablets
  nodes : ∀ t ∈ tablets, IsDataNode peers t.nodeId
  address : ∀ key, ∃ t, getTabletRoute tablets key = some t ∧ getNodeAddr peers t.nodeId ≠ []

/-- What `tablets.json` and the peers have to be for it: the saved table is not empty and its nodes
are DataNodes among the peers; or there is none, and the first two DataNodes have ids that survive
their narrowing. -/
def StartsWell (peers : List PeerInfo) (file : Option FileContent) : Prop :=
  match file.bind FileContent.parse with
  | some d => d.tablets ≠ [] ∧ ∀ t ∈ d.tablets, IsDataNode peers t.nodeId
  | none => ∀ node ∈ (dataNodes peers).take 2, IsDataNode peers node

theorem IsDataNode.addr_ne_nil {peers : List PeerInfo} {node : UInt32} (h : IsDataNode peers node) :
    getNodeAddr peers node ≠ [] := by
  obtain ⟨p, hp, -, hid⟩ := h
  unfold getNodeAddr
  rcases hfind : peers.find? fun p => p.id = node.toUInt64 with _ | q
  · exact absurd (List.find?_eq_none.mp hfind p hp) (by simp [hid])
  · rw [hfind]
    exact List.append_ne_nil_of_right_ne_nil _ (List.cons_ne_nil _ _)

theorem Tiles.startUsable_spec {peers : List PeerInfo} {tablets : List Tablet} (h : Tiles tablets) :
    StartUsable peers tablets ↔ ∀ t ∈ tablets, IsDataNode peers t.nodeId := by
  refine ⟨StartUsable.nodes, fun hnodes => ⟨h.tiling, hnodes, fun key => ?_⟩⟩
  obtain ⟨t, ht, hroute, -⟩ := h.getTabletRoute_isSome key
  exact ⟨t, hroute, (hnodes t ht).addr_ne_nil⟩

/-- On files left by any earlier Masters, under any peers, a Master that gets through its constructor
has a usable table exactly when the file and its own peers fit together. -/
theorem startUsable_iff {x : Option (List PeerInfo × Master)} {files : Files} (h : MasterRun x files)
    {peers : List PeerInfo} (hnodes : dataNodes peers ≠ []) {m : Master} {p : Balancer Unit}
    (hstart : startUp peers files.file = some (m, p)) :
    StartUsable peers m.tablets ↔ StartsWell peers files.file := by
  unfold StartsWell
  rcases startUp_cases hstart with ⟨c, d, hfile, hparse, htablets, -⟩ | ⟨hnone, hinit, -⟩
  · have htable := h.spec.2.file c hfile d hparse
    rw [hfile, Option.bind_some, hparse, htablets]
    rcases htable with hnil | htiles
    · refine iff_of_false (fun husable => ?_) fun hwell => hwell.1 hnil
      exact husable.tiling.ne_nil hnil
    · rw [htiles.startUsable_spec]
      exact (and_iff_right htiles.ne_nil).symm
  · rw [hnone]
    unfold buildInitialTablets at hinit
    rcases hdn : dataNodes peers with _ | ⟨a, _ | ⟨b, l⟩⟩
    · exact absurd hdn hnodes
    · rw [hdn] at hinit
      exact absurd hinit (by simp)
    · rw [hdn] at hinit
      rw [← Option.some.inj hinit, (tiles_initial a b).startUsable_spec]
      simp

/-- The first start of all, with two DataNodes. -/
theorem startUsable_first : StartUsable twoNodes initialMaster.tablets := by
  apply (startUsable_iff (m := initialMaster) (p := saveTablets) .none (by decide) rfl).mpr
  show ∀ node ∈ (dataNodes twoNodes).take 2, IsDataNode twoNodes node
  simp [twoNodes, dataNodes, LEADER_PORT, IsDataNode]

/-- The same host with two other DataNodes. -/
def otherNodes : List PeerInfo :=
  [⟨1, [0x31], 9001⟩, ⟨4, [0x31], 9002⟩, ⟨5, [0x31], 9003⟩]

/-- The files that the first start under `twoNodes` leaves. -/
theorem masterRun_first : ∃ text : SavedText, text.1 = document initialMaster ∧
    MasterRun (some (twoNodes, initialMaster)) ⟨some (.text text), none⟩ := by
  have hdump : (document initialMaster).Dumpable := by decide
  have hrun : Cluster.env.run saveTablets (initialMaster, Cluster.quiet)
      = (some (), (initialMaster, { Cluster.quiet with
          files := ⟨some (.text ⟨document initialMaster, hdump⟩), none⟩ })) := by
    rw [run_saveTablets_eq, dump, dif_pos hdump]
    rfl
  exact ⟨⟨_, hdump⟩, rfl, MasterRun.start (s := Cluster.quiet) .none rfl hrun⟩

/-- A Master whose peers have changed routes to DataNodes that it does not know. -/
theorem not_startUsable_otherNodes : ¬∀ (x : Option (List PeerInfo × Master)) (files : Files),
    MasterRun x files → ∀ peers : List PeerInfo, dataNodes peers ≠ [] →
    ∀ (m : Master) (p : Balancer Unit), startUp peers files.file = some (m, p) →
    StartUsable peers m.tablets := by
  intro hall
  obtain ⟨text, htext, hfiles⟩ := masterRun_first
  have husable := hall _ _ hfiles otherNodes (by decide) _ _ rfl
  obtain ⟨p, hp, -, hid⟩ := husable.nodes ⟨1, [], [0x6D], 2, 0⟩ (by
    show _ ∈ text.1.tablets
    rw [htext]
    decide)
  revert p
  decide

end LeKV
