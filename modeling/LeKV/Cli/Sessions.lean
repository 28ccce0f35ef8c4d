import LeKV.Cli.Deployment
import LeKV.Kv.Healthy
import LeKV.Kv.Provenance

/-!
# Any number of clients see one map

`Sessions` are the states of a whole deployment: clients enter lines at their terminals, one line at a
time, with balancer actions in between. `sessions_one_map` says what the next line prints at any
terminal: the answer of the one map that all operations so far have made. Boundaries stay readable,
because splits take them from keys that clients wrote.
-/

namespace LeKV

open Bytes BinaryProtocol Text

/-! ## The deployment -/

/-- A client process: its members, its connections, and whether it still runs. -/
structure Terminal where
  cli : LekvCli
  links : Links
  running : Bool

/-- The servers and the clients. -/
structure Deployment where
  world : World
  terminals : ℕ → Terminal

/-- One turn of the loop of `LekvCli::Run` at a terminal. `none` where the client does not run any more,
or is terminated by an exception. -/
def Deployment.enter (net : Network) (d : Deployment) (i : ℕ) (line : Bytes) : Option Deployment :=
  if (d.terminals i).running then
    match net.env.run (Cli.execute line) ((d.terminals i).cli, (d.world, (d.terminals i).links)) with
    | (some ending, (c, (w, links))) =>
      some ⟨w, Function.update d.terminals i ⟨c, links, decide (ending ≠ .exited)⟩⟩
    | (none, _) => none
  else none

/-- What a terminal shows. -/
def Deployment.shows (d : Deployment) (i : ℕ) : List Printed := (d.terminals i).cli.printed

/-- The operation of a line fits its request, and its key has no colon. -/
def LineFits (line : Bytes) : Prop :=
  ∀ o, (Command.ofLine line).op? = some o → o.Fits ∧ COLON ∉ o.key

/-- The operations of the lines entered. -/
def opsOf (lines : List (ℕ × Bytes)) : List ClientOp :=
  lines.filterMap fun e => (Command.ofLine e.2).op?

/-- The states after the lines `lines`, in this order, with balancer actions that run to their end in
between. The table fits a frame whenever a client may ask for it. -/
inductive Sessions (net : Network) (d₀ : Deployment) : List (ℕ × Bytes) → Deployment → Prop where
  | start : Sessions net d₀ [] d₀
  | line {lines : List (ℕ × Bytes)} {d d' : Deployment} {i : ℕ} {line : Bytes}
      (h : Sessions net d₀ lines d) (hfits : LineFits line)
      (htext : 15 + (shardsBody net.peers d.world.1.tablets).length < 2 ^ 32)
      (henter : d.enter net i line = some d') : Sessions net d₀ (lines ++ [(i, line)]) d'
  | action {lines : List (ℕ × Bytes)} {d : Deployment} (h : Sessions net d₀ lines d)
      (a : BalancerAction) (hfits : a.Fits d.world) (outcomes : FileOutcomes) (clock : List ℤ) {ok : Bool}
      {w' : World} (hrun : Cluster.env.run a.prog (d.world.1, { d.world.2 with outcomes, clock })
        = (some ok, w')) : Sessions net d₀ lines ⟨w', d.terminals⟩

/-- A deployment with empty stores, whose clients can reach the Master. -/
structure Deployed (net : Network) (d₀ : Deployment) : Prop where
  configured : Configured net
  start : Start net.peers d₀.world
  calm : NoReplies d₀.world
  clients : ∀ i, CalmClient net (d₀.terminals i).cli (d₀.terminals i).links

/-! ## Tables that clients can read -/

/-- A tiling table with plain boundaries comes back from its text. -/
theorem fetchRouteTable_plain {peers : List PeerInfo} (hpeers : ConfiguredPeers peers)
    {tablets : List Tablet} (htiles : Tiles tablets) (hnode : ∀ t ∈ tablets, t.nodeId ∈ dataNodes peers)
    (hplain : Boundaries PlainKey tablets) :
    fetchRouteTable (shardsPayload peers tablets) = some (true, tablets.map (Tablet.cached peers)) := by
  have hwords : ∀ w ∈ tablets.map (shardSegment peers), w ≠ [] ∧ ∀ b ∈ w, isSpace b = false := by
    intro w hw
    obtain ⟨t, ht, rfl⟩ := List.mem_map.mp hw
    exact shardSegment_word hpeers (hnode t ht) (hplain t ht).1 (hplain t ht).2
  have hparse : (tablets.map (shardSegment peers)).mapM parseSegment
      = some ((tablets.map (Tablet.cached peers)).map some) := by
    rw [List.mapM_map, List.map_map]
    exact mapM_some fun t ht =>
      parseSegment_shardSegment hpeers (hnode t ht) (hplain t ht).1 (hplain t ht).2
  have hfilter : ((tablets.map (Tablet.cached peers)).map some).filterMap id
      = tablets.map (Tablet.cached peers) := by
    rw [List.filterMap_map, Function.id_comp, List.filterMap_some]
  have hsorted : (tablets.map (Tablet.cached peers)).Pairwise fun a b => a.start ≤ b.start :=
    List.pairwise_map.mpr (htiles.starts_increase.imp fun hlt => hlt.le)
  have hne : (tablets.map (Tablet.cached peers)).isEmpty = false := by simpa using htiles.ne_nil
  rw [fetchRouteTable_shardsPayload, words_intercalate (by decide) hwords, hparse]
  simp only [hfilter, hsorted.insertionSort_eq, hne, Bool.not_false]

/-! ## Keys that clients type -/

/-- The key of an operation is a word of the line, so it is plain if it has no colon. -/
theorem LineFits.plainKey {line : Bytes} (h : LineFits line) {o : ClientOp}
    (ho : (Command.ofLine line).op? = some o) : PlainKey o.key := by
  have hcolon := (h o ho).2
  rcases Command.ofLine_cases line with hnone | ⟨cmd, is, -, hline⟩
  · exact absurd (ho.symm.trans hnone) (Option.some_ne_none o)
  · rw [hline] at ho
    obtain rfl := Option.some.inj ho
    rw [Command.key_opOf] at hcolon ⊢
    exact fun b hb => ⟨fun heq => hcolon (heq ▸ hb), InputStream.isSpace_of_mem_extract hb⟩

/-- A value of the map was written. -/
theorem put_of_mapAfter {ops : List ClientOp} {k v : Bytes} (h : mapAfter ops k = some v) :
    .put k v ∈ ops := by
  induction ops using List.reverseRecOn with
  | nil => exact absurd h (by simp [mapAfter])
  | append_singleton ops o ih =>
    rw [mapAfter_append] at h
    by_cases hold : mapAfter ops k = some v
    · exact List.mem_append_left _ (ih hold)
    cases o with
    | put key value =>
      have hput : Function.update (mapAfter ops) key (some value) k = some v := h
      rw [Function.update_apply] at hput
      split_ifs at hput with hkey
      · rw [hkey, ← Option.some.inj hput]
        exact List.mem_append_right _ List.mem_cons_self
      · exact absurd hput hold
    | get key => exact absurd h hold
    | delete key =>
      have hdelete : Function.update (mapAfter ops) key none k = some v := h
      rw [Function.update_apply] at hdelete
      split_ifs at hdelete
      exact absurd hdelete hold

/-! ## Runs of the cluster -/

section Runs

variable {peers : List PeerInfo} {w₀ w : World} {ops : List ClientOp}

/-- No run opens or closes a management connection. -/
theorem Run.connected (h : Run w₀ ops w) (node : UInt32) :
    (w.2.connections node).connected = (w₀.2.connections node).connected := by
  induction h with
  | start => rfl
  | @client ops w w' o reqId resp h hfits hexec ih =>
    obtain ⟨t, -, hexec⟩ := Option.bind_eq_some_iff.mp hexec
    obtain ⟨⟨resp', n⟩, -, hw⟩ := Option.bind_eq_some_iff.mp hexec
    obtain ⟨-, rfl⟩ := Prod.mk.inj (Option.some.inj hw)
    exact ih
  | @action ops w h a hfits outcomes clock ok w' hrun ih =>
    have hkeep := Cluster.connected_run a.prog (w.1, { w.2 with outcomes, clock }) node
    rw [hrun] at hkeep
    exact hkeep.trans ih

theorem Run.fits (h : Run w₀ ops w) : ∀ o ∈ ops, o.Fits := by
  induction h with
  | start => exact fun o ho => absurd ho List.not_mem_nil
  | client h hfits hexec ih =>
    intro o ho
    rcases List.mem_append.mp ho with ho | ho
    · exact ih o ho
    · rw [List.mem_singleton.mp ho]
      exact hfits
  | action h a hfits outcomes clock hrun ih => exact ih

/-- A run without failures is one of those with failures. -/
theorem Run.faulty (h : Run w₀ ops w) : FaultyRun (fun w a => a.Fits w) w₀ ops w := by
  induction h with
  | start => exact .start
  | client h hfits hexec ih => exact .client ih hfits hexec
  | @action ops w h a hfits outcomes clock ok w' hrun ih =>
    exact .action ih a (s := { w.2 with outcomes, clock }) ⟨rfl, fun node => ⟨_, _, _, rfl⟩⟩ hfits hrun

/-- Every tablet is on a DataNode. -/
theorem Run.nodes (hstart : Start peers w₀) (h : Run w₀ ops w) :
    ∀ t ∈ w.1.tablets, t.nodeId ∈ dataNodes peers := fun t ht =>
  (hstart.connected t.nodeId).mp ((h.connected t.nodeId).symm.trans ((h.healthy hstart).connected t ht))

/-- The values of the map fit the replies that carry them. -/
theorem Run.values (h : Run w₀ ops w) {k v : Bytes} (hk : mapAfter ops k = some v) :
    15 + v.length < 2 ^ 32 := by
  have hfits : 17 + k.length + v.length < 2 ^ 32 := (h.fits _ (put_of_mapAfter hk)).2
  omega

/-- The boundaries of the first table are the ends and `m`. -/
theorem boundaries_initial {P : Bytes → Prop} (hnil : P []) (hm : P [0x6D]) {tablets : List Tablet}
    (hinit : buildInitialTablets peers = some tablets) : Boundaries P tablets := by
  unfold buildInitialTablets at hinit
  rcases hdn : dataNodes peers with _ | ⟨a, _ | ⟨b, l⟩⟩
  · rw [hdn] at hinit
    obtain rfl := Option.some.inj hinit
    exact fun t ht => absurd ht List.not_mem_nil
  · rw [hdn] at hinit
    exact absurd hinit (by simp)
  · rw [hdn] at hinit
    obtain rfl := Option.some.inj hinit
    simp [Boundaries, hnil, hm]

/-- Boundaries are the first ones or keys that were written. -/
theorem Run.boundaries {P : Bytes → Prop} (hnil : P []) (hm : P [0x6D]) (hstart : Start peers w₀)
    (hcalm : NoReplies w₀) (h : Run w₀ ops w) (hputs : ∀ k v, .put k v ∈ ops → P k) :
    Boundaries P w.1.tablets := by
  have hfirst : ∀ key, IsBoundary w₀.1.tablets key → P key := by
    obtain ⟨tablets, hinit, hmaster⟩ := hstart.tablets
    rintro key ⟨t, ht, hkey⟩
    rw [hmaster] at ht
    have hboundary := boundaries_initial (P := P) hnil hm hinit t ht
    rcases hkey with rfl | rfl
    · exact hboundary.1
    · exact hboundary.2
  have hwritten : ∀ key v, Written w₀ ops key v → P key := by
    rintro key v (⟨node, hnode⟩ | hput)
    · rw [hstart.empty node] at hnode
      exact absurd hnode (Option.some_ne_none v).symm
    · exact hputs key v hput
  intro t ht
  obtain ⟨hs, he⟩ := (h.faulty.traced hcalm).known t ht
  exact ⟨hs.elim (hfirst _) fun ⟨v, hv⟩ => hwritten _ v hv,
    he.elim (hfirst _) fun ⟨v, hv⟩ => hwritten _ v hv⟩

end Runs

/-! ## Sessions -/

/-- The invariant of a session: the cluster has run the operations of the lines, all on plain keys, and
the clients are calm. -/
structure InSession (net : Network) (d₀ : Deployment) (lines : List (ℕ × Bytes)) (d : Deployment) :
    Prop where
  run : Run d₀.world (opsOf lines) d.world
  plain : ∀ o ∈ opsOf lines, PlainKey o.key
  clients : ∀ i, CalmClient net (d.terminals i).cli (d.terminals i).links

/-- One line, on a cluster that has run `ops` and a table that the clients can read: it is answered by
the map of the operations. -/
theorem Deployment.enter_spec {net : Network} {w₀ : World} {ops : List ClientOp} {d : Deployment}
    (hnet : Configured net) (hstart : Start net.peers w₀) (hrun : Run w₀ ops d.world)
    (hclients : ∀ i, CalmClient net (d.terminals i).cli (d.terminals i).links)
    (htable : TableReadable net.peers d.world.1) {i : ℕ} {line : Bytes}
    (hrunning : (d.terminals i).running = true)
    (hfits : ∀ o, (Command.ofLine line).op? = some o → o.Fits) :
    ∃ d', d.enter net i line = some d' ∧
      d'.shows i = d.shows i ++ (Command.ofLine line).answer (mapAfter ops)
        (d.world.1.tablets.map (Tablet.cached net.peers)) ∧
      ((d'.terminals i).running = true ↔ Command.ofLine line ≠ .exit) ∧
      (∀ j, j ≠ i → d'.terminals j = d.terminals j) ∧
      Run w₀ (ops ++ ((Command.ofLine line).op?).toList) d'.world ∧
      ∀ j, CalmClient net (d'.terminals j).cli (d'.terminals j).links := by
  have hhealthy := hrun.healthy hstart
  obtain ⟨c', w', links', hcommand, hprinted, hclient, hexec⟩ := run_command hnet (hclients i)
    htable hhealthy.toRefines (hrun.nodes hstart) (fun k v => hrun.values)
    (Command.worded_ofLine line) hfits
  rw [← Command.execute_eq] at hcommand
  refine ⟨_, by rw [Deployment.enter, if_pos hrunning, hcommand], ?_, ?_, fun j hj => ?_, ?_,
    fun j => ?_⟩
  · show (Function.update d.terminals i _ i).cli.printed = _
    rw [Function.update_self]
    exact hprinted
  · show (Function.update d.terminals i _ i).running = true ↔ _
    rw [Function.update_self, decide_eq_true_iff]
    cases Command.ofLine line <;> simp [Command.ending]
  · exact Function.update_of_ne hj _ _
  · rcases hop : (Command.ofLine line).op? with _ | o
    · rw [hop] at hexec
      rw [Option.toList_none, List.append_nil, hexec]
      exact hrun
    · rw [hop] at hexec
      obtain ⟨reqId, resp, hexec⟩ := hexec
      exact .client hrun (hfits o hop) hexec
  · by_cases hj : j = i
    · subst hj
      simp only [Function.update_self]
      exact hclient
    · simp only [Function.update_of_ne hj]
      exact hclients j

section Steps

variable {net : Network} {d₀ d d' : Deployment} {lines : List (ℕ × Bytes)}

/-- One line: it is answered by the map of the operations before it. -/
theorem InSession.enter (hdep : Deployed net d₀) (h : InSession net d₀ lines d) {i : ℕ} {line : Bytes}
    (hrunning : (d.terminals i).running = true) (hfits : LineFits line)
    (htext : 15 + (shardsBody net.peers d.world.1.tablets).length < 2 ^ 32) :
    ∃ d', d.enter net i line = some d' ∧
      d'.shows i = d.shows i ++ (Command.ofLine line).answer (mapAfter (opsOf lines))
        (d.world.1.tablets.map (Tablet.cached net.peers)) ∧
      ((d'.terminals i).running = true ↔ Command.ofLine line ≠ .exit) ∧
      (∀ j, j ≠ i → d'.terminals j = d.terminals j) ∧
      InSession net d₀ (lines ++ [(i, line)]) d' := by
  have hplain : Boundaries PlainKey d.world.1.tablets := h.run.boundaries (by decide +kernel)
    (by decide +kernel) hdep.start hdep.calm fun k v hput => h.plain _ hput
  have htable : TableReadable net.peers d.world.1 := ⟨htext, fetchRouteTable_plain
    hdep.configured.peers (h.run.healthy hdep.start).tiles (h.run.nodes hdep.start) hplain⟩
  obtain ⟨d', henter, hshows, hrunning', hothers, hrun, hclients⟩ := Deployment.enter_spec
    hdep.configured hdep.start h.run h.clients htable hrunning fun o ho => (hfits o ho).1
  have hops : opsOf (lines ++ [(i, line)]) = opsOf lines ++ ((Command.ofLine line).op?).toList := by
    rw [opsOf, opsOf, List.filterMap_append, List.filterMap_cons, List.filterMap_nil]
    cases (Command.ofLine line).op? <;> rfl
  refine ⟨d', henter, hshows, hrunning', hothers, hops ▸ hrun, fun o ho => ?_, hclients⟩
  rw [hops] at ho
  rcases List.mem_append.mp ho with ho | ho
  · exact h.plain o ho
  · exact hfits.plainKey (Option.mem_toList.mp ho)

/-- Every state of a session. -/
theorem Sessions.inSession (hdep : Deployed net d₀) (h : Sessions net d₀ lines d) :
    InSession net d₀ lines d := by
  induction h with
  | start => exact ⟨.start, fun o ho => absurd ho List.not_mem_nil, hdep.clients⟩
  | @line lines d d' i line h hfits htext henter ih =>
    by_cases hrunning : (d.terminals i).running = true
    · obtain ⟨d₁, henter₁, -, -, -, hsession⟩ := ih.enter hdep hrunning hfits htext
      obtain rfl := Option.some.inj (henter₁.symm.trans henter)
      exact hsession
    · rw [Deployment.enter, if_neg hrunning] at henter
      exact absurd henter (by simp)
  | action h a hfits outcomes clock hrun ih =>
    exact ⟨.action ih.run a hfits outcomes clock hrun, ih.plain, ih.clients⟩

/-- Whatever clients have entered and the balancer has moved, the next line is answered at its terminal
as if there were one map, the one that all operations so far have made; the other terminals show what
they showed. -/
theorem sessions_one_map (hdep : Deployed net d₀) (h : Sessions net d₀ lines d) {i : ℕ} {line : Bytes}
    (hrunning : (d.terminals i).running = true) (hfits : LineFits line)
    (htext : 15 + (shardsBody net.peers d.world.1.tablets).length < 2 ^ 32) :
    ∃ d', d.enter net i line = some d' ∧
      d'.shows i = d.shows i ++ (Command.ofLine line).answer (mapAfter (opsOf lines))
        (d.world.1.tablets.map (Tablet.cached net.peers)) ∧
      ((d'.terminals i).running = true ↔ Command.ofLine line ≠ .exit) ∧
      ∀ j, j ≠ i → d'.terminals j = d.terminals j := by
  obtain ⟨d', henter, hshows, hrunning', hothers, -⟩ :=
    (h.inSession hdep).enter hdep hrunning hfits htext
  exact ⟨d', henter, hshows, hrunning', hothers⟩

end Steps

/-! ## One client from its first line to its last -/

/-- The map after a command. -/
def Command.update (σ : Bytes → Option Bytes) (cmd : Command) : Bytes → Option Bytes :=
  match cmd.op? with
  | none => σ
  | some o => o.update σ

/-- What the loop of a client prints that has one map in front of it, and the map it leaves. -/
def transcript (table : List CachedTablet) :
    (Bytes → Option Bytes) → List Bytes → List Printed × (Bytes → Option Bytes)
  | σ, [] => ([.out (text "lekv> ")], σ)
  | σ, line :: lines =>
    let cmd := Command.ofLine line
    if cmd = .exit then (.out (text "lekv> ") :: cmd.answer σ table, σ)
    else
      let rest := transcript table (cmd.update σ) lines
      (.out (text "lekv> ") :: (cmd.answer σ table ++ rest.1), rest.2)

/-- A cluster in front of a client: one map, in a table that the client can read. -/
structure ServesMap (net : Network) (σ : Bytes → Option Bytes) (w : World) : Prop
    extends Refines σ w, TableReadable net.peers w.1 where
  nodes : ∀ t ∈ w.1.tablets, t.nodeId ∈ dataNodes net.peers
  values : ∀ k v, σ k = some v → 15 + v.length < 2 ^ 32

section Loop

variable {net : Network} {σ : Bytes → Option Bytes} {w w' : World}

theorem ServesMap.exec (h : ServesMap net σ w) {o : ClientOp} (hfits : o.Fits) {reqId : UInt32}
    {resp : Bytes} (hexec : o.exec reqId w = some (resp, w')) :
    ServesMap net (o.update σ) w' ∧ w'.1 = w.1 := by
  obtain ⟨w₁, hexec₁, hrefines⟩ := h.toRefines.exec hfits reqId
  obtain ⟨-, rfl⟩ := Prod.mk.inj (Option.some.inj (hexec₁.symm.trans hexec))
  obtain ⟨t, -, hexec⟩ := Option.bind_eq_some_iff.mp hexec
  obtain ⟨⟨resp', n⟩, -, hw⟩ := Option.bind_eq_some_iff.mp hexec
  have hmaster : w₁.1 = w.1 := by
    obtain ⟨-, rfl⟩ := Prod.mk.inj (Option.some.inj hw)
    rfl
  refine ⟨⟨hrefines, hmaster ▸ h.toTableReadable, hmaster ▸ h.nodes, fun k v hk => ?_⟩, hmaster⟩
  cases o with
  | put key value =>
    have hput : Function.update σ key (some value) k = some v := hk
    rw [Function.update_apply] at hput
    split_ifs at hput
    · obtain rfl := Option.some.inj hput
      have hsum := hfits.2
      omega
    · exact h.values k v hput
  | get key => exact h.values k v hk
  | delete key =>
    have hdelete : Function.update σ key none k = some v := hk
    rw [Function.update_apply] at hdelete
    split_ifs at hdelete
    exact h.values k v hdelete

/-- A client that reads `lines` prints the transcript of one map, and leaves that map's last state in
the cluster. -/
theorem run_prints_transcript (hnet : Configured net) {c : LekvCli} {links : Links}
    (hclient : CalmClient net c links) (h : ServesMap net σ w) {lines : List Bytes}
    (hfits : ∀ line ∈ lines, ∀ o, (Command.ofLine line).op? = some o → o.Fits) :
    ∃ c' w' links', net.env.run (Cli.run lines) (c, (w, links)) = (some (), (c', (w', links'))) ∧
      c'.printed = c.printed
        ++ (transcript (w.1.tablets.map (Tablet.cached net.peers)) σ lines).1 ∧
      ServesMap net (transcript (w.1.tablets.map (Tablet.cached net.peers)) σ lines).2 w' := by
  induction lines generalizing c w links σ with
  | nil => exact ⟨_, w, links, rfl, rfl, h⟩
  | cons line lines ih =>
    -- the prompt, and one line
    have hprompt : CalmClient net { c with printed := c.printed ++ [.out (text "lekv> ")] } links :=
      ⟨hclient.listens, hclient.proxy⟩
    obtain ⟨c₁, w₁, links₁, hrun, hprinted, hclient₁, hexec⟩ := run_command hnet hprompt
      h.toTableReadable h.toRefines h.nodes h.values (Command.worded_ofLine line)
      (hfits line List.mem_cons_self)
    have hw₁ : ServesMap net ((Command.ofLine line).update σ) w₁ ∧ w₁.1 = w.1 := by
      unfold Command.update
      rcases hop : (Command.ofLine line).op? with _ | o
      · rw [hop] at hexec
        obtain rfl : w₁ = w := hexec
        exact ⟨h, rfl⟩
      · rw [hop] at hexec
        obtain ⟨reqId, resp, hexec⟩ := hexec
        exact h.exec (hfits line List.mem_cons_self o hop) hexec
    rw [← Command.execute_eq] at hrun
    rw [Cli.run, CliEnvironment.run_print, CliEnvironment.run_bind_some hrun, transcript]
    dsimp only
    by_cases hexit : Command.ofLine line = .exit
    · rw [if_pos hexit, hexit]
      rw [hexit] at hprinted hexec
      refine ⟨c₁, w₁, links₁, rfl, hprinted.trans (List.append_assoc _ _ _), ?_⟩
      obtain rfl : w₁ = w := hexec
      exact h
    · have hending : ∃ ok, (Command.ofLine line).ending = .returned ok := by
        cases hcmd : Command.ofLine line with
        | exit => exact absurd hcmd hexit
        | noKey => exact ⟨false, rfl⟩
        | _ => exact ⟨true, rfl⟩
      obtain ⟨ok, hending⟩ := hending
      -- the other lines
      obtain ⟨c', w', links', hrun', hprinted', hw'⟩ :=
        ih hclient₁ hw₁.1 fun l hl => hfits l (List.mem_cons_of_mem line hl)
      rw [if_neg hexit, hending]
      rw [hw₁.2] at hprinted' hw'
      refine ⟨c', w', links', hrun', ?_, hw'⟩
      rw [hprinted', hprinted]
      simp only [List.append_assoc, List.cons_append, List.nil_append]

end Loop

/-! ## Two clients -/

section Examples

/-- The Master and two DataNodes on one host. -/
def oneHost : Network where
  peers := twoNodes
  listens ip port :=
    if ip = [0x31] then
      if port = 9001 then some .master
      else if port = 9002 then some (.node 2)
      else if port = 9003 then some (.node 3)
      else none
    else none

/-- Clients that have not connected yet. -/
def newTerminal : Terminal :=
  ⟨.init [0x31] 9001, fun _ => ⟨none, { Connection.fresh with connected := false }⟩, true⟩

def newDeployment : Deployment := ⟨(initialMaster, emptyCluster), fun _ => newTerminal⟩

theorem deployed_newDeployment : Deployed oneHost newDeployment where
  configured :=
    { peers := configuredPeers_twoNodes
      listens := by
        intro node hnode p hp
        have hnodes : node = 2 ∨ node = 3 := by
          have hmem : node ∈ [2, 3] := hnode
          simpa using hmem
        rcases hnodes with rfl | rfl
        · obtain rfl := Option.some.inj hp
          rfl
        · obtain rfl := Option.some.inj hp
          rfl }
  start := emptyCluster_start
  calm := emptyCluster_noReplies
  clients _ := ⟨rfl, .inr ⟨rfl, rfl⟩⟩

theorem servesMap_newDeployment : ServesMap oneHost (fun _ => none) newDeployment.world where
  toRefines := emptyCluster_start.refines
  fits := by decide +kernel
  fetch := by decide +kernel
  nodes := Run.nodes emptyCluster_start .start
  values k v hv := absurd hv (by simp)

/-- A client that writes, reads and leaves, with a line that nobody reads any more. -/
theorem run_prints_transcript_quit : ∃ c' w' links',
    oneHost.env.run (Cli.run [text "put a 1", text "get a", text "quit", text "get b"])
        (newTerminal.cli, (newDeployment.world, newTerminal.links)) = (some (), (c', (w', links'))) ∧
      c'.printed = newTerminal.cli.printed ++ [.out (text "lekv> "), .out (text "OK\n"),
        .out (text "lekv> "), .out (text "1\n"), .out (text "lekv> "), .out (text "Bye!\n")] := by
  have hfits : ∀ line ∈ [text "put a 1", text "get a", text "quit", text "get b"], ∀ o,
      (Command.ofLine line).op? = some o → o.Fits := by
    have hall : ∀ line ∈ [text "put a 1", text "get a", text "quit", text "get b"],
        ∀ o ∈ (Command.ofLine line).op?, o.Fits := by decide +kernel
    exact fun line hline o ho => hall line hline o ho
  obtain ⟨c', w', links', hrun, hprinted, -⟩ := run_prints_transcript
    deployed_newDeployment.configured (deployed_newDeployment.clients 0) servesMap_newDeployment hfits
  exact ⟨c', w', links', hrun, hprinted.trans (congrArg _ (by decide +kernel))⟩

/-- Terminal 0 writes a key. -/
def keyEntered : Deployment :=
  (newDeployment.enter oneHost 0 (text "put a 1")).getD newDeployment

theorem sessions_keyEntered : Sessions oneHost newDeployment [(0, text "put a 1")] keyEntered := by
  have hsome : (newDeployment.enter oneHost 0 (text "put a 1")).isSome = true := by decide +kernel
  obtain ⟨d, hd⟩ := Option.isSome_iff_exists.mp hsome
  have hd' : keyEntered = d := by rw [keyEntered, hd]; rfl
  refine hd' ▸ .line .start ?_ (by decide +kernel) hd
  have hop : (Command.ofLine (text "put a 1")).op? = some (.put [0x61] [0x31]) := by decide +kernel
  intro o ho
  obtain rfl := Option.some.inj (hop.symm.trans ho)
  exact ⟨⟨by decide, by decide⟩, by decide⟩

/-- Terminal 1 reads it. -/
theorem sessions_one_map_read : ∃ d', keyEntered.enter oneHost 1 (text "GET a") = some d' ∧
    d'.shows 1 = keyEntered.shows 1 ++ [.out (text "1\n")] := by
  have hop : (Command.ofLine (text "GET a")).op? = some (.get [0x61]) := by decide +kernel
  have hfits : LineFits (text "GET a") := by
    intro o ho
    obtain rfl := Option.some.inj (hop.symm.trans ho)
    exact ⟨by norm_num [ClientOp.Fits], by decide⟩
  obtain ⟨d', henter, hshows, -⟩ := @sessions_one_map _ _ _ _ deployed_newDeployment
    sessions_keyEntered 1 _ (by decide +kernel) hfits (by decide +kernel)
  refine ⟨d', henter, hshows.trans (congrArg _ ?_)⟩
  decide +kernel

end Examples

end LeKV
