import LeKV.Cli.PythonCalls
import LeKV.Cli.Sessions

/-!
# Both kinds of clients on one cluster

Terminals and Python scripts take turns with each other and with the balancer. `mixed_one_map`: whoever
comes next is answered by the one map of all operations so far. A script's call has two outcomes, the
answer or `struct.error`, and `Call.Fits` says which: after `2 ^ 32` requests a script never gets an
answer again.
-/

namespace LeKV

open Bytes BinaryProtocol Text

namespace LekvClient

/-! ## What one map answers -/

/-- The operation of a call. -/
def Call.op? : Call → Option ClientOp
  | put key value => some (.put (encode key) (encode value))
  | get key => some (.get (encode key))
  | delete key => some (.delete (encode key))
  | getTabletsInfo => none

/-- What a call returns that has the map `σ` and the routing table `table` in front of it. -/
def Call.answer (σ : Bytes → Option Bytes) (table : List TabletInfo) : Call → Returned
  | put _ _ => .bool true
  | get key => .value ((σ (encode key)).map Utf8.decodeReplace)
  | delete _ => .bool true
  | getTabletsInfo => .tablets table

/-- A call whose numbers fit their fields: its request ids, and the lengths of key and value. -/
def Call.Fits (reqId : ℕ) (call : Call) : Prop :=
  match call.op? with
  | none => reqId < 2 ^ 32
  | some o => o.Fits ∧ reqId + 1 < 2 ^ 32

instance (reqId : ℕ) (call : Call) : Decidable (call.Fits reqId) :=
  match h : call.op? with
  | none => decidable_of_iff (reqId < 2 ^ 32) (by rw [Call.Fits, h])
  | some o => decidable_of_iff (o.Fits ∧ reqId + 1 < 2 ^ 32) (by rw [Call.Fits, h])

/-- How a call ends. -/
def Call.outcome (reqId : ℕ) (σ : Bytes → Option Bytes) (table : List TabletInfo) (call : Call) :
    Except PyError Returned :=
  if call.Fits reqId then .ok (call.answer σ table) else .error .structError

/-- The operation that a call has executed. -/
def Call.done (call : Call) : Except PyError Returned → List ClientOp
  | .ok _ => call.op?.toList
  | .error _ => []

/-- A call executes nothing, or its operation, which fits. -/
theorem Call.done_cases (reqId : ℕ) (σ : Bytes → Option Bytes) (table : List TabletInfo)
    (call : Call) : call.done (call.outcome reqId σ table) = [] ∨
      ∃ o, call.done (call.outcome reqId σ table) = [o] ∧ call.op? = some o ∧ o.Fits := by
  rw [Call.outcome]
  by_cases hfits : call.Fits reqId
  · rw [if_pos hfits]
    rcases hop : call.op? with _ | o
    · exact .inl (by rw [Call.done, hop, Option.toList_none])
    · rw [Call.Fits, hop] at hfits
      exact .inr ⟨o, by rw [Call.done, hop, Option.toList_some], rfl, hfits.1⟩
  · rw [if_neg hfits]
    exact .inl rfl

/-! ## One call -/

section Call

variable {net : Network} {cut : ℕ → Bytes → List Bytes} {w : World} {c : LekvClient} {n : ℕ}
  {σ : Bytes → Option Bytes}

/-- A call of `put`, `get` or `delete` that reads the result of `_do_kv` with `read`. -/
theorem run_kv (hcut : Cuts cut) (hnet : Configured net) (hreach : ReachesMaster net c)
    (hreadable : Readable net.peers w.1.tablets) (hrefines : Refines σ w)
    (hvalues : ∀ k v, σ k = some v → 15 + v.length < 2 ^ 32) {key value : Str} {o : ClientOp}
    (hkey : encode key = o.key) (hvalue : encode value = o.value) {call : Call}
    {read : ℤ × Str → Except PyError Returned} (hop : call.op? = some o)
    (hprog : call.prog = LekvClient.doKv o.opcode key value >>= fun r => liftM (read r))
    (hread : ∀ status result, o.answer σ = status :: result →
      read ((status.toNat : ℤ), Utf8.decodeReplace result)
        = .ok (call.answer σ (w.1.tablets.map (info net.peers)))) :
    ∃ k m w', (net.pyEnv cut).run call.prog (c, (w, .idle n))
        = (some (call.outcome c.reqId σ (w.1.tablets.map (info net.peers))),
            ({ c with reqId := k }, (w', .idle m))) ∧
      match call.done (call.outcome c.reqId σ (w.1.tablets.map (info net.peers))) with
      | [] => w' = w
      | o :: _ => ∃ reqId resp, o.exec reqId w = some (resp, w') := by
  by_cases hfits : o.Fits ∧ c.reqId + 1 < 2 ^ 32
  · have houtcome : call.outcome c.reqId σ (w.1.tablets.map (info net.peers))
        = .ok (call.answer σ (w.1.tablets.map (info net.peers))) := by
      rw [Call.outcome, if_pos]
      rw [Call.Fits, hop]
      exact hfits
    obtain ⟨status, result, w', hanswer, hrun, hexec⟩ := run_doKv_served (n := n) hcut hnet hreach
      hreadable hrefines hvalues hkey hvalue hfits.1 hfits.2
    refine ⟨c.reqId + 1 + 1, n + 1 + 1, w', ?_, ?_⟩
    · rw [hprog, PyEnvironment.run_bind_ok hrun, hread status result hanswer, houtcome]
      exact PyEnvironment.run_lift _ _
    · rw [houtcome, Call.done, hop]
      exact hexec
  -- `struct.pack` refuses the key, the value or one of the two request ids.
  · have houtcome : call.outcome c.reqId σ (w.1.tablets.map (info net.peers))
        = .error .structError := by
      rw [Call.outcome, if_neg]
      rw [Call.Fits, hop]
      exact hfits
    obtain ⟨k, m, hrun⟩ := run_doKv_error (n := n) hcut hnet hreach hreadable hkey hvalue hfits
    refine ⟨k, m, w, ?_, ?_⟩
    · rw [hprog, PyEnvironment.run_bind_error hrun, houtcome]
    · rw [houtcome, Call.done]

/-- A call on a cluster that refines `σ` ends as one on the map `σ`. -/
theorem run_call (hcut : Cuts cut) (hnet : Configured net) (hreach : ReachesMaster net c)
    (hreadable : Readable net.peers w.1.tablets) (hrefines : Refines σ w)
    (hvalues : ∀ k v, σ k = some v → 15 + v.length < 2 ^ 32) (call : Call) :
    ∃ k m w', (net.pyEnv cut).run call.prog (c, (w, .idle n))
        = (some (call.outcome c.reqId σ (w.1.tablets.map (info net.peers))),
            ({ c with reqId := k }, (w', .idle m))) ∧
      match call.done (call.outcome c.reqId σ (w.1.tablets.map (info net.peers))) with
      | [] => w' = w
      | o :: _ => ∃ reqId resp, o.exec reqId w = some (resp, w') := by
  cases call with
  | put key value =>
    refine @run_kv net cut w c n σ hcut hnet hreach hreadable hrefines hvalues key value
      (.put (encode key) (encode value)) rfl rfl (.put key value)
      (fun r => .ok (.bool (decide (r.1 = (ST_OK.toNat : ℤ))))) rfl rfl fun status result hanswer => ?_
    obtain ⟨rfl, rfl⟩ := List.cons_eq_cons.mp hanswer
    rfl
  | delete key =>
    refine @run_kv net cut w c n σ hcut hnet hreach hreadable hrefines hvalues key []
      (.delete (encode key)) rfl rfl (.delete key)
      (fun r => .ok (.bool (decide (r.1 = (ST_OK.toNat : ℤ))))) rfl rfl fun status result hanswer => ?_
    obtain ⟨rfl, rfl⟩ := List.cons_eq_cons.mp hanswer
    rfl
  | get key =>
    refine @run_kv net cut w c n σ hcut hnet hreach hreadable hrefines hvalues key []
      (.get (encode key)) rfl rfl (.get key) readGet rfl rfl fun status result hanswer => ?_
    rw [ClientOp.answer] at hanswer
    rw [Call.answer]
    rcases hk : σ (encode key) with _ | v
    · rw [hk] at hanswer
      obtain ⟨rfl, rfl⟩ := List.cons_eq_cons.mp hanswer
      rfl
    · rw [hk] at hanswer
      obtain ⟨rfl, rfl⟩ := List.cons_eq_cons.mp hanswer
      rfl
  | getTabletsInfo =>
    have hfetch := run_fetchRouteTable_served (n := n) hcut hnet hreach hreadable
    have hiff : Call.Fits c.reqId .getTabletsInfo ↔ c.reqId < 2 ^ 32 := Iff.rfl
    refine ⟨c.reqId + 1, n + 1, w, ?_, ?_⟩
    · rw [Call.prog, Call.outcome]
      by_cases hid : c.reqId < 2 ^ 32
      · rw [if_pos hid] at hfetch
        rw [PyEnvironment.run_bind_ok hfetch, if_pos (hiff.mpr hid)]
        rfl
      · rw [if_neg hid] at hfetch
        rw [PyEnvironment.run_bind_error hfetch, if_neg (hiff.not.mpr hid)]
    · rw [Call.outcome]
      split_ifs
      · rfl
      · rfl

end Call

end LekvClient

/-! ## The deployment -/

/-- A script: its client, and its sockets. -/
structure Script where
  client : LekvClient
  sockets : Sockets

/-- The servers, the terminals and the scripts. -/
structure Site extends Deployment where
  scripts : ℕ → Script

/-- A line at the terminal `i`. -/
def Site.enter (net : Network) (s : Site) (i : ℕ) (line : Bytes) : Option Site :=
  (s.toDeployment.enter net i line).map fun d => ⟨d, s.scripts⟩

/-- A call of the script `j`, whose replies are cut by `cut j`: how it ends, and what it leaves. -/
def Site.call (net : Network) (cut : ℕ → ℕ → Bytes → List Bytes) (s : Site) (j : ℕ)
    (call : LekvClient.Call) : Option (Except PyError LekvClient.Returned × Site) :=
  match (net.pyEnv (cut j)).run call.prog
    ((s.scripts j).client, (s.world, (s.scripts j).sockets)) with
  | (some r, (c, (w, sockets))) =>
    some (r, ⟨⟨w, s.terminals⟩, Function.update s.scripts j ⟨c, sockets⟩⟩)
  | (none, _) => none

/-- The keys that an operation stores are text. -/
def StoresText (ops : List ClientOp) : Prop := ∀ k v, .put k v ∈ ops → LekvClient.TextKey k

/-- The states after the operations `ops`: lines, calls, and balancer actions that run to their end, in
any order. The table fits a frame whenever a client may ask for it. -/
inductive MixedSessions (net : Network) (cut : ℕ → ℕ → Bytes → List Bytes) (s₀ : Site) :
    List ClientOp → Site → Prop where
  | start : MixedSessions net cut s₀ [] s₀
  | line {ops : List ClientOp} {s s' : Site} {i : ℕ} {line : Bytes}
      (h : MixedSessions net cut s₀ ops s)
      (hfits : ∀ o, (Command.ofLine line).op? = some o → o.Fits)
      (hstores : StoresText ((Command.ofLine line).op?).toList)
      (htable : 15 + (shardsBody net.peers s.world.1.tablets).length < 2 ^ 32)
      (henter : s.enter net i line = some s') :
      MixedSessions net cut s₀ (ops ++ ((Command.ofLine line).op?).toList) s'
  | call {ops : List ClientOp} {s s' : Site} {j : ℕ} {call : LekvClient.Call}
      {r : Except PyError LekvClient.Returned} (h : MixedSessions net cut s₀ ops s)
      (hstores : StoresText call.op?.toList)
      (htable : 15 + (shardsBody net.peers s.world.1.tablets).length < 2 ^ 32)
      (hcall : s.call net cut j call = some (r, s')) :
      MixedSessions net cut s₀ (ops ++ call.done r) s'
  | action {ops : List ClientOp} {s : Site} (h : MixedSessions net cut s₀ ops s)
      (a : BalancerAction) (hfits : a.Fits s.world) (outcomes : FileOutcomes) (clock : List ℤ) {ok : Bool}
      {w' : World} (hrun : Cluster.env.run a.prog (s.world.1, { s.world.2 with outcomes, clock })
        = (some ok, w')) : MixedSessions net cut s₀ ops ⟨⟨w', s.terminals⟩, s.scripts⟩

/-- A script that can reach the Master, with all its sockets closed. -/
structure Script.Ready (net : Network) (s : Script) : Prop where
  reaches : ReachesMaster net s.client
  closed : ∃ n, s.sockets = .idle n

/-- A deployment with empty stores, whose clients and scripts can reach the Master. -/
structure Open (net : Network) (s₀ : Site) : Prop extends Deployed net s₀.toDeployment where
  scripts : ∀ j, (s₀.scripts j).Ready net

/-! ## Sessions -/

/-- The invariant: the cluster has run the operations, which stored text only, and nobody waits for
anything. -/
structure InMixed (net : Network) (s₀ : Site) (ops : List ClientOp) (s : Site) : Prop where
  run : Run s₀.world ops s.world
  text : StoresText ops
  clients : ∀ i, CalmClient net (s.terminals i).cli (s.terminals i).links
  scripts : ∀ j, (s.scripts j).Ready net

section Steps

variable {net : Network} {cut : ℕ → ℕ → Bytes → List Bytes} {s₀ s s' : Site} {ops : List ClientOp}

theorem StoresText.append {ops' : List ClientOp} (h : StoresText ops) (h' : StoresText ops') :
    StoresText (ops ++ ops') := fun k v hput =>
  (List.mem_append.mp hput).elim (h k v) (h' k v)

/-- Every client can read the table. -/
theorem InMixed.readable (hopen : Open net s₀) (h : InMixed net s₀ ops s)
    (htable : 15 + (shardsBody net.peers s.world.1.tablets).length < 2 ^ 32) :
    LekvClient.Readable net.peers s.world.1.tablets ∧ TableReadable net.peers s.world.1 := by
  have hnil : LekvClient.TextKey [] := ⟨[], fun c hc => absurd hc List.not_mem_nil, rfl⟩
  have hm : LekvClient.TextKey [0x6D] := by
    refine ⟨['m'], fun c hc => ?_, rfl⟩
    obtain rfl := List.mem_singleton.mp hc
    decide
  -- A boundary is the empty key, `m`, or a key that some `put` has stored.
  have htext : Boundaries LekvClient.TextKey s.world.1.tablets :=
    h.run.boundaries hnil hm hopen.start hopen.calm h.text
  have htiles := (h.run.healthy hopen.start).tiles
  have hnodes := h.run.nodes hopen.start
  exact ⟨⟨htiles, htext, hnodes, htable⟩, htable, fetchRouteTable_plain hopen.configured.peers htiles
    hnodes fun t ht => ⟨(htext t ht).1.plainKey, (htext t ht).2.plainKey⟩⟩

/-- One line. -/
theorem InMixed.enter (hopen : Open net s₀) (h : InMixed net s₀ ops s)
    (htable : 15 + (shardsBody net.peers s.world.1.tablets).length < 2 ^ 32) {i : ℕ} {line : Bytes}
    (hrunning : (s.terminals i).running = true)
    (hfits : ∀ o, (Command.ofLine line).op? = some o → o.Fits) :
    ∃ s', s.enter net i line = some s' ∧
      s'.shows i = s.shows i ++ (Command.ofLine line).answer (mapAfter ops)
        (s.world.1.tablets.map (Tablet.cached net.peers)) ∧
      (StoresText ((Command.ofLine line).op?).toList →
        InMixed net s₀ (ops ++ ((Command.ofLine line).op?).toList) s') := by
  obtain ⟨d, henter, hshows, -, -, hrun, hclients⟩ := Deployment.enter_spec hopen.configured
    hopen.start h.run h.clients (h.readable hopen htable).2 hrunning hfits
  exact ⟨⟨d, s.scripts⟩, by rw [Site.enter, henter, Option.map_some], hshows,
    fun hstores => ⟨hrun, h.text.append hstores, hclients, h.scripts⟩⟩

/-- One call. -/
theorem InMixed.call (hopen : Open net s₀) (hcut : ∀ j, Cuts (cut j)) (h : InMixed net s₀ ops s)
    (htable : 15 + (shardsBody net.peers s.world.1.tablets).length < 2 ^ 32) (j : ℕ)
    (call : LekvClient.Call) :
    ∃ s', s.call net cut j call = some (call.outcome (s.scripts j).client.reqId (mapAfter ops)
        (s.world.1.tablets.map (LekvClient.info net.peers)), s') ∧
      (¬call.Fits (s.scripts j).client.reqId → s'.world = s.world) ∧
      (StoresText call.op?.toList → InMixed net s₀ (ops ++ call.done (call.outcome
        (s.scripts j).client.reqId (mapAfter ops)
          (s.world.1.tablets.map (LekvClient.info net.peers)))) s') := by
  obtain ⟨n, hclosed⟩ := (h.scripts j).closed
  have hrefines := (h.run.healthy hopen.start).toRefines
  obtain ⟨k, m, w', hrun, hdone⟩ := LekvClient.run_call (n := n) (hcut j) hopen.configured
    (h.scripts j).reaches (h.readable hopen htable).1 hrefines (fun k v => h.run.values) call
  have hcases := call.done_cases (s.scripts j).client.reqId (mapAfter ops)
    (s.world.1.tablets.map (LekvClient.info net.peers))
  generalize hr : call.outcome (s.scripts j).client.reqId (mapAfter ops)
    (s.world.1.tablets.map (LekvClient.info net.peers)) = r at hrun hdone hcases ⊢
  refine ⟨⟨⟨w', s.terminals⟩, Function.update s.scripts j
    ⟨{ (s.scripts j).client with reqId := k }, .idle m⟩⟩, ?_, fun hfits => ?_, fun hstores => ?_⟩
  · rw [Site.call, hclosed, hrun]
  · rw [LekvClient.Call.outcome, if_neg hfits] at hr
    rw [← hr] at hdone
    exact hdone
  -- What was executed is nothing or the call's operation, and the run grows by it.
  · have hstores' : StoresText (call.done r) := by
      rcases hcases with hnone | ⟨o, hsome, hop, -⟩
      · rw [hnone]
        exact fun k v hput => absurd hput List.not_mem_nil
      · rwa [hsome, ← Option.toList_some, ← hop]
    refine ⟨?_, h.text.append hstores', h.clients, fun i => ?_⟩
    · rcases hcases with hnone | ⟨o, hsome, -, hofits⟩
      · rw [hnone] at hdone ⊢
        obtain rfl : w' = s.world := hdone
        rw [List.append_nil]
        exact h.run
      · rw [hsome] at hdone ⊢
        obtain ⟨reqId, resp, hexec⟩ := hdone
        exact .client h.run hofits hexec
    · by_cases hi : i = j
      · subst hi
        simp only [Function.update_self]
        exact ⟨(h.scripts i).reaches, m, rfl⟩
      · simp only [Function.update_of_ne hi]
        exact h.scripts i

/-- Every state of a session. -/
theorem MixedSessions.inMixed (hopen : Open net s₀) (hcut : ∀ j, Cuts (cut j))
    (h : MixedSessions net cut s₀ ops s) : InMixed net s₀ ops s := by
  -- A step is a function of the state, so the one that the invariant gives is the one taken.
  induction h with
  | start => exact ⟨.start, fun k v hput => absurd hput List.not_mem_nil, hopen.clients, hopen.scripts⟩
  | @line ops s s' i line h hfits hstores htable henter ih =>
    by_cases hrunning : (s.terminals i).running = true
    · obtain ⟨s₁, henter₁, -, hsession⟩ := ih.enter hopen htable hrunning hfits
      obtain rfl := Option.some.inj (henter₁.symm.trans henter)
      exact hsession hstores
    -- A terminal that was left takes no line.
    · rw [Site.enter, Deployment.enter, if_neg hrunning] at henter
      exact absurd henter (by simp)
  | @call ops s s' j call r h hstores htable hcall ih =>
    obtain ⟨s₁, hcall₁, -, hsession⟩ := ih.call hopen hcut htable j call
    obtain ⟨rfl, rfl⟩ := Prod.mk.inj (Option.some.inj (hcall₁.symm.trans hcall))
    exact hsession hstores
  | action h a hfits outcomes clock hrun ih =>
    exact ⟨.action ih.run a hfits outcomes clock hrun, ih.text, ih.clients, ih.scripts⟩

/-- Whatever terminals and scripts have done and the balancer has moved, the next line and the next
call are answered by the one map that all operations so far have made. A call that does not fit its
fields raises `struct.error` and leaves the stores alone. -/
theorem mixed_one_map (hopen : Open net s₀) (hcut : ∀ j, Cuts (cut j))
    (h : MixedSessions net cut s₀ ops s)
    (htable : 15 + (shardsBody net.peers s.world.1.tablets).length < 2 ^ 32) :
    (∀ i line, (s.terminals i).running = true →
      (∀ o, (Command.ofLine line).op? = some o → o.Fits) →
      ∃ s', s.enter net i line = some s' ∧
        s'.shows i = s.shows i ++ (Command.ofLine line).answer (mapAfter ops)
          (s.world.1.tablets.map (Tablet.cached net.peers))) ∧
    ∀ j (call : LekvClient.Call), ∃ s', s.call net cut j call
        = some (call.outcome (s.scripts j).client.reqId (mapAfter ops)
            (s.world.1.tablets.map (LekvClient.info net.peers)), s') ∧
      (¬call.Fits (s.scripts j).client.reqId → s'.world = s.world) := by
  have hsession := h.inMixed hopen hcut
  constructor
  · intro i line hrunning hfits
    obtain ⟨s', henter, hshows, -⟩ := hsession.enter hopen htable hrunning hfits
    exact ⟨s', henter, hshows⟩
  · intro j call
    obtain ⟨s', hcall, hsame, -⟩ := hsession.call hopen hcut htable j call
    exact ⟨s', hcall, hsame⟩

end Steps

/-! ## A script reads what was typed -/

section Examples

/-- Replies arrive byte by byte. -/
def byteByByte (_ _ : ℕ) (b : Bytes) : List Bytes := b.map fun x => [x]

theorem cuts_byteByByte (j : ℕ) : Cuts (byteByByte j) := by
  intro sock b
  constructor
  · induction b with
    | nil => rfl
    | cons x b ih => exact congrArg (x :: ·) ih
  · intro c hc
    obtain ⟨x, -, rfl⟩ := List.mem_map.mp hc
    exact List.cons_ne_nil x []

def newSite : Site := ⟨newDeployment, fun _ => ⟨⟨['1'], 9001, 1⟩, .idle 0⟩⟩

theorem open_newSite : Open oneHost newSite where
  toDeployed := deployed_newDeployment
  scripts _ := ⟨⟨9001, rfl, rfl⟩, 0, rfl⟩

/-- Terminal 0 writes a key. -/
def keyTyped : Site := (newSite.enter oneHost 0 (text "put a 1")).getD newSite

theorem mixedSessions_keyTyped :
    MixedSessions oneHost byteByByte newSite [.put [0x61] [0x31]] keyTyped := by
  have hop : (Command.ofLine (text "put a 1")).op? = some (.put [0x61] [0x31]) := by decide +kernel
  have hsome : (newSite.enter oneHost 0 (text "put a 1")).isSome = true := by decide +kernel
  obtain ⟨s, hs⟩ := Option.isSome_iff_exists.mp hsome
  have hs' : keyTyped = s := by rw [keyTyped, hs]; rfl
  have hline : MixedSessions oneHost byteByByte newSite
      ([] ++ ((Command.ofLine (text "put a 1")).op?).toList) s := by
    refine .line .start (fun o ho => ?_) (fun k v hput => ?_) (by decide +kernel) hs
    · obtain rfl := Option.some.inj (hop.symm.trans ho)
      exact ⟨by decide, by decide⟩
    · rw [hop] at hput
      obtain ⟨rfl, rfl⟩ := ClientOp.put.inj (List.mem_singleton.mp hput)
      refine ⟨['a'], fun c hc => ?_, rfl⟩
      obtain rfl := List.mem_singleton.mp hc
      decide
  rw [hop] at hline
  exact hs' ▸ hline

/-- A script reads it. -/
theorem mixed_one_map_script : ∃ s', keyTyped.call oneHost byteByByte 0 (.get ['a'])
    = some (.ok (.value (some ['1'])), s') := by
  obtain ⟨s', hcall, -⟩ := (mixed_one_map open_newSite cuts_byteByByte mixedSessions_keyTyped
    (by decide +kernel)).2 0 (.get ['a'])
  refine ⟨s', hcall.trans ?_⟩
  have hid : (keyTyped.scripts 0).client.reqId = 1 := by decide +kernel
  rw [hid]
  exact congrArg (fun r => some (r, s')) (by decide +kernel)

end Examples

end LeKV
