import LeKV.Kv.OneMap
import LeKV.Lib.Interference

/-!
# Clients and a migration, interleaved

The parties and their messages: a client fetches a route and sends one request to the node it found,
the Master migrates tablets, and every request is executed by the DataNode it reaches. The steps of
one party fall in any way between those of the others: `Step` performs a single operation of
`MigrateTablet` at a time. Each request of the Master is executed when it is sent, and its reply stays
on the wire until `RecvFrame`.
-/

namespace LeKV

open Bytes BinaryProtocol Sharding Balancer Effects

/-- A request of a client on its way: the operation, the node its route led to, and what clients had
been answered when the route was fetched. -/
structure Routed where
  op : ClientOp
  node : UInt32
  seen : List (ClientOp × Bytes)
deriving DecidableEq, Repr

/-- The Master and everything around it, what is left of the migration under way, the requests on
their way, all operations that clients have begun, and the requests that were executed with their
answers. -/
structure System where
  world : World
  action : Option (ℕ × UInt32 × Balancer Bool)
  requests : List Routed
  issued : List ClientOp
  answers : List (Routed × Bytes)

/-- Nothing has happened yet. -/
def System.init (w : World) : System := ⟨w, none, [], [], []⟩

/-- The steps of the parties. -/
inductive Label where
  | fetch (o : ClientOp)
  | execute (r : Routed)
  | start (idx : ℕ) (dst : UInt32)
  | master
  | finish

/-- One step of a client, of a DataNode that executes a client's request, or of the Master. -/
inductive Step : System → Label → System → Prop where
  | fetch {y : System} {o : ClientOp} {t : Tablet} (hfits : o.Fits)
      (hroute : getTabletRoute y.world.1.tablets o.key = some t) :
      Step y (.fetch o) { y with
        requests := ⟨o, t.nodeId, y.answers.map fun a => (a.1.op, a.2)⟩ :: y.requests
        issued := y.issued ++ [o] }
  | execute {y : System} {r : Routed} {l₁ l₂ : List Routed} {reqId : UInt32} {resp : Bytes}
      {n : DataNode} (hreq : y.requests = l₁ ++ r :: l₂)
      (hh : DataNode.handleBinaryRequest reqId r.op.payload (y.world.2.nodes r.node)
        = some (resp, n)) :
      Step y (.execute r) { y with
        world := (y.world.1, { y.world.2 with nodes := Function.update y.world.2.nodes r.node n })
        requests := l₁ ++ l₂
        answers := y.answers ++ [(r, resp)] }
  | start {y : System} {idx : ℕ} {dst : UInt32} (h : y.action = none) :
      Step y (.start idx dst) { y with action := some (idx, dst, migrateTablet idx dst) }
  | master {y : System} {idx : ℕ} {dst : UInt32} {o : MasterOp} {k : o.Res → Balancer Bool}
      {r : o.Res} {w : World} (h : y.action = some (idx, dst, .op o k))
      (hop : Cluster.env.handler o y.world = some (r, w)) :
      Step y .master { y with world := w, action := some (idx, dst, k r) }
  | finish {y : System} {idx : ℕ} {dst : UInt32} {b : Bool}
      (h : y.action = some (idx, dst, .ret b)) : Step y .finish { y with action := none }

/-- The states that are reached by steps which meet `C`. -/
inductive Reach (C : System → Label → Prop) (y₀ : System) : System → Prop where
  | init : Reach C y₀ y₀
  | step {y y' : System} {l : Label} (h : Reach C y₀ y) (hC : C y l) (hstep : Step y l y') :
      Reach C y₀ y'

/-- One step, computed. Where there is no such step, nothing happens. -/
def System.next (y : System) : Label → System
  | .fetch o =>
    match getTabletRoute y.world.1.tablets o.key with
    | none => y
    | some t =>
      if o.Fits then
        { y with
          requests := ⟨o, t.nodeId, y.answers.map fun a => (a.1.op, a.2)⟩ :: y.requests
          issued := y.issued ++ [o] }
      else y
  | .execute r =>
    match DataNode.handleBinaryRequest 7 r.op.payload (y.world.2.nodes r.node) with
    | none => y
    | some (resp, n) =>
      if r ∈ y.requests then
        { y with
          world := (y.world.1, { y.world.2 with nodes := Function.update y.world.2.nodes r.node n })
          requests := y.requests.erase r
          answers := y.answers ++ [(r, resp)] }
      else y
  | .start idx dst =>
    match y.action with
    | none => { y with action := some (idx, dst, migrateTablet idx dst) }
    | some _ => y
  | .master =>
    match y.action with
    | some (idx, dst, .op o k) =>
      match Cluster.env.handler o y.world with
      | none => y
      | some (r, w) => { y with world := w, action := some (idx, dst, k r) }
    | _ => y
  | .finish =>
    match y.action with
    | some (_, _, .ret _) => { y with action := none }
    | _ => y

theorem System.next_step (y : System) (l : Label) : y.next l = y ∨ Step y l (y.next l) := by
  cases l with
  | fetch o =>
    simp only [System.next]
    rcases hroute : getTabletRoute y.world.1.tablets o.key with _ | t
    · exact .inl rfl
    · dsimp only
      split_ifs with hfits
      · exact .inr (.fetch hfits hroute)
      · exact .inl rfl
  | execute r =>
    -- requests may arrive in any order, so any one in flight can be next
    simp only [System.next]
    rcases hh : DataNode.handleBinaryRequest 7 r.op.payload (y.world.2.nodes r.node)
      with _ | ⟨resp, n⟩
    · exact .inl rfl
    · dsimp only
      split_ifs with hmem
      · obtain ⟨l₁, l₂, -, hreq, herase⟩ := List.exists_erase_eq hmem
        rw [herase]
        exact .inr (.execute hreq hh)
      · exact .inl rfl
  | start idx dst =>
    simp only [System.next]
    rcases haction : y.action with _ | a
    · exact .inr (.start haction)
    · exact .inl rfl
  | master =>
    simp only [System.next]
    rcases haction : y.action with _ | ⟨idx, dst, b | ⟨o, k⟩⟩
    · exact .inl rfl
    · exact .inl rfl
    · dsimp only
      rcases hop : Cluster.env.handler o y.world with _ | ⟨r, w⟩
      · exact .inl rfl
      · exact .inr (.master haction hop)
  | finish =>
    simp only [System.next]
    rcases haction : y.action with _ | ⟨idx, dst, b | ⟨o, k⟩⟩
    · exact .inl rfl
    · exact .inr (.finish haction)
    · exact .inl rfl

/-- The steps of a list meet `C`. -/
def Meets (C : System → Label → Prop) : System → List Label → Prop
  | _, [] => True
  | y, l :: ls => C y l ∧ Meets C (y.next l) ls

/-- The state after a list of steps is reached by them. -/
theorem Reach.steps {C : System → Label → Prop} {y₀ y : System} (h : Reach C y₀ y) (ls : List Label)
    (hC : Meets C y ls) : Reach C y₀ (ls.foldl System.next y) := by
  induction ls generalizing y with
  | nil => exact h
  | cons l ls ih =>
    refine ih ?_ hC.2
    rcases y.next_step l with heq | hstep
    · rw [heq]
      exact h
    · exact h.step hC.1 hstep

/-- No other `PUT` and no `DELETE` of the key. -/
def OnlyWrites (k v : Bytes) (ops : List ClientOp) : Prop :=
  ∀ o ∈ ops, o.key = k → o = .get k ∨ o = .put k v

/-- A `GET` whose route was fetched after a `PUT` of the same key was answered has returned its value,
if clients begin no other `PUT` and no `DELETE` of the key. -/
def LastWriteRead (y : System) : Prop :=
  ∀ r resp k v, (r, resp) ∈ y.answers → r.op = .get k → (.put k v, [ST_OK]) ∈ r.seen →
    OnlyWrites k v y.issued → resp = ST_OK :: v

/-! ## One key -/

/-- What is said of the Master's members and the stores, and of whether the `PUT` of a key was
executed. -/
abbrev Assertion : Type := Master → (UInt32 → DataNode) → Bool → Prop

/-- A world, and whether the `PUT` was executed. -/
abbrev Marked : Type := World × Bool

def Marked.At (A : Assertion) (x : Marked) : Prop := A x.1.1 x.1.2.nodes x.2

/-- The tablet at `idx` has the key, and is not at `dst` yet. -/
def Copying (k : Bytes) (idx : ℕ) (dst : UInt32) (m : Master) : Prop :=
  ∃ t, m.tablets[idx]? = some t ∧ t.Contains k ∧ t.nodeId ≠ dst

/-- A step of a client, seen from the key `k`: nothing happens to it, or its owner gets `v`, but not
while the key is copied from `idx` to `dst`. -/
structure ClientMoves (k v : Bytes) (idx : ℕ) (dst : UInt32) (x x' : Marked) : Prop where
  members : x'.1.1 = x.1.1
  connections : x'.1.2.connections = x.1.2.connections
  sound : Sound x.1.2.nodes → Sound x'.1.2.nodes
  key : (x'.2 = x.2 ∧ ∀ node, (x'.1.2.nodes node).lookup k = (x.1.2.nodes node).lookup k) ∨
    (x'.2 = true ∧ ¬Copying k idx dst x.1.1 ∧ ∀ node, (x'.1.2.nodes node).lookup k =
      if node = ownerOf x.1.1.tablets k then some v else (x.1.2.nodes node).lookup k)

/-- What the migration of `idx` to `dst` still has to move fits a scan response. -/
def MoveFits (idx : ℕ) (dst : UInt32) (w : World) : Prop :=
  ∀ t, w.1.tablets[idx]? = some t → t.nodeId ≠ dst → ScanFits w.2 t

/-- An operation of the Master. -/
def masterMoves (idx : ℕ) (dst : UInt32) : Transition masterSig Marked := fun o x r x' =>
  MoveFits idx dst x.1 ∧ Cluster.env.handler o x.1 = some (r, x'.1) ∧ x'.2 = x.2

/-- `A` holds, and all connections are quiet. -/
structure Calm (connected : UInt32 → Bool) (A : Assertion) (x : Marked) : Prop where
  at_ : x.At A
  quiet : x.1.2.Quiet
  connected_eq : ∀ node, (x.1.2.connections node).connected = connected node

/-- `A` holds, and only a reply of `node` is on the wire. -/
structure Replied (connected : UInt32 → Bool) (A : Assertion) (node : UInt32) (reply : Bytes)
    (x : Marked) : Prop where
  at_ : x.At A
  wire : ∃ s : Cluster, s.Quiet ∧ (∀ node, (s.connections node).connected = connected node) ∧
    x.1.2.connections
      = Function.update s.connections node ((s.connections node).send.answer reply)

/-- No client harms `A`, and it gives `J`. -/
structure Lasting (k v : Bytes) (idx : ℕ) (dst : UInt32) (J : Marked → Prop) (A : Assertion) :
    Prop where
  stable : Stable (ClientMoves k v idx dst) (Marked.At A)
  holds : ∀ x, Marked.At A x → J x

section Rules

variable {k v : Bytes} {idx : ℕ} {dst : UInt32} {connected : UInt32 → Bool} {A B : Assertion}
  {J : Marked → Prop} {α : Type} {Q : α → Marked → Prop} {x : Marked}

/-- What clients cannot change about an assertion, they cannot change between requests. -/
theorem stable_calm (hA : Stable (ClientMoves k v idx dst) (Marked.At A)) :
    Stable (ClientMoves k v idx dst) (Calm connected A) := by
  intro x x' hstep h
  refine ⟨hA x x' hstep h.at_, fun node hnode => ?_, fun node => ?_⟩
  · rw [hstep.connections] at hnode ⊢
    exact h.quiet node hnode
  · rw [hstep.connections]
    exact h.connected_eq node

theorem stable_replied (hA : Stable (ClientMoves k v idx dst) (Marked.At A)) (node : UInt32)
    (reply : Bytes) : Stable (ClientMoves k v idx dst) (Replied connected A node reply) := by
  rintro x x' hstep ⟨hat, s, hquiet, hconn, hwire⟩
  exact ⟨hA x x' hstep hat, s, hquiet, hconn, hstep.connections.trans hwire⟩

section Operations

variable (hA : Lasting k v idx dst J A)

include hA

theorem guarantees_pure {a : α} (hx : Calm connected A x) (hend : ∀ x, Calm connected A x → Q a x) :
    (pure a : Balancer α).Guarantees (masterMoves idx dst) (ClientMoves k v idx dst) J Q x :=
  Prog.guarantees_ret (stable_calm hA.stable) hx fun x hx => ⟨hA.holds x hx.at_, hend x hx⟩

theorem guarantees_get {f : Master → Balancer α} (hx : Calm connected A x)
    (hf : ∀ x, Calm connected A x →
      (f x.1.1).Guarantees (masterMoves idx dst) (ClientMoves k v idx dst) J Q x) :
    (Balancer.get >>= f).Guarantees (masterMoves idx dst) (ClientMoves k v idx dst) J Q x := by
  apply Prog.guarantees_op (stable_calm hA.stable) hx (fun x hx => hA.holds x hx.at_)
  rintro x r x' hx ⟨-, hop, hmark⟩
  obtain ⟨rfl, hworld⟩ := Prod.mk.inj (Option.some.inj hop)
  obtain rfl : x = x' := Prod.ext hworld hmark.symm
  exact hf x hx

theorem guarantees_isConnected {node : UInt32} {f : Bool → Balancer α} (hx : Calm connected A x)
    (hf : ∀ x, Calm connected A x → (f (connected node)).Guarantees (masterMoves idx dst)
      (ClientMoves k v idx dst) J Q x) :
    (Balancer.isConnected node >>= f).Guarantees (masterMoves idx dst) (ClientMoves k v idx dst) J Q
      x := by
  apply Prog.guarantees_op (stable_calm hA.stable) hx (fun x hx => hA.holds x hx.at_)
  rintro x r x' hx ⟨-, hop, hmark⟩
  obtain ⟨rfl, hworld⟩ := Prod.mk.inj (Option.some.inj hop)
  obtain rfl : x = x' := Prod.ext hworld hmark.symm
  have hconnected : Cluster.env.isConnected node x.1.2 = connected node := hx.connected_eq node
  rw [hconnected]
  exact hf x hx

/-- An assignment to the members. -/
theorem guarantees_modify {g : Master → Master} {f : Unit → Balancer α} (hx : Calm connected A x)
    (hg : ∀ m nodes d, A m nodes d → B (g m) nodes d)
    (hf : ∀ x, Calm connected B x →
      (f ()).Guarantees (masterMoves idx dst) (ClientMoves k v idx dst) J Q x) :
    (Balancer.modify g >>= f).Guarantees (masterMoves idx dst) (ClientMoves k v idx dst) J Q x := by
  apply Prog.guarantees_op (stable_calm hA.stable) hx (fun x hx => hA.holds x hx.at_)
  rintro ⟨⟨m, s⟩, d⟩ r x' hx ⟨-, hop, hmark⟩
  obtain ⟨-, hworld⟩ := Prod.mk.inj (Option.some.inj hop)
  obtain rfl : ((g m, s), d) = x' := Prod.ext hworld hmark.symm
  exact hf _ ⟨hg m s.nodes d hx.at_, hx.quiet, hx.connected_eq⟩

/-- A file operation. -/
theorem guarantees_file {o : MasterOp} {f : o.Res → Balancer α}
    (ho : ∀ w r w', Cluster.env.handler o w = some (r, w') →
      w'.1 = w.1 ∧ w'.2.nodes = w.2.nodes ∧ w'.2.connections = w.2.connections)
    (hx : Calm connected A x) (hf : ∀ r x, Calm connected A x →
      (f r).Guarantees (masterMoves idx dst) (ClientMoves k v idx dst) J Q x) :
    (Prog.op (S := masterSig) o f).Guarantees (masterMoves idx dst) (ClientMoves k v idx dst) J Q
      x := by
  apply Prog.guarantees_op (stable_calm hA.stable) hx (fun x hx => hA.holds x hx.at_)
  rintro ⟨⟨m, s⟩, d⟩ r ⟨⟨m', s'⟩, d'⟩ hx ⟨-, hop, hmark⟩
  obtain rfl : d' = d := hmark
  obtain ⟨rfl, hnodes, hconns⟩ : m' = m ∧ s'.nodes = s.nodes ∧ s'.connections = s.connections :=
    ho _ _ _ hop
  refine hf r _ ⟨?_, fun node hnode => ?_, fun node => ?_⟩
  · show A m' s'.nodes d'
    rw [hnodes]
    exact hx.at_
  · have hnode' : (s.connections node).connected = true := hconns ▸ hnode
    show (s'.connections node).Quiet
    rw [hconns]
    exact hx.quiet node hnode'
  · show (s'.connections node).connected = connected node
    rw [hconns]
    exact hx.connected_eq node

/-- `SaveTablets` changes nothing that clients see. -/
theorem guarantees_saveTablets {f : Unit → Balancer α} (hx : Calm connected A x)
    (hf : ∀ x, Calm connected A x →
      (f ()).Guarantees (masterMoves idx dst) (ClientMoves k v idx dst) J Q x) :
    (saveTablets >>= f).Guarantees (masterMoves idx dst) (ClientMoves k v idx dst) J Q x := by
  apply guarantees_get hA hx
  intro x hx
  generalize x.1.1 = m
  refine guarantees_file (o := .openTmp) hA (fun w r w' hop => ?_) hx fun opened x hx => ?_
  · obtain ⟨-, rfl⟩ := Prod.mk.inj (Option.some.inj hop)
    refine ⟨rfl, ?_, ?_⟩
    · exact (apply_ite Cluster.nodes _ _ _).trans (ite_self _)
    · exact (apply_ite Cluster.connections _ _ _).trans (ite_self _)
  cases opened with
  | false => exact hf x hx
  | true =>
    dsimp only [Prog.bind]
    rcases dump (document m) with _ | text
    · -- the Master stops here
      apply Prog.guarantees_op (stable_calm hA.stable) hx (fun x hx => hA.holds x hx.at_)
      exact fun x r => r.elim
    · refine guarantees_file (o := .writeTmp text) hA (fun w r w' hop => ?_) hx fun _ x hx => ?_
      · obtain ⟨-, rfl⟩ := Prod.mk.inj (Option.some.inj hop)
        exact ⟨rfl, rfl, rfl⟩
      refine guarantees_file (o := .renameTmp) hA (fun w r w' hop => ?_) hx fun _ x hx => ?_
      · obtain ⟨-, rfl⟩ := Prod.mk.inj (Option.some.inj hop)
        refine ⟨rfl, ?_, ?_⟩
        · exact (apply_ite Cluster.nodes _ _ _).trans (ite_self _)
        · exact (apply_ite Cluster.connections _ _ _).trans (ite_self _)
      exact hf x hx

end Operations

/-! ### Requests -/

section Requests

variable {B : Bytes → Assertion} {node reqId : UInt32} {payload : Bytes}

/-- A request that the DataNode answers with a response that fits a frame. -/
theorem guarantees_send {f : Bool → Balancer α}
    (hA : Lasting k v idx dst J A) (hconn : connected node = true) (hfit : FitsFrame payload)
    (hx : Calm connected A x) (hh : ∀ x : Marked, x.At A → MoveFits idx dst x.1 →
      ∃ status value n', DataNode.handleBinaryRequest reqId payload (x.1.2.nodes node)
          = some (status :: value, n') ∧ 15 + value.length < 2 ^ 32 ∧
        B (status :: value) x.1.1 (Function.update x.1.2.nodes node n') x.2)
    (hf : ∀ status value x, 15 + value.length < 2 ^ 32 →
      Replied connected (B (status :: value)) node (packResponse reqId (status :: value)) x →
      (f true).Guarantees (masterMoves idx dst) (ClientMoves k v idx dst) J Q x) :
    (Balancer.send node (encodeCustomRequest reqId payload) >>= f).Guarantees (masterMoves idx dst)
      (ClientMoves k v idx dst) J Q x := by
  apply Prog.guarantees_op (stable_calm hA.stable) hx (fun x hx => hA.holds x hx.at_)
  rintro ⟨⟨m, s⟩, d⟩ r x' hx ⟨hscan, hop, hmark⟩
  obtain ⟨status, value, n', hhandle, hvalue, hB⟩ := hh _ hx.at_ hscan
  have hout : (s.connections node).sendOutcome = ⟨true, true⟩ :=
    (hx.quiet node ((hx.connected_eq node).trans hconn)).sendOutcome
  have hserve : (s.nodes node).serve (encodeCustomRequest reqId payload)
      = (packResponse reqId (status :: value), n') := serve_request hfit hhandle
  obtain ⟨hok, hworld⟩ := Prod.mk.inj (Option.some.inj hop)
  obtain rfl : ((m, s.send node (encodeCustomRequest reqId payload)), d) = x' :=
    Prod.ext hworld hmark.symm
  obtain rfl : true = r := by
    rw [← hok]
    exact (congrArg SendOutcome.ok hout).symm
  have hnodes := Cluster.nodes_send s node (encodeCustomRequest reqId payload)
  rw [hout, if_pos rfl, hserve] at hnodes
  have hwire : (s.send node (encodeCustomRequest reqId payload)).connections
      = Function.update s.connections node ((s.connections node).send.answer
          ((s.nodes node).serve (encodeCustomRequest reqId payload)).1) := by
    unfold Cluster.send
    simp only [hout, if_true]
    rfl
  rw [hserve] at hwire
  refine hf status value _ hvalue ⟨?_, s, hx.quiet, hx.connected_eq, hwire⟩
  show B (status :: value) m (s.send node (encodeCustomRequest reqId payload)).nodes d
  rw [hnodes]
  exact hB

/-- The reply that is on the wire is received. -/
theorem guarantees_recvFrame {timeoutMs : ℤ} {f : Option Bytes → Balancer α} {status : UInt8}
    {value : Bytes} (hA : Lasting k v idx dst J A) (hconn : connected node = true)
    (hvalue : 15 + value.length < 2 ^ 32)
    (hx : Replied connected A node (packResponse reqId (status :: value)) x)
    (hf : ∀ x, Calm connected A x → (f (some (packResponse reqId (status :: value)))).Guarantees
      (masterMoves idx dst) (ClientMoves k v idx dst) J Q x) :
    (Balancer.recvFrame node timeoutMs >>= f).Guarantees (masterMoves idx dst)
      (ClientMoves k v idx dst) J Q x := by
  apply Prog.guarantees_op (stable_replied hA.stable node _) hx (fun x hx => hA.holds x hx.at_)
  rintro ⟨⟨m, s⟩, d⟩ r x' ⟨hat, s₀, hquiet, hconnected, hwire⟩ ⟨-, hop, hmark⟩
  obtain ⟨hlen, hwhole⟩ := packResponse_whole reqId status hvalue
  have hreply := isReply_packResponse reqId (status :: value)
  generalize packResponse reqId (status :: value) = reply at hlen hwhole hreply hwire hf
  -- a quiet connection had nothing pending, so what is received is this reply
  have hc := hquiet node ((hconnected node).trans hconn)
  have hdel : (s₀.connections node).Delivers reply := hc.delivers (by omega) hwhole
  have hadvanced := advanced_exchange hc.pending hdel hreply hwhole timeoutMs
  have hself : s.connections node = (s₀.connections node).send.answer reply := by
    rw [show s.connections = _ from hwire, Function.update_self]
  have hreceived := received_exchange hc.pending hdel hreply hwhole timeoutMs
  obtain ⟨hr, hworld⟩ := Prod.mk.inj (Option.some.inj hop)
  obtain rfl : ((m, s.recvFrame node timeoutMs), d) = x' := Prod.ext hworld hmark.symm
  obtain rfl : some reply = r := by
    rw [← hr, ← hreceived, ← hself]
    rfl
  have hafter : (s.recvFrame node timeoutMs).connections
      = Function.update s₀.connections node ((s₀.connections node).exchange (reply, timeoutMs)) := by
    show Function.update s.connections node ((s.connections node).recvFrame timeoutMs).2 = _
    rw [hself, show s.connections = _ from hwire, Function.update_idem]
    rfl
  refine hf _ ⟨hat, fun other hother => ?_, fun other => ?_⟩
  · show ((s.recvFrame node timeoutMs).connections other).Quiet
    have hother' : ((s.recvFrame node timeoutMs).connections other).connected = true := hother
    rw [hafter, Function.update_apply] at hother' ⊢
    split_ifs at hother' ⊢
    · exact hadvanced.quiet hc
    · exact hquiet other hother'
  · show ((s.recvFrame node timeoutMs).connections other).connected = connected other
    rw [hafter, Function.update_apply]
    split_ifs with h
    · rw [h, hadvanced.connected]
      exact hconnected node
    · exact hconnected other

/-- A request with its reply. -/
theorem guarantees_call {timeoutMs : ℤ} {f : Option Bytes → Balancer α}
    (hA : Lasting k v idx dst J A) (hB : ∀ resp, Lasting k v idx dst J (B resp))
    (hconn : connected node = true) (hfit : FitsFrame payload) (hx : Calm connected A x)
    (hh : ∀ x : Marked, x.At A → MoveFits idx dst x.1 →
      ∃ status value n', DataNode.handleBinaryRequest 1 payload (x.1.2.nodes node)
          = some (status :: value, n') ∧ 15 + value.length < 2 ^ 32 ∧
        B (status :: value) x.1.1 (Function.update x.1.2.nodes node n') x.2)
    (hf : ∀ status value x, 15 + value.length < 2 ^ 32 → Calm connected (B (status :: value)) x →
      (f (some (status :: (be 4 value.length ++ value)))).Guarantees (masterMoves idx dst)
        (ClientMoves k v idx dst) J Q x) :
    (call node timeoutMs payload >>= f).Guarantees (masterMoves idx dst) (ClientMoves k v idx dst)
      J Q x := by
  apply guarantees_send hA hconn hfit hx hh
  intro status value x hvalue hx
  apply guarantees_recvFrame (hB _) hconn hvalue hx
  intro x hx
  -- the frame is decoded as a whole
  have hdecode := decodeReply_whole 1 status hvalue
  rw [decodeReply] at hdecode
  have hrest := hf status value x hvalue hx
  dsimp only [Prog.bind]
  generalize tryDecode (packResponse 1 (status :: value)) = decoded at hdecode ⊢
  rcases decoded with _ | ⟨c⟩ | ⟨c, reqId, resp⟩
  · exact absurd hdecode (by simp)
  · exact absurd hdecode (by simp)
  · obtain rfl := Option.some.inj hdecode
    exact hrest

end Requests

end Rules

end LeKV
