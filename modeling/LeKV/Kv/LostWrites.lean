import LeKV.Kv.Interleaving
import LeKV.Kv.OneMap

/-!
# Writes during a migration

A DataNode accepts requests for keys it does not own, and a migration copies what its scan has seen.
So a write to a tablet that is being copied can be lost, and so can one that follows an old route.
`last_write_read`: in every run without such requests, a later `GET` returns the value of the last
`PUT` that was answered, wherever the steps of the migrations fall between those of the clients.
-/

namespace LeKV

open Bytes BinaryProtocol Sharding Balancer Effects

/-! ## What holds throughout -/

/-- Nothing but `v` is stored under `k`, and if the `PUT` was executed, the owner holds it. -/
structure Kept (k v : Bytes) (m : Master) (nodes : UInt32 → DataNode) (done : Bool) : Prop where
  tiles : Tiles m.tablets
  short : Boundaries Short m.tablets
  sound : Sound nodes
  only : ∀ node u, (nodes node).lookup k = some u → u = v ∧ done = true
  owner : done = true → (nodes (ownerOf m.tablets k)).lookup k = some v

/-- Moreover, `t` is the tablet at `idx`. -/
structure Keeps (k v : Bytes) (idx : ℕ) (t : Tablet) (m : Master) (nodes : UInt32 → DataNode)
    (done : Bool) : Prop extends Kept k v m nodes done where
  tablet : m.tablets[idx]? = some t

/-- While the pairs `rest` of the tablet are still to be copied, the value is among them or at the
destination. -/
structure Carries (k v : Bytes) (idx : ℕ) (dst : UInt32) (t : Tablet) (rest : List (Bytes × Bytes))
    (m : Master) (nodes : UInt32 → DataNode) (done : Bool) : Prop
    extends Keeps k v idx t m nodes done where
  rest_only : ∀ e ∈ rest, e.1 = k → e.2 = v ∧ done = true
  carried : done = true → t.Contains k → (k, v) ∈ rest ∨ (nodes dst).lookup k = some v

section Assertions

variable {k v : Bytes} {idx : ℕ} {dst : UInt32} {t : Tablet} {m : Master}
  {nodes : UInt32 → DataNode} {done : Bool}

/-- One DataNode changes, and what it then holds under `k` is right. -/
theorem Kept.update (h : Kept k v m nodes done) (node : UInt32) {n : DataNode} (hn : n.Works)
    (hstored : n.Storables) (honly : ∀ u, n.lookup k = some u → u = v ∧ done = true)
    (howner : node = ownerOf m.tablets k → done = true → n.lookup k = some v) :
    Kept k v m (Function.update nodes node n) done where
  tiles := h.tiles
  short := h.short
  sound := h.sound.update node hn hstored
  only other u hu := by
    rw [Function.update_apply] at hu
    split_ifs at hu
    · exact honly u hu
    · exact h.only other u hu
  owner hdone := by
    rw [Function.update_apply]
    split_ifs with hnode
    · exact howner hnode.symm hdone
    · exact h.owner hdone

theorem stable_kept (k v : Bytes) (idx : ℕ) (dst : UInt32) :
    Stable (ClientMoves k v idx dst) (Marked.At (Kept k v)) := by
  rintro ⟨⟨m, s⟩, d⟩ ⟨⟨m', s'⟩, d'⟩ hmove h
  obtain ⟨hmembers, -, hsound, hkey⟩ := hmove
  obtain rfl : m' = m := hmembers
  refine ⟨h.tiles, h.short, hsound h.sound, fun node u hu => ?_, fun hdone => ?_⟩
  · have hu' : (s'.nodes node).lookup k = some u := hu
    rcases hkey with ⟨hmark, hlookup⟩ | ⟨hmark, -, hlookup⟩
    · rw [hmark]
      exact h.only node u ((hlookup node).symm.trans hu')
    · refine ⟨?_, hmark⟩
      rw [show (s'.nodes node).lookup k = _ from hlookup node] at hu'
      split_ifs at hu'
      · exact (Option.some.inj hu').symm
      · exact (h.only node u hu').1
  · rcases hkey with ⟨hmark, hlookup⟩ | ⟨-, -, hlookup⟩
    · exact (hlookup _).trans (h.owner (hmark.symm.trans hdone))
    · exact (hlookup _).trans (if_pos rfl)

theorem stable_keeps (k v : Bytes) (idx : ℕ) (dst : UInt32) (t : Tablet) :
    Stable (ClientMoves k v idx dst) (Marked.At (Keeps k v idx t)) := by
  intro x x' hmove h
  refine ⟨stable_kept k v idx dst x x' hmove h.toKept, ?_⟩
  rw [hmove.members]
  exact h.tablet

/-- No client writes to the key while it is copied. -/
theorem stable_carries (k v : Bytes) (idx : ℕ) {dst : UInt32} {t : Tablet} (hne : t.nodeId ≠ dst)
    (rest : List (Bytes × Bytes)) :
    Stable (ClientMoves k v idx dst) (Marked.At (Carries k v idx dst t rest)) := by
  intro x x' hmove h
  refine ⟨stable_keeps k v idx dst t x x' hmove h.toKeeps, fun e he hek => ?_, fun hdone hk => ?_⟩
  · rcases hmove.key with ⟨hmark, -⟩ | ⟨hmark, -⟩
    · rw [hmark]
      exact h.rest_only e he hek
    · exact ⟨(h.rest_only e he hek).1, hmark⟩
  · rcases hmove.key with ⟨hmark, hlookup⟩ | ⟨-, hcopying, -⟩
    · rw [hlookup dst]
      exact h.carried (hmark.symm.trans hdone) hk
    · exact absurd ⟨t, h.tablet, hk, hne⟩ hcopying

theorem lasting_kept (k v : Bytes) (idx : ℕ) (dst : UInt32) :
    Lasting k v idx dst (Marked.At (Kept k v)) (Kept k v) :=
  ⟨stable_kept k v idx dst, fun _ hx => hx⟩

theorem lasting_keeps (k v : Bytes) (idx : ℕ) (dst : UInt32) (t : Tablet) :
    Lasting k v idx dst (Marked.At (Kept k v)) (Keeps k v idx t) :=
  ⟨stable_keeps k v idx dst t, fun _ hx => hx.toKept⟩

theorem lasting_carries (k v : Bytes) (idx : ℕ) {dst : UInt32} {t : Tablet} (hne : t.nodeId ≠ dst)
    (rest : List (Bytes × Bytes)) :
    Lasting k v idx dst (Marked.At (Kept k v)) (Carries k v idx dst t rest) :=
  ⟨stable_carries k v idx hne rest, fun _ hx => hx.toKept⟩

/-! ## The steps of a migration -/

/-- What the scan has found. -/
theorem Keeps.carries (h : Keeps k v idx t m nodes done) {st : StorageEngine}
    (hst : (nodes t.nodeId).storage = some st) : Carries k v idx dst t (t.pairs st) m nodes done where
  toKeeps := h
  rest_only e he hek := by
    obtain ⟨hlookup, -⟩ := (Tablet.mem_pairs hst).mp he
    exact h.only t.nodeId e.2 (hek ▸ hlookup)
  carried hdone hk := by
    have howner := h.owner hdone
    rw [h.tiles.ownerOf_of_mem (List.mem_of_getElem? h.tablet) hk] at howner
    exact .inl ((Tablet.mem_pairs hst).mpr ⟨howner, hk⟩)

/-- One more pair is copied. -/
theorem Carries.put {e : Bytes × Bytes} {rest : List (Bytes × Bytes)}
    (h : Carries k v idx dst t (e :: rest) m nodes done) (hfit : FitsPut e) :
    Carries k v idx dst t rest m (Function.update nodes dst ((nodes dst).put e.1 e.2).2) done := by
  have hworks := h.sound.works dst
  have hlookup : ((nodes dst).put e.1 e.2).2.lookup k
      = if k = e.1 then some e.2 else (nodes dst).lookup k := by
    rw [DataNode.lookup_put, hworks.accepts]
    simp
  have hstored := (h.sound.storables dst).put ⟨hfit.1, lt_of_le_of_lt (Nat.le_add_left _ _) hfit.2⟩
  refine ⟨⟨h.toKept.update dst (hworks.put e.1 e.2).2 hstored (fun u hu => ?_) fun hnode hdone => ?_,
    h.tablet⟩, fun e' he' => h.rest_only e' (List.mem_cons_of_mem e he'), fun hdone hk => ?_⟩
  · rw [hlookup] at hu
    split_ifs at hu with hkey
    · exact Option.some.inj hu ▸ h.rest_only e List.mem_cons_self hkey.symm
    · exact h.only dst u hu
  · rw [hlookup]
    split_ifs with hkey
    · rw [(h.rest_only e List.mem_cons_self hkey.symm).1]
    · exact hnode ▸ h.owner hdone
  · rw [Function.update_self, hlookup]
    split_ifs with hkey
    · exact .inr (congrArg some (h.rest_only e List.mem_cons_self hkey.symm).1)
    · rcases h.carried hdone hk with hmem | hdst
      · rcases List.mem_cons.mp hmem with rfl | hmem
        · exact absurd rfl hkey
        · exact .inl hmem
      · exact .inr hdst

/-- The route is switched when nothing is left to be copied. -/
theorem Carries.reroute (h : Carries k v idx dst t [] m nodes done) :
    Keeps k v idx { t with nodeId := dst }
      { m with tablets := m.tablets.modify idx fun t => { t with nodeId := dst } } nodes done where
  tiles := (h.tiles.moveTo : Tiles (m.moveTo idx dst).tablets)
  short := short_moveTo h.tablet h.short
  sound := h.sound
  only := h.only
  owner hdone := by
    show (nodes (ownerOf (m.moveTo idx dst).tablets k)).lookup k = some v
    rw [h.tiles.ownerOf_moveTo h.tablet]
    split_ifs with hk
    · rcases h.carried hdone hk with hmem | hdst
      · exact absurd hmem List.not_mem_nil
      · exact hdst
    · exact h.owner hdone
  tablet := by
    show (m.tablets.modify idx fun t => { t with nodeId := dst })[idx]? = _
    rw [List.getElem?_modify, h.tablet]
    simp

/-- Then the range is deleted at the old owner. -/
theorem Keeps.deleteRange (h : Keeps k v idx { t with nodeId := dst } m nodes done)
    (hne : t.nodeId ≠ dst) : Keeps k v idx { t with nodeId := dst } m (Function.update nodes t.nodeId
      ((nodes t.nodeId).deleteRange t.startKey t.endKey).2) done where
  toKept := by
    have hworks := h.sound.works t.nodeId
    have hlookup := hworks.lookup_deleteRange t k
    refine h.toKept.update _ (hworks.deleteRange _ _).2
      ((h.sound.storables t.nodeId).deleteRange _ _) (fun u hu => ?_) fun hnode hdone => ?_
    · exact h.only t.nodeId u (DataNode.lookup_of_deleteRange hu)
    · rw [hlookup, if_neg fun hk => hne ?_]
      · exact hnode ▸ h.owner hdone
      · -- the tablet's keys belong to the destination
        exact hnode.trans (h.tiles.ownerOf_of_mem (List.mem_of_getElem? h.tablet) hk)
  tablet := h.tablet

end Assertions

/-! ## The migration among clients -/

section Migration

variable {k v : Bytes} {idx : ℕ} {dst : UInt32} {connected : UInt32 → Bool} {t : Tablet} {x : Marked}

/-- What a program of the Master guarantees, from an assertion on. -/
abbrev KeepsWrite {α : Type} (k v : Bytes) (idx : ℕ) (dst : UInt32) (connected : UInt32 → Bool)
    (p : Balancer α) (B : α → Assertion) (x : Marked) : Prop :=
  p.Guarantees (masterMoves idx dst) (ClientMoves k v idx dst) (Marked.At (Kept k v))
    (fun a => Calm connected (B a)) x

/-- The loop copies all pairs that it reads. -/
theorem keepsWrite_transferLoop (hne : t.nodeId ≠ dst) (hdst : connected dst = true) {resp : Bytes}
    (hresp : FitsFrame resp) (rounds i pos transferred : ℕ) (hpos : 9 ≤ pos)
    (hx : Calm connected (Carries k v idx dst t (pairsFrom resp rounds pos)) x) :
    KeepsWrite k v idx dst connected (transferLoop dst resp rounds i pos transferred)
      (fun _ => Carries k v idx dst t []) x := by
  have hend : ∀ {x : Marked} {n : ℕ}, Calm connected (Carries k v idx dst t []) x →
      KeepsWrite k v idx dst connected (pure n : Balancer ℕ) (fun _ => Carries k v idx dst t []) x :=
    fun hx => guarantees_pure (lasting_carries k v idx hne []) hx fun x hx => hx
  induction rounds generalizing i pos transferred x with
  | zero => exact hend hx
  | succ rounds ih =>
    rw [transferLoop]
    rw [pairsFrom] at hx
    rcases hat : pairAt resp pos with _ | ⟨pair, pos'⟩
    · rw [hat] at hx
      exact hend hx
    rw [hat] at hx
    have hfit := fitsPut_of_pairAt hresp hpos hat
    have hpos' : 9 ≤ pos' := hpos.trans (by have := pairAt_spec hat; omega)
    simp only [encodeRequest_put hfit]
    refine guarantees_send (B := fun _ => Carries k v idx dst t (pairsFrom resp rounds pos'))
      (lasting_carries k v idx hne _) hdst
      (answered_put hfit dst (UInt32.ofNat (i + 2))).1 hx (fun x hx _ => ?_)
      fun status value x hvalue hx => ?_
    · refine ⟨ST_OK, [], ((x.1.2.nodes dst).put pair.1 pair.2).2, ?_, by norm_num, hx.put hfit⟩
      rw [DataNode.handleBinaryRequest_put _ _ hfit.1 (by have := hfit.2; omega),
        ← ((hx.sound.works dst).put pair.1 pair.2).1]
    · refine guarantees_recvFrame (lasting_carries k v idx hne _) hdst hvalue hx
        fun x hx => ?_
      exact ih _ _ _ hpos' hx

/-- A transfer that returns `true` has copied the tablet. -/
theorem keepsWrite_scanAndTransferData (hne : t.nodeId ≠ dst)
    (hx : Calm connected (Keeps k v idx t) x) :
    KeepsWrite k v idx dst connected (scanAndTransferData t.nodeId dst t.startKey t.endKey)
      (fun ok m nodes done => Keeps k v idx t m nodes done ∧
        (ok = true → Carries k v idx dst t [] m nodes done)) x := by
  have hlasting := lasting_keeps k v idx dst t
  have hfail : ∀ {x}, Calm connected (Keeps k v idx t) x → KeepsWrite k v idx dst connected
      (pure false : Balancer Bool) (fun ok m nodes done => Keeps k v idx t m nodes done ∧
        (ok = true → Carries k v idx dst t [] m nodes done)) x :=
    fun hx => guarantees_pure hlasting hx fun x hx =>
      ⟨⟨hx.at_, fun h => absurd h Bool.false_ne_true⟩, hx.quiet, hx.connected_eq⟩
  apply guarantees_isConnected hlasting hx
  intro x hx
  rcases hsrc : connected t.nodeId with _ | _
  · exact hfail hx
  apply guarantees_isConnected hlasting hx
  intro x hx
  rcases hdst : connected dst with _ | _
  · exact hfail hx
  have hbounded : t.Bounded := hx.at_.short t (List.mem_of_getElem? hx.at_.tablet)
  -- the reply holds the pairs that the source has when it is asked
  refine guarantees_call (B := fun resp m nodes done => ∃ pairs,
      resp = ST_OK :: DataNode.scanBody pairs ∧ (∀ e ∈ pairs, Storable e) ∧
        Carries k v idx dst t pairs m nodes done)
    hlasting (fun resp => ⟨?_, ?_⟩) hsrc ((t.range hbounded).fitsFrame OP_SCAN_RANGE) hx
    (fun x hx hfits => ?_)
    fun status value x hvalue hx => ?_
  · rintro x x' hmove ⟨pairs, hresp, hstored, hcarries⟩
    exact ⟨pairs, hresp, hstored, stable_carries k v idx hne pairs x x' hmove hcarries⟩
  · rintro x ⟨_, -, -, hcarries⟩
    exact hcarries.toKept
  · obtain ⟨db, hdb⟩ := hx.sound.works t.nodeId
    refine ⟨ST_OK, DataNode.scanBody (t.pairs ⟨db, []⟩), x.1.2.nodes t.nodeId, ?_,
      hfits t hx.tablet hne _ hdb, t.pairs ⟨db, []⟩, rfl,
      storable_of_mem_rangeQuery (hx.sound.storables t.nodeId) hdb, ?_⟩
    · rw [DataNode.handleBinaryRequest_scanRange' _ hbounded.1 hbounded.2, DataNode.scanRange, hdb]
      rfl
    · rw [Function.update_eq_self]
      exact hx.carries hdb
  · obtain ⟨⟨pairs, hresp, hstored, hcarries⟩, hquiet, hconnected⟩ := hx
    obtain ⟨rfl, rfl⟩ := List.cons.inj hresp
    obtain ⟨hreadable, hall⟩ := scanReadable_of_fits hvalue
    have hroom : bodyRoom pairs = (DataNode.scanBody pairs).length := Nat.mod_eq_of_lt (by omega)
    have hpayload : ST_OK :: (be 4 (DataNode.scanBody pairs).length ++ DataNode.scanBody pairs)
        = scanPayload pairs := by
      rw [scanPayload, hroom, List.take_length]
    have hpairs := hreadable.pairsFrom hstored
    rw [hall, List.take_length] at hpairs
    rw [hpayload]
    dsimp only
    rw [scanCount_scanPayload hreadable.fits, if_pos hreadable.four_le, hall]
    refine Prog.Guarantees.bind (keepsWrite_transferLoop hne hdst
      (fitsFrame_scanPayload hreadable.fits) pairs.length 0 9 0 le_rfl ?_) fun n x hx => ?_
    · rw [hpairs]
      exact ⟨hcarries, hquiet, hconnected⟩
    · exact guarantees_pure (lasting_carries k v idx hne []) hx fun x hx =>
        ⟨⟨hx.at_.toKeeps, fun _ => hx.at_⟩, hx.quiet, hx.connected_eq⟩

/-- The deletion at the old owner keeps the value at the new one. -/
theorem keepsWrite_sendDeleteRange (hne : t.nodeId ≠ dst)
    (hx : Calm connected (Keeps k v idx { t with nodeId := dst }) x) :
    KeepsWrite k v idx dst connected (sendDeleteRange t.nodeId t.startKey t.endKey)
      (fun _ => Keeps k v idx { t with nodeId := dst }) x := by
  have hlasting := lasting_keeps k v idx dst { t with nodeId := dst }
  apply guarantees_isConnected hlasting hx
  intro x hx
  rcases hsrc : connected t.nodeId with _ | _
  · exact guarantees_pure hlasting hx fun x hx => hx
  have hmem := List.mem_of_getElem? hx.at_.tablet
  have hbounded : t.Bounded := hx.at_.short { t with nodeId := dst } hmem
  refine guarantees_call (B := fun _ => Keeps k v idx { t with nodeId := dst }) hlasting
    (fun _ => hlasting) hsrc ((t.range hbounded).fitsFrame OP_DELETE_RANGE) hx
    (fun x hx _ => ?_) fun status value x _ hx => guarantees_pure hlasting hx fun x hx => hx
  refine ⟨ST_OK, [], _, ?_, by norm_num, hx.deleteRange hne⟩
  rw [DataNode.handleBinaryRequest_deleteRange _ hbounded.1 hbounded.2,
    ← ((hx.sound.works t.nodeId).deleteRange t.startKey t.endKey).1]

/-- No step of a migration loses the value, whatever clients do between them. -/
theorem keepsWrite_migrateTablet (k v : Bytes) (idx : ℕ) (dst : UInt32)
    (hx : Calm connected (Kept k v) x) :
    KeepsWrite k v idx dst connected (migrateTablet idx dst) (fun _ => Kept k v) x := by
  have hlasting := lasting_kept k v idx dst
  have hstop : ∀ {x}, Calm connected (Kept k v) x → KeepsWrite k v idx dst connected
      (pure false : Balancer Bool) (fun _ => Kept k v) x :=
    fun hx => guarantees_pure hlasting hx fun x hx => hx
  apply guarantees_get hlasting hx
  intro x hx
  rcases hidx : x.1.1.tablets[idx]? with _ | t
  · exact hstop hx
  dsimp only
  by_cases hne : t.nodeId = dst
  · rw [if_pos hne]
    exact hstop hx
  rw [if_neg hne]
  refine Prog.Guarantees.bind (keepsWrite_scanAndTransferData hne
    ⟨⟨hx.at_, hidx⟩, hx.quiet, hx.connected_eq⟩) fun ok x hx => ?_
  cases ok with
  | false => exact hstop ⟨hx.at_.1.toKept, hx.quiet, hx.connected_eq⟩
  | true =>
    have hcarries : Calm connected (Carries k v idx dst t []) x :=
      ⟨hx.at_.2 rfl, hx.quiet, hx.connected_eq⟩
    apply guarantees_get (lasting_carries k v idx hne []) hcarries
    intro x hx
    rw [hx.at_.tablet, Option.map_some, if_pos rfl]
    -- both owners hold the value when the route changes; from then on the new one must keep it
    have hmoved := lasting_keeps k v idx dst { t with nodeId := dst }
    refine guarantees_modify (lasting_carries k v idx hne []) hx (fun m nodes d h => h.reroute)
      fun x hx => ?_
    refine guarantees_modify (B := Keeps k v idx { t with nodeId := dst }) hmoved hx
      (fun m nodes d h => ?_) fun x hx => ?_
    · exact ⟨⟨h.tiles, h.short, h.sound, h.only, h.owner⟩, h.tablet⟩
    apply guarantees_saveTablets hmoved hx
    intro x hx
    apply Prog.Guarantees.bind (keepsWrite_sendDeleteRange hne hx)
    intro _ x hx
    exact guarantees_pure hmoved hx fun x hx =>
      ⟨hx.at_.toKept, hx.quiet, hx.connected_eq⟩

end Migration

/-! ## Runs -/

/-- A request is executed at the owner of its key, and a write to a key not while it is copied. What a
migration has to move fits a scan response. -/
def Undisturbed (y : System) : Label → Prop
  | .execute r => r.node = ownerOf y.world.1.tablets r.op.key ∧
      ∀ idx dst p, y.action = some (idx, dst, p) → Copying r.op.key idx dst y.world.1 →
        r.op = .get r.op.key
  | .master => ∀ idx dst p, y.action = some (idx, dst, p) → MoveFits idx dst y.world
  | _ => True

/-- Whether a `PUT` was executed. -/
def System.done (y : System) (k v : Bytes) : Bool :=
  y.answers.any fun a => decide (a.1.op = .put k v)

/-- What holds in every state: the requests and answers so far are in order, and the rest of the
migration under way will keep the value. -/
structure Orderly (k v : Bytes) (connected : UInt32 → Bool) (y : System) : Prop where
  requests : ∀ r ∈ y.requests, r.op ∈ y.issued ∧ r.op.Fits ∧
    ((.put k v, [ST_OK]) ∈ r.seen → y.done k v = true)
  answers : ∀ r resp, (r, resp) ∈ y.answers → r.op = .get k → (.put k v, [ST_OK]) ∈ r.seen →
    resp = ST_OK :: v
  idle : y.action = none → Calm connected (Kept k v) (y.world, y.done k v)
  busy : ∀ idx dst p, y.action = some (idx, dst, p) →
    KeepsWrite k v idx dst connected p (fun _ => Kept k v) (y.world, y.done k v)

section Runs

variable {k v : Bytes} {connected : UInt32 → Bool} {y : System}

theorem Orderly.kept (h : Orderly k v connected y) :
    Kept k v y.world.1 y.world.2.nodes (y.done k v) := by
  rcases haction : y.action with _ | ⟨idx, dst, p⟩
  · exact (h.idle haction).at_
  · exact (h.busy idx dst p haction).now

theorem orderly_init {peers : List PeerInfo} {w : World} (h : Start peers w) :
    Orderly k v (fun node => (w.2.connections node).connected) (System.init w) where
  requests r hr := absurd hr List.not_mem_nil
  answers r resp hr := absurd hr List.not_mem_nil
  idle _ := by
    have hrefines := h.refines
    refine ⟨⟨hrefines.tiles, hrefines.short, ⟨hrefines.works, hrefines.storables⟩,
      fun node u hu => ?_, fun hdone => absurd hdone Bool.false_ne_true⟩, hrefines.quiet, fun _ => rfl⟩
    have hu' : (w.2.nodes node).lookup k = some u := hu
    rw [h.empty node] at hu'
    exact absurd hu' (by simp [DataNode.lookup, StorageEngine.get, StorageEngine.fresh])
  busy idx dst p haction := absurd haction (by simp [System.init])

/-- A request that is executed where its key belongs, seen from the key `k`. -/
theorem clientMoves_execute {r : Routed} {reqId : UInt32} {resp : Bytes} {n : DataNode} {idx : ℕ}
    {dst : UInt32} (hsound : Sound y.world.2.nodes) (hfits : r.op.Fits)
    (hnode : r.node = ownerOf y.world.1.tablets r.op.key)
    (hcopying : Copying r.op.key idx dst y.world.1 → r.op = .get r.op.key)
    (honly : r.op.key = k → r.op = .get k ∨ r.op = .put k v)
    (hh : DataNode.handleBinaryRequest reqId r.op.payload (y.world.2.nodes r.node) = some (resp, n)) :
    ClientMoves k v idx dst (y.world, y.done k v)
      ((y.world.1, { y.world.2 with nodes := Function.update y.world.2.nodes r.node n }),
        y.done k v || decide (r.op = .put k v)) := by
  obtain ⟨n', hhandle, hworks, hlookup⟩ := (hsound.works r.node).handle hfits reqId
  obtain ⟨-, rfl⟩ := Prod.mk.inj (Option.some.inj (hhandle.symm.trans hh))
  have hstored := DataNode.storables_handleBinaryRequest (hsound.storables r.node) hh
  refine ⟨rfl, rfl, fun _ => hsound.update r.node hworks hstored, ?_⟩
  -- an operation that leaves the value as it is
  have hsame : r.op ≠ .put k v → n'.lookup k = (y.world.2.nodes r.node).lookup k →
      (y.done k v || decide (r.op = .put k v)) = y.done k v ∧ ∀ node,
        (Function.update y.world.2.nodes r.node n' node).lookup k
          = (y.world.2.nodes node).lookup k := by
    intro hop hk
    rw [decide_eq_false hop, Bool.or_false]
    refine ⟨rfl, fun node => ?_⟩
    rw [Function.update_apply]
    split_ifs with h
    · rw [hk, h]
    · rfl
  by_cases hkey : r.op.key = k
  · rcases honly hkey with hop | hop
    · refine .inl (hsame (by simp [hop]) ?_)
      rw [hlookup, hop]
      rfl
    · refine .inr ⟨by simp [hop], fun h => ?_, fun node => ?_⟩
      · have hget := hcopying (hkey ▸ h)
        rw [hop] at hget
        exact absurd hget (by simp)
      · show (Function.update y.world.2.nodes r.node n' node).lookup k = _
        rw [Function.update_apply, hnode, hkey]
        split_ifs with h
        · rw [hlookup, hop, ClientOp.update, Function.update_self]
        · rfl
  · refine .inl (hsame (fun hop => hkey (by rw [hop, ClientOp.key])) ?_)
    rw [hlookup]
    exact ClientOp.update_of_ne _ _ fun h => hkey h.symm

/-- A request is executed. -/
theorem Orderly.execute (h : Orderly k v connected y) {r : Routed} (hC : Undisturbed y (.execute r))
    (honly : OnlyWrites k v y.issued) {l₁ l₂ : List Routed} {reqId : UInt32} {resp : Bytes}
    {n : DataNode} (hreq : y.requests = l₁ ++ r :: l₂)
    (hh : DataNode.handleBinaryRequest reqId r.op.payload (y.world.2.nodes r.node)
      = some (resp, n)) :
    Orderly k v connected { y with
      world := (y.world.1, { y.world.2 with nodes := Function.update y.world.2.nodes r.node n })
      requests := l₁ ++ l₂
      answers := y.answers ++ [(r, resp)] } := by
  obtain ⟨hnode, hcopying⟩ := hC
  obtain ⟨hissued, hfits, hdone⟩ := h.requests r (hreq ▸ List.mem_append_right _ List.mem_cons_self)
  have hkept := h.kept
  have hdone' : ∀ w action requests,
      System.done ⟨w, action, requests, y.issued, y.answers ++ [(r, resp)]⟩ k v
        = (y.done k v || decide (r.op = .put k v)) := by
    intro w action requests
    simp [System.done]
  refine ⟨fun r' hr' => ?_, fun r' resp' hmem hop hseen => ?_, fun haction => ?_,
    fun idx dst p haction => ?_⟩
  · have hr'' : r' ∈ y.requests := by
      rw [hreq]
      rcases List.mem_append.mp hr' with hr' | hr'
      · exact List.mem_append_left _ hr'
      · exact List.mem_append_right _ (List.mem_cons_of_mem r hr')
    obtain ⟨hissued', hfits', hseen'⟩ := h.requests r' hr''
    refine ⟨hissued', hfits', fun hs => ?_⟩
    rw [hdone', hseen' hs, Bool.true_or]
  · rcases List.mem_append.mp hmem with hmem | hmem
    · exact h.answers r' resp' hmem hop hseen
    · -- the answer given now
      obtain ⟨rfl, rfl⟩ := Prod.mk.inj (List.mem_singleton.mp hmem)
      obtain ⟨n', hhandle, -⟩ := (hkept.sound.works r'.node).handle hfits reqId
      obtain ⟨rfl, -⟩ := Prod.mk.inj (Option.some.inj (hhandle.symm.trans hh))
      have hvalue := hkept.owner (hdone hseen)
      rw [hnode, hop, ClientOp.answer, ClientOp.key, hvalue]
  · rw [hdone']
    -- no migration is under way, and none is harmed
    refine stable_calm (stable_kept k v y.world.1.tablets.length 0) _ _
      (clientMoves_execute hkept.sound hfits hnode ?_ (honly r.op hissued) hh) (h.idle haction)
    rintro ⟨t, ht, -⟩
    exact absurd ht (by simp)
  · rw [hdone']
    exact (h.busy idx dst p haction).other (clientMoves_execute hkept.sound hfits hnode
      (hcopying idx dst p haction) (honly r.op hissued) hh)

theorem Orderly.step (h : Orderly k v connected y) {l : Label} {y' : System} (hC : Undisturbed y l)
    (honly : OnlyWrites k v y.issued) (hstep : Step y l y') : Orderly k v connected y' := by
  cases hstep with
  | @fetch o t hfits hroute =>
    refine ⟨fun r hr => ?_, h.answers, h.idle, h.busy⟩
    rcases List.mem_cons.mp hr with rfl | hr
    · refine ⟨List.mem_append_right _ List.mem_cons_self, hfits, fun hseen => ?_⟩
      obtain ⟨a, ha, heq⟩ := List.mem_map.mp hseen
      exact List.any_eq_true.mpr ⟨a, ha, decide_eq_true (congrArg Prod.fst heq)⟩
    · obtain ⟨hissued, hrest⟩ := h.requests r hr
      exact ⟨List.mem_append_left _ hissued, hrest⟩
  | execute hreq hh => exact h.execute hC honly hreq hh
  | @start idx dst haction =>
    refine ⟨h.requests, h.answers, fun hnone => absurd hnone (by simp), fun idx' dst' p hsome => ?_⟩
    obtain ⟨rfl, rfl, rfl⟩ : idx = idx' ∧ dst = dst' ∧ migrateTablet idx dst = p := by simpa using hsome
    exact keepsWrite_migrateTablet k v idx dst (h.idle haction)
  | @master idx dst o f r w haction hop =>
    refine ⟨h.requests, h.answers, fun hnone => absurd hnone (by simp), fun idx' dst' p hsome => ?_⟩
    obtain ⟨rfl, rfl, rfl⟩ : idx = idx' ∧ dst = dst' ∧ f r = p := by simpa using hsome
    exact (h.busy idx dst _ haction).own ⟨hC idx dst _ haction, hop, rfl⟩
  | @finish idx dst b haction =>
    exact ⟨h.requests, h.answers, fun _ => (h.busy idx dst _ haction).result,
      fun idx' dst' p hsome => absurd hsome (by simp)⟩

/-- What clients have begun stays begun. -/
theorem Step.issued_subset {l : Label} {y' : System} (h : Step y l y') : y.issued ⊆ y'.issued := by
  cases h with
  | fetch => exact List.subset_append_left _ _
  | execute => exact List.Subset.refl _
  | start => exact List.Subset.refl _
  | master => exact List.Subset.refl _
  | finish => exact List.Subset.refl _

theorem Reach.orderly {peers : List PeerInfo} {w₀ : World} (hstart : Start peers w₀)
    (h : Reach Undisturbed (System.init w₀) y) (honly : OnlyWrites k v y.issued) :
    Orderly k v (fun node => (w₀.2.connections node).connected) y := by
  induction h with
  | init => exact orderly_init hstart
  | step _ hC hstep ih =>
    have honly' := fun o ho => honly o (hstep.issued_subset ho)
    exact (ih honly').step hC honly' hstep

end Runs

/-- In every run whose requests are executed at the owners of their keys, and whose writes do not meet
the copying of their keys, later `GET`s return what the last `PUT` has written. -/
theorem last_write_read {peers : List PeerInfo} {w₀ : World} {y : System} (hstart : Start peers w₀)
    (h : Reach Undisturbed (System.init w₀) y) : LastWriteRead y :=
  fun r resp _ _ hmem hop hseen honly => (h.orderly hstart honly).answers r resp hmem hop hseen

/-! ## A write between the scan and the switch of the route -/

section Examples

instance (s : Cluster) (t : Tablet) : Decidable (ScanFits s t) :=
  inferInstanceAs (Decidable (∀ st ∈ (s.nodes t.nodeId).storage, _))

instance (idx : ℕ) (dst : UInt32) (w : World) : Decidable (MoveFits idx dst w) :=
  inferInstanceAs (Decidable (∀ t ∈ w.1.tablets[idx]?, _))

instance (k : Bytes) (idx : ℕ) (dst : UInt32) (m : Master) : Decidable (Copying k idx dst m) :=
  inferInstanceAs (Decidable (∃ t ∈ m.tablets[idx]?, _))

instance (y : System) (l : Label) : Decidable (Undisturbed y l) :=
  match l with
  | .execute r => decidable_of_iff (r.node = ownerOf y.world.1.tablets r.op.key ∧
      ∀ a ∈ y.action, Copying r.op.key a.1 a.2.1 y.world.1 → r.op = .get r.op.key)
      (and_congr_right fun _ => ⟨fun h idx dst p ha => h (idx, dst, p) ha, fun h _ ha => h _ _ _ ha⟩)
  | .master => decidable_of_iff (∀ a ∈ y.action, MoveFits a.1 a.2.1 y.world)
      ⟨fun h idx dst p ha => h (idx, dst, p) ha, fun h _ ha => h _ _ _ ha⟩
  | .fetch _ => .isTrue trivial
  | .start _ _ => .isTrue trivial
  | .finish => .isTrue trivial

instance decidableMeets {C : System → Label → Prop} [∀ y l, Decidable (C y l)] :
    (y : System) → (ls : List Label) → Decidable (Meets C y ls)
  | _, [] => .isTrue trivial
  | y, l :: ls => @instDecidableAnd _ _ _ (decidableMeets (y.next l) ls)

/-- A client writes the key `a`, and reads it back from `node`. -/
def putA : Routed := ⟨.put [0x61] [0x31], 2, []⟩

def getA (node : UInt32) : Routed := ⟨.get [0x61], node, [(.put [0x61] [0x31], [ST_OK])]⟩

/-- The key is written, read while its tablet is copied to node 3, and read at node 3. -/
def writeFirst : List Label :=
  [.fetch putA.op, .execute putA, .start 0 3] ++ List.replicate 4 .master ++
    [.fetch (getA 2).op, .execute (getA 2)] ++ List.replicate 13 .master ++
      [.finish, .fetch (getA 3).op, .execute (getA 3)]

/-- The key is written at node 2 when the scan was executed there. -/
def writeAfterScan : List Label :=
  [.start 0 3, .fetch putA.op] ++ List.replicate 4 .master ++ [.execute putA] ++
    List.replicate 11 .master ++ [.finish, .fetch (getA 3).op, .execute (getA 3)]

theorem last_write_read_first :
    LastWriteRead (writeFirst.foldl System.next (.init (initialMaster, emptyCluster))) :=
  last_write_read emptyCluster_start (Reach.init.steps writeFirst (by decide +kernel))

/-- The write that came after the scan is not copied, and is deleted with the range. -/
theorem not_last_write_read_after_scan : ¬∀ (peers : List PeerInfo) (w₀ : World) (y : System),
    Start peers w₀ → Reach (fun _ _ => True) (System.init w₀) y → LastWriteRead y := by
  intro hall
  have hreach : Reach (fun _ _ => True) (System.init (initialMaster, emptyCluster))
      (writeAfterScan.foldl System.next (.init (initialMaster, emptyCluster))) :=
    Reach.init.steps writeAfterScan (by decide +kernel)
  have hread := hall twoNodes _ _ emptyCluster_start hreach (getA 3) [ST_NOT_FOUND] [0x61] [0x31]
    (by decide +kernel) rfl List.mem_cons_self (by unfold OnlyWrites; decide +kernel)
  exact absurd hread (by decide)

end Examples

end LeKV
