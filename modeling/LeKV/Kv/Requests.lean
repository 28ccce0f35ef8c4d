import LeKV.Kv.Cluster

/-!
# The Master's requests

Every request of the Master to a DataNode is followed by `RecvFrame` on the same connection, unless
it could not be sent. `Requests R Q p` says this of a program `p` whose requests satisfy `R` and whose
results satisfy `Q`; `Requests.run` is the rule that such programs are run by.
-/

namespace LeKV

open Bytes BinaryProtocol Effects

/-- A request: the node it goes to, its id and its payload. -/
structure Request where
  node : UInt32
  reqId : UInt32
  payload : Bytes
deriving DecidableEq, Repr

/-- The bytes of a request. -/
def Request.data (q : Request) : Bytes := encodeCustomRequest q.reqId q.payload

namespace Balancer

variable {α β : Type}

/-- The program makes requests that satisfy `R`, each followed by `RecvFrame`, and returns results
that satisfy `Q`. -/
inductive Requests (R : Request → Prop) (Q : α → Prop) : Balancer α → Prop where
  | ret {a : α} (h : Q a) : Requests R Q (.ret a)
  | isConnected {node : UInt32} {k : Bool → Balancer α} (h : ∀ b, Requests R Q (k b)) :
      Requests R Q (.op (.isConnected node) k)
  | request {q : Request} {t : ℤ} {k : Bool → Balancer α} {k' : Option Bytes → Balancer α}
      (hq : R q) (hfailed : Requests R Q (k false))
      (hsent : k true = .op (.recvFrame q.node t) k')
      (h : ∀ r : Option Bytes, (∀ f ∈ r, IsFrame f) → Requests R Q (k' r)) :
      Requests R Q (.op (.send q.node q.data) k)

theorem Requests.bind {R : Request → Prop} {P : α → Prop} {Q : β → Prop} {p : Balancer α}
    {f : α → Balancer β} (hp : Requests R P p) (hf : ∀ a, P a → Requests R Q (f a)) :
    Requests R Q (p >>= f) := by
  induction hp with
  | ret h => exact hf _ h
  | isConnected h ih => exact .isConnected ih
  | @request q t k k' hq hfailed hsent h ihf ih =>
    have hsent' : k true >>= f = .op (.recvFrame q.node t) fun r => k' r >>= f := by
      rw [hsent]
      rfl
    exact .request hq ihf hsent' ih

theorem Requests.mono {R R' : Request → Prop} {P Q : α → Prop} {p : Balancer α}
    (hp : Requests R P p) (hR : ∀ q, R q → R' q) (hQ : ∀ a, P a → Q a) : Requests R' Q p := by
  induction hp with
  | ret h => exact .ret (hQ _ h)
  | isConnected h ih => exact .isConnected ih
  | request hq hfailed hsent h ihf ih => exact .request (hR _ hq) ihf hsent ih

/-! ## The Master's programs -/

theorem isConnected_requests (R : Request → Prop) (node : UInt32) :
    Requests R (fun _ => True) (isConnected node) :=
  .isConnected fun _ => .ret trivial

/-- A reply's payload is shorter than its frame. -/
def FitsFrame (payload : Bytes) : Prop := 10 + payload.length < 2 ^ 32

theorem call_requests {R : Request → Prop} {node : UInt32} {payload : Bytes} (timeoutMs : ℤ)
    (hR : R ⟨node, 1, payload⟩) :
    Requests R (fun r => ∀ resp ∈ r, FitsFrame resp) (call node timeoutMs payload) := by
  have hnone : ∀ resp ∈ (none : Option Bytes), FitsFrame resp := fun _ h => absurd h (by simp)
  refine .request (q := ⟨node, 1, payload⟩) hR (.ret hnone) rfl fun r hr => ?_
  rcases r with _ | f
  · exact .ret hnone
  have hf := hr f rfl
  dsimp only [Prog.bind]
  rcases hdec : tryDecode f with _ | ⟨c⟩ | ⟨c, reqId, resp⟩
  · exact .ret hnone
  · exact .ret hnone
  · refine .ret fun _ hresp => ?_
    obtain rfl := Option.some.inj hresp
    have hlen := hf.length_payload hdec
    have hlt := hf.length_eq ▸ frameLength_lt f
    unfold FitsFrame
    omega

theorem queryTabletStats_requests {R : Request → Prop} {node : UInt32} {start end_ : Bytes}
    (hR : R ⟨node, 1, rangePayload OP_TABLET_STATS start end_⟩) :
    Requests R (fun _ => True) (queryTabletStats node start end_) := by
  apply Requests.bind (isConnected_requests R node)
  intro connected _
  cases connected with
  | false => exact .ret trivial
  | true =>
    apply Requests.bind (call_requests 3000 hR)
    intro resp _
    cases resp <;> exact .ret trivial

theorem sendDeleteRange_requests {R : Request → Prop} {node : UInt32} {start end_ : Bytes}
    (hR : R ⟨node, 1, rangePayload OP_DELETE_RANGE start end_⟩) :
    Requests R (fun _ => True) (sendDeleteRange node start end_) := by
  apply Requests.bind (isConnected_requests R node)
  intro connected _
  cases connected with
  | false => exact .ret trivial
  | true =>
    apply Requests.bind (call_requests 10000 hR)
    intro resp _
    cases resp <;> exact .ret trivial

/-- The pairs the transfer loop reads from a scan reply in `rounds` rounds from `pos` on. -/
def pairsFrom (resp : Bytes) : (rounds pos : ℕ) → List (Bytes × Bytes)
  | 0, _ => []
  | rounds + 1, pos =>
    match pairAt resp pos with
    | none => []
    | some (pair, pos') => pair :: pairsFrom resp rounds pos'

/-- What a pair that was read from a reply satisfies, and where the next one starts. -/
theorem pairAt_spec {resp : Bytes} {pos pos' : ℕ} {pair : Bytes × Bytes}
    (h : pairAt resp pos = some (pair, pos')) :
    pair.1.length < 2 ^ 16 ∧ pos' = pos + 6 + pair.1.length + pair.2.length ∧
      pos' ≤ resp.length := by
  unfold pairAt at h
  simp only [Option.bind_eq_bind] at h
  obtain ⟨keyLen, hkl, h⟩ := Option.bind_eq_some_iff.mp h
  obtain ⟨key, hkey, h⟩ := Option.bind_eq_some_iff.mp h
  obtain ⟨vlen, hvl, h⟩ := Option.bind_eq_some_iff.mp h
  obtain ⟨value, hvalue, h⟩ := Option.bind_eq_some_iff.mp h
  obtain ⟨rfl, rfl⟩ := Prod.mk.inj (Option.some.inj h)
  have hk := length_of_bytesAt hkey
  have hv := length_of_bytesAt hvalue
  have hle := (bytesAt_eq_some.mp hvalue).1
  refine ⟨hk ▸ numAt_lt hkl, ?_, hle⟩
  show _ = pos + 6 + key.length + value.length
  omega

/-- A pair whose `PUT` request fits its fields and its frame. -/
def FitsPut (pair : Bytes × Bytes) : Prop :=
  pair.1.length < 2 ^ 16 ∧ 17 + pair.1.length + pair.2.length < 2 ^ 32

/-- A `PUT` request that fits is a frame around its payload. -/
theorem encodeRequest_put {pair : Bytes × Bytes} (h : FitsPut pair) (reqId : UInt32) :
    encodeRequest reqId OP_PUT pair.1 pair.2
      = encodeCustomRequest reqId (kvPayload OP_PUT pair.1 pair.2) := by
  obtain ⟨hkey, hfit⟩ := h
  rw [encodeRequest_eq reqId OP_PUT hkey hfit, encodeCustomRequest_eq]
  rw [length_kvPayload]
  omega

theorem fitsPut_of_pairAt {resp : Bytes} {pos pos' : ℕ} {pair : Bytes × Bytes}
    (hresp : FitsFrame resp) (hpos : 9 ≤ pos) (h : pairAt resp pos = some (pair, pos')) :
    FitsPut pair := by
  obtain ⟨hkey, rfl, hle⟩ := pairAt_spec h
  unfold FitsFrame at hresp
  exact ⟨hkey, by omega⟩

/-- Every pair that the transfer loop reads fits a `PUT` request. -/
theorem fitsPut_of_mem_pairsFrom {resp : Bytes} (hresp : FitsFrame resp) {rounds pos : ℕ}
    (hpos : 9 ≤ pos) : ∀ pair ∈ pairsFrom resp rounds pos, FitsPut pair := by
  induction rounds generalizing pos with
  | zero => exact fun pair hpair => absurd hpair List.not_mem_nil
  | succ rounds ih =>
    intro pair hpair
    rw [pairsFrom] at hpair
    rcases hat : pairAt resp pos with _ | ⟨first, pos'⟩
    · rw [hat] at hpair
      exact absurd hpair List.not_mem_nil
    · rw [hat] at hpair
      rcases List.mem_cons.mp hpair with rfl | hpair
      · exact fitsPut_of_pairAt hresp hpos hat
      · exact ih (hpos.trans (by have := pairAt_spec hat; omega)) pair hpair

theorem transferLoop_requests {R : Request → Prop} {dst : UInt32} {resp : Bytes}
    (hresp : FitsFrame resp) {rounds : ℕ} (i : ℕ) {pos : ℕ} (hpos : 9 ≤ pos) (transferred : ℕ)
    (hR : ∀ pair ∈ pairsFrom resp rounds pos, ∀ reqId,
      R ⟨dst, reqId, kvPayload OP_PUT pair.1 pair.2⟩) :
    Requests R (fun _ => True) (transferLoop dst resp rounds i pos transferred) := by
  induction rounds generalizing i pos transferred with
  | zero => exact .ret trivial
  | succ rounds ih =>
    rw [transferLoop]
    rw [pairsFrom] at hR
    rcases hat : pairAt resp pos with _ | ⟨pair, pos'⟩
    · exact .ret trivial
    · rw [hat] at hR
      have hpos' : 9 ≤ pos' := hpos.trans (by have := pairAt_spec hat; omega)
      have hrest := fun i transferred => ih i hpos' transferred
        fun p hp => hR p (List.mem_cons_of_mem _ hp)
      simp only [encodeRequest_put (fitsPut_of_pairAt hresp hpos hat)]
      refine .request (q := ⟨dst, _, _⟩) (hR pair List.mem_cons_self _) (hrest _ _) rfl
        fun r _ => ?_
      cases r <;> exact hrest _ _

theorem scanAndTransferData_requests {R : Request → Prop} {src dst : UInt32} {start end_ : Bytes}
    (hscan : R ⟨src, 1, rangePayload OP_SCAN_RANGE start end_⟩)
    (hput : ∀ pair, FitsPut pair → ∀ reqId, R ⟨dst, reqId, kvPayload OP_PUT pair.1 pair.2⟩) :
    Requests R (fun _ => True) (scanAndTransferData src dst start end_) := by
  apply Requests.bind (isConnected_requests R src)
  intro connected _
  cases connected with
  | false => exact .ret trivial
  | true =>
    apply Requests.bind (isConnected_requests R dst)
    intro connected _
    cases connected with
    | false => exact .ret trivial
    | true =>
      apply Requests.bind (call_requests 30000 hscan)
      intro resp hresp
      rcases resp with _ | resp
      · exact .ret trivial
      · dsimp only [Prog.bind]
        rcases scanCount resp with _ | count
        · exact .ret trivial
        · have hfits := hresp resp rfl
          refine Requests.bind (transferLoop_requests hfits 0 le_rfl 0 fun pair hpair => ?_)
            fun _ _ => .ret trivial
          exact hput pair (fitsPut_of_mem_pairsFrom hfits le_rfl pair hpair)

end Balancer

/-! ## Running them -/

open Balancer

/-- What a cluster does with a request: the request and `RecvFrame`, or a failed `Send` alone. -/
def Cluster.after (s : Cluster) (q : Request) (timeoutMs : ℤ) : Cluster :=
  if (s.connections q.node).sendOutcome.ok then (s.send q.node q.data).recvFrame q.node timeoutMs
  else s.send q.node q.data

theorem Cluster.nodes_after (s : Cluster) (q : Request) (timeoutMs : ℤ) :
    (s.after q timeoutMs).nodes = (s.send q.node q.data).nodes := by
  unfold Cluster.after
  split_ifs <;> rfl

/-- The payload of a received frame that `TryDecode` accepts. -/
def decodeReply : Option Bytes → Option Bytes
  | none => none
  | some f =>
    match tryDecode f with
    | some (.ok _ _ respPayload) => some respPayload
    | _ => none

namespace Environment

variable {σ : Type} {E : Environment σ} {m : Master} {s : σ}

/-- A call whose request is sent returns what it decodes. -/
theorem run_call {node : UInt32} {payload : Bytes}
    (hsent : (E.send node (encodeCustomRequest 1 payload) s).1 = true) (timeoutMs : ℤ) :
    E.run (call node timeoutMs payload) (m, s) =
      (some (decodeReply (E.recvFrame node timeoutMs
          (E.send node (encodeCustomRequest 1 payload) s).2).1),
        (m, (E.recvFrame node timeoutMs (E.send node (encodeCustomRequest 1 payload) s).2).2)) := by
  unfold call
  rw [run_send, hsent, if_neg (not_not.mpr rfl), run_recvFrame]
  rcases (E.recvFrame node timeoutMs (E.send node (encodeCustomRequest 1 payload) s).2).1 with _ | f
  · rfl
  · dsimp only [decodeReply]
    rcases tryDecode f with _ | ⟨c⟩ | ⟨c, reqId, resp⟩ <;> rfl

/-- A call whose request is not sent returns nothing. -/
theorem run_call_unsent {node : UInt32} {payload : Bytes}
    (hsent : ¬(E.send node (encodeCustomRequest 1 payload) s).1 = true) (timeoutMs : ℤ) :
    E.run (call node timeoutMs payload) (m, s)
      = (some none, (m, (E.send node (encodeCustomRequest 1 payload) s).2)) := by
  unfold call
  rw [run_send, if_pos hsent]
  rfl

end Environment

/-- The frame the Master receives after a request. -/
def Cluster.received (s : Cluster) (q : Request) (timeoutMs : ℤ) : Option Bytes :=
  if (s.connections q.node).sendOutcome.ok then
    (((s.send q.node q.data).connections q.node).recvFrame timeoutMs).1
  else none

/-- What the Master takes for the reply to a request. -/
def Cluster.reply (s : Cluster) (q : Request) (timeoutMs : ℤ) : Option Bytes :=
  decodeReply (s.received q timeoutMs)

section Calls

variable (m : Master) (s : Cluster) (node : UInt32)

theorem run_call (timeoutMs : ℤ) (payload : Bytes) :
    Cluster.env.run (call node timeoutMs payload) (m, s)
      = (some (s.reply ⟨node, 1, payload⟩ timeoutMs), (m, s.after ⟨node, 1, payload⟩ timeoutMs)) := by
  rw [Cluster.reply, Cluster.received, Cluster.after]
  by_cases hok : (s.connections node).sendOutcome.ok = true
  · rw [Environment.run_call hok timeoutMs]
    simp only [if_pos hok]
    rfl
  · rw [Environment.run_call_unsent hok timeoutMs]
    simp only [if_neg hok]
    rfl

/-- `QueryTabletStats` to a connected node. -/
theorem run_queryTabletStats (hconn : (s.connections node).connected = true) (start end_ : Bytes) :
    Cluster.env.run (queryTabletStats node start end_) (m, s)
      = (some ((s.reply ⟨node, 1, rangePayload OP_TABLET_STATS start end_⟩ 3000).bind parseStats),
          (m, s.after ⟨node, 1, rangePayload OP_TABLET_STATS start end_⟩ 3000)) := by
  unfold queryTabletStats
  rw [Environment.run_isConnected]
  show Cluster.env.run (if ¬(s.connections node).connected = true then _ else _) _ = _
  rw [if_neg (not_not.mpr hconn), Environment.run_bind_some (run_call m s node _ _)]
  cases s.reply ⟨node, 1, rangePayload OP_TABLET_STATS start end_⟩ 3000 <;> rfl

/-- `QueryTabletStats` without a connection. -/
theorem run_queryTabletStats_closed (hconn : ¬(s.connections node).connected = true)
    (start end_ : Bytes) :
    Cluster.env.run (queryTabletStats node start end_) (m, s) = (some none, (m, s)) := by
  unfold queryTabletStats
  rw [Environment.run_isConnected]
  exact congrArg (fun p => Cluster.env.run p (m, s)) (if_pos hconn)

/-- `SendDeleteRange` to a connected node. -/
theorem run_sendDeleteRange (hconn : (s.connections node).connected = true) (start end_ : Bytes) :
    Cluster.env.run (sendDeleteRange node start end_) (m, s)
      = (some ((s.reply ⟨node, 1, rangePayload OP_DELETE_RANGE start end_⟩ 10000).any
            fun resp => decide (resp.head? = some ST_OK)),
          (m, s.after ⟨node, 1, rangePayload OP_DELETE_RANGE start end_⟩ 10000)) := by
  unfold sendDeleteRange
  rw [Environment.run_isConnected]
  show Cluster.env.run (if ¬(s.connections node).connected = true then _ else _) _ = _
  rw [if_neg (not_not.mpr hconn), Environment.run_bind_some (run_call m s node _ _)]
  cases s.reply ⟨node, 1, rangePayload OP_DELETE_RANGE start end_⟩ 10000 <;> rfl

/-- `ScanAndTransferData` between connected nodes: the scan, and the transfer loop on what the Master
takes for its reply. -/
theorem run_scanAndTransferData {src dst : UInt32} (hsrc : (s.connections src).connected = true)
    (hdst : (s.connections dst).connected = true) (start end_ : Bytes) :
    let q : Request := ⟨src, 1, rangePayload OP_SCAN_RANGE start end_⟩
    Cluster.env.run (scanAndTransferData src dst start end_) (m, s) =
      match s.reply q 30000 with
      | none => (some false, (m, s.after q 30000))
      | some resp =>
        match scanCount resp with
        | none => (some false, (m, s.after q 30000))
        | some count => Cluster.env.run (do
            let transferred ← transferLoop dst resp count 0 9 0
            return decide (transferred = count)) (m, s.after q 30000) := by
  intro q
  unfold scanAndTransferData
  rw [Environment.run_isConnected]
  show Cluster.env.run (if ¬(s.connections src).connected = true then _ else _) _ = _
  rw [if_neg (not_not.mpr hsrc), Environment.run_isConnected]
  show Cluster.env.run (if ¬(s.connections dst).connected = true then _ else _) _ = _
  rw [if_neg (not_not.mpr hdst), Environment.run_bind_some (run_call m s src _ _)]
  rcases s.reply q 30000 with _ | resp
  · rfl
  · show Cluster.env.run (match scanCount resp with | none => _ | some count => _) _ = _
    rcases hcount : scanCount resp with _ | count <;> simp only [hcount] <;> rfl

/-- One round of the transfer loop: a `PUT` of the pair, counted when a frame comes back. -/
theorem run_transferLoop_succ {dst : UInt32} {resp : Bytes} {pos pos' : ℕ} {pair : Bytes × Bytes}
    (hat : pairAt resp pos = some (pair, pos')) (hpair : FitsPut pair) (rounds i transferred : ℕ) :
    let q : Request := ⟨dst, UInt32.ofNat (i + 2), kvPayload OP_PUT pair.1 pair.2⟩
    Cluster.env.run (transferLoop dst resp (rounds + 1) i pos transferred) (m, s)
      = Cluster.env.run (transferLoop dst resp rounds (i + 1) pos'
          (transferred + if (s.received q 5000).isSome then 1 else 0)) (m, s.after q 5000) := by
  intro q
  rw [transferLoop, hat]
  dsimp only
  rw [encodeRequest_put hpair, Environment.run_send]
  show Cluster.env.run (if ¬(s.connections dst).sendOutcome.ok = true then _ else _) _ = _
  rw [Cluster.received, Cluster.after]
  show _ = Cluster.env.run (transferLoop _ _ _ _ _
    (_ + if (if (s.connections dst).sendOutcome.ok = true then _ else _ : Option Bytes).isSome
      then 1 else 0)) (m, if (s.connections dst).sendOutcome.ok = true then _ else _)
  by_cases hok : (s.connections dst).sendOutcome.ok = true
  · rw [if_neg (not_not.mpr hok), if_pos hok, if_pos hok, Environment.run_recvFrame]
    show Cluster.env.run (match (((s.send dst q.data).connections dst).recvFrame 5000).1 with
      | none => _ | some f => _) _ = _
    rcases (((s.send dst q.data).connections dst).recvFrame 5000).1 with _ | f <;> rfl
  · rw [if_pos hok, if_neg hok, if_neg hok]
    rfl

end Calls

/-- `RecvFrame` returns well-formed frames only. -/
theorem isFrame_of_recvFrame {c : Connection} {timeoutMs : ℤ} {f : Bytes}
    (h : (c.recvFrame timeoutMs).1 = some f) : IsFrame f := by
  have hspec := (c.recvFrame_spec timeoutMs).1
  rw [h] at hspec
  split_ifs at hspec with hready
  obtain rfl := Option.some.inj hspec
  have hwire := c.arriving_le
  have hlen : c.pending.length = c.here.length + c.wire.length := List.length_append
  exact isFrame_take hready.1 (by have := hready.2; omega)

/-- What every request keeps, a program of requests keeps; and it ends with a result. -/
theorem Balancer.Requests.run {α : Type} {R : Request → Prop} {Q : α → Prop} {p : Balancer α}
    (hp : Requests R Q p) {J : Cluster → Prop}
    (hstep : ∀ q timeoutMs s, R q → J s → J (s.after q timeoutMs)) (m : Master) {s : Cluster}
    (hs : J s) :
    ∃ a s', Cluster.env.run p (m, s) = (some a, (m, s')) ∧ Q a ∧ J s' := by
  induction hp generalizing s with
  | ret h => exact ⟨_, s, rfl, h, hs⟩
  | @isConnected node k h ih => exact ih (Cluster.env.isConnected node s) hs
  | @request q t k k' hq hfailed hsent h ihf ih =>
    have hafter := hstep q t s hq hs
    unfold Cluster.after at hafter
    show ∃ a s', Cluster.env.run (k (s.connections q.node).sendOutcome.ok)
      (m, s.send q.node q.data) = (some a, (m, s')) ∧ Q a ∧ J s'
    by_cases hok : (s.connections q.node).sendOutcome.ok = true
    · rw [if_pos hok] at hafter
      rw [hok, hsent]
      refine ih (((s.send q.node q.data).connections q.node).recvFrame t).1 ?_ hafter
      exact fun f hf => isFrame_of_recvFrame hf
    · rw [if_neg hok] at hafter
      rw [Bool.eq_false_iff.mpr hok]
      exact ihf hafter

/-- What every request keeps, and every wait for a frame, holds at all points of a program of
requests. -/
theorem Balancer.Requests.always {α : Type} {R : Request → Prop} {Q : α → Prop} {p : Balancer α}
    (hp : Requests R Q p) {J : Cluster → Prop}
    (hsend : ∀ q s, R q → J s → J (s.send q.node q.data))
    (hrecv : ∀ node timeoutMs s, J s → J (s.recvFrame node timeoutMs)) (m : Master) {s : Cluster}
    (hs : J s) : Cluster.env.Always p (fun w => w.1 = m ∧ J w.2) (m, s) := by
  induction hp generalizing s with
  | ret h => exact (Environment.always_ret _ _).mpr ⟨rfl, hs⟩
  | @isConnected node k h ih =>
    exact (Environment.always_isConnected node k).mpr ⟨⟨rfl, hs⟩, ih _ hs⟩
  | @request q t k k' hq hfailed hsent h ihf ih =>
    have hafter := hsend q s hq hs
    refine (Environment.always_send q.node q.data k).mpr ⟨⟨rfl, hs⟩, ?_⟩
    show Cluster.env.Always (k (s.connections q.node).sendOutcome.ok) _ (m, s.send q.node q.data)
    by_cases hok : (s.connections q.node).sendOutcome.ok = true
    · rw [hok, hsent]
      refine (Environment.always_recvFrame q.node t k').mpr ⟨⟨rfl, hafter⟩, ?_⟩
      exact ih (((s.send q.node q.data).connections q.node).recvFrame t).1
        (fun f hf => isFrame_of_recvFrame hf) (hrecv q.node t _ hafter)
    · rw [Bool.eq_false_iff.mpr hok]
      exact ihf hafter

end LeKV
