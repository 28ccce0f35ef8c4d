import LeKV.Kv.RangeRequests
import LeKV.Rpc.IllegalFrames

/-!
# A transfer is complete or reports failure

`ScanAndTransferData` reads its reply with checks that are to keep every read inside it, and sends one
`PUT` per pair. `scanTransfer_spec` says in any environment what a transfer that returns `true` has
sent; `scanTransfer_complete` says it of the reply of a DataNode's scan, of any size.
-/

namespace LeKV

open Bytes BinaryProtocol Balancer DataNode

/-! ## Checks and reads -/

/-- The front of a scan reply, with the checks and the reads apart: `none` is a read outside the
reply, `some none` a check that returns `false`. -/
def readCount (resp : Bytes) : Option (Option ℕ) := do
  if resp.length = 0 then return none
  let status ← resp[0]?
  if status ≠ ST_OK then return none
  if resp.length < 5 then return none
  let valLen ← numAt resp 1 4
  if resp.length < (5 + valLen) % 2 ^ 32 then return none
  if resp.length < 5 + 4 then return none
  let count ← numAt resp 5 4
  return some count

/-- One round of the transfer loop's reads, with its checks apart: `some none` leaves the loop. -/
def readPair (resp : Bytes) (pos : ℕ) : Option (Option ((Bytes × Bytes) × ℕ)) := do
  if resp.length < pos + 2 then return none
  let keyLen ← numAt resp pos 2
  if resp.length < pos + 2 + keyLen then return none
  let key ← bytesAt resp (pos + 2) keyLen
  if resp.length < pos + 2 + keyLen + 4 then return none
  let vlen ← numAt resp (pos + 2 + keyLen) 4
  if resp.length < pos + 2 + keyLen + 4 + vlen then return none
  let value ← bytesAt resp (pos + 2 + keyLen + 4) vlen
  return some ((key, value), pos + 2 + keyLen + 4 + vlen)

/-- The checks cover the reads of the front, whatever the reply holds. -/
theorem readCount_eq (resp : Bytes) : readCount resp = some (scanCount resp) := by
  unfold readCount scanCount
  simp only [Option.bind_eq_bind]
  rcases resp with _ | ⟨status, rest⟩
  · rfl
  generalize hresp : status :: rest = resp
  have hne : ¬resp.length = 0 := by rw [← hresp]; simp
  have hhead : resp.head? = some status := by rw [← hresp]; rfl
  have hzero : resp[0]? = some status := by rw [← hresp]; rfl
  rw [if_neg hne, hzero, Option.bind_some, hhead]
  by_cases hstatus : status ≠ ST_OK
  · have hsome : some status ≠ some ST_OK := fun h => hstatus (Option.some.inj h)
    rw [if_pos hstatus, if_pos hsome]
    rfl
  have hsome : some status = some ST_OK := congrArg some (not_not.mp hstatus)
  rw [if_neg hstatus, if_neg (not_not.mpr hsome)]
  by_cases hshort : resp.length < 5
  · rw [if_pos hshort, if_pos hshort]
    rfl
  rw [if_neg hshort, if_neg hshort, numAt_of_le (by omega), Option.bind_some, Option.bind_some]
  generalize readBE ((resp.drop 1).take 4) = valLen
  by_cases hval : resp.length < (5 + valLen) % 2 ^ 32
  · rw [if_pos hval, if_pos hval]
    rfl
  rw [if_neg hval, if_neg hval]
  by_cases hcount : resp.length < 5 + 4
  · rw [if_pos hcount, numAt_eq_none.mpr hcount]
    rfl
  · rw [if_neg hcount, numAt_of_le (by omega), Option.bind_some]
    rfl

/-- The checks of a round cover its reads, at every position of any reply. -/
theorem readPair_eq (resp : Bytes) (pos : ℕ) : readPair resp pos = some (pairAt resp pos) := by
  unfold readPair pairAt
  simp only [Option.bind_eq_bind]
  by_cases hkeyLen : resp.length < pos + 2
  · rw [if_pos hkeyLen, numAt_eq_none.mpr hkeyLen]
    rfl
  rw [if_neg hkeyLen, numAt_of_le (by omega), Option.bind_some, Option.bind_some]
  generalize readBE ((resp.drop pos).take 2) = keyLen
  by_cases hkey : resp.length < pos + 2 + keyLen
  · rw [if_pos hkey, bytesAt_eq_none.mpr hkey]
    rfl
  rw [if_neg hkey, bytesAt_of_le (by omega), Option.bind_some, Option.bind_some]
  by_cases hvlen : resp.length < pos + 2 + keyLen + 4
  · rw [if_pos hvlen, numAt_eq_none.mpr hvlen]
    rfl
  rw [if_neg hvlen, numAt_of_le (by omega), Option.bind_some, Option.bind_some]
  generalize readBE ((resp.drop (pos + 2 + keyLen)).take 4) = vlen
  by_cases hvalue : resp.length < pos + 2 + keyLen + 4 + vlen
  · rw [if_pos hvalue, bytesAt_eq_none.mpr hvalue]
    rfl
  · rw [if_neg hvalue, bytesAt_of_le (by omega), Option.bind_some, Option.bind_some]
    rfl

/-! ## What a run sends -/

namespace Environment

variable {σ α β : Type} (E : Environment σ)

/-- The requests that a program sends, in order: those that `Send` reports as sent. -/
def sends (p : Balancer α) (w : Master × σ) : List (UInt32 × Bytes) :=
  (E.visits p w).filterMap fun x =>
    match x.1 with
    | .send node data => if (E.send node data x.2.2).1 then some (node, data) else none
    | _ => none

/-- Every request to `node` among some operations is sent, and every wait for its reply ends with
one. -/
structure Answered (node : UInt32) (visits : List (MasterOp × (Master × σ))) : Prop where
  sent : ∀ data w, (.send node data, w) ∈ visits → (E.send node data w.2).1 = true
  received : ∀ t w, (.recvFrame node t, w) ∈ visits → (E.recvFrame node t w.2).1.isSome = true

variable {E} {m : Master} {s : σ}

theorem Answered.mono {node : UInt32} {l l' : List (MasterOp × (Master × σ))} (h : E.Answered node l)
    (hsub : ∀ x ∈ l', x ∈ l) : E.Answered node l' :=
  ⟨fun data w hx => h.sent data w (hsub _ hx), fun t w hx => h.received t w (hsub _ hx)⟩

theorem sends_isConnected (node : UInt32) (f : Bool → Balancer α) :
    E.sends (Balancer.isConnected node >>= f) (m, s)
      = E.sends (f (E.isConnected node s)) (m, s) := rfl

theorem sends_recvFrame (node : UInt32) (t : ℤ) (f : Option Bytes → Balancer α) :
    E.sends (Balancer.recvFrame node t >>= f) (m, s)
      = E.sends (f (E.recvFrame node t s).1) (m, (E.recvFrame node t s).2) := rfl

theorem sends_bind_some {p : Balancer α} {f : α → Balancer β} {w w' : Master × σ} {a : α}
    (hp : E.run p w = (some a, w')) : E.sends (p >>= f) w = E.sends p w ++ E.sends (f a) w' := by
  rw [sends, visits_bind_some hp, List.filterMap_append]
  rfl

theorem sends_send (node : UInt32) (data : Bytes) (f : Bool → Balancer α) :
    E.sends (Balancer.send node data >>= f) (m, s)
      = (if (E.send node data s).1 then [(node, data)] else []) ++
          E.sends (f (E.send node data s).1) (m, (E.send node data s).2) := by
  rw [sends, visits_send, List.filterMap_cons]
  rcases hok : (E.send node data s).1 with _ | _
  · simp only [hok]
    rfl
  · simp only [hok]
    rfl

/-- A call sends its request, and nothing else. -/
theorem sends_call {node : UInt32} {payload : Bytes}
    (hsent : (E.send node (encodeCustomRequest 1 payload) s).1 = true) (timeoutMs : ℤ) :
    E.sends (call node timeoutMs payload) (m, s) = [(node, encodeCustomRequest 1 payload)] := by
  unfold call
  rw [sends_send, hsent, if_pos rfl, if_neg (not_not.mpr rfl), sends_recvFrame]
  rcases (E.recvFrame node timeoutMs (E.send node (encodeCustomRequest 1 payload) s).2).1 with _ | f
  · rfl
  · dsimp only
    rcases tryDecode f with _ | ⟨c⟩ | ⟨c, reqId, resp⟩ <;> rfl

end Environment

/-- The `PUT`s of some pairs, as the transfer loop numbers them from round `i` on. -/
def putsFrom (dst : UInt32) : ℕ → List (Bytes × Bytes) → List (UInt32 × Bytes)
  | _, [] => []
  | i, e :: pairs => (dst, encodeRequest (UInt32.ofNat (i + 2)) OP_PUT e.1 e.2) ::
      putsFrom dst (i + 1) pairs

section Transfer

variable {σ : Type} (E : Environment σ) (m : Master)

/-- One round of the transfer loop in any environment: it is counted if its `PUT` is sent and
answered. -/
theorem run_transferLoop_round (dst : UInt32) {resp : Bytes} {pos pos' : ℕ} {pair : Bytes × Bytes}
    (hat : pairAt resp pos = some (pair, pos')) (rounds i transferred : ℕ) (s : σ) :
    let p := transferLoop dst resp (rounds + 1) i pos transferred
    let data := encodeRequest (UInt32.ofNat (i + 2)) OP_PUT pair.1 pair.2
    ∃ (counted : Bool) (s' : σ),
      let p' := transferLoop dst resp rounds (i + 1) pos' (transferred + counted.toNat)
      E.run p (m, s) = E.run p' (m, s') ∧
        (counted = true → E.sends p (m, s) = (dst, data) :: E.sends p' (m, s')) ∧
        (E.Answered dst (E.visits p (m, s)) →
          counted = true ∧ E.Answered dst (E.visits p' (m, s'))) := by
  intro p data
  simp only [p, transferLoop, hat]
  rw [Environment.run_send, Environment.sends_send, Environment.visits_send]
  rcases hsent : (E.send dst data s).1 with _ | _
  · -- the request was not sent
    refine ⟨false, (E.send dst data s).2, rfl, fun h => absurd h Bool.false_ne_true, fun hall => ?_⟩
    have hsent' := hall.sent data (m, s) List.mem_cons_self
    exact absurd (hsent.symm.trans hsent') Bool.false_ne_true
  rw [if_neg (not_not.mpr rfl), Environment.run_recvFrame, Environment.sends_recvFrame,
    Environment.visits_recvFrame]
  rcases hreply : (E.recvFrame dst 5000 (E.send dst data s).2).1 with _ | f
  · -- no reply came
    refine ⟨false, _, rfl, fun h => absurd h Bool.false_ne_true, fun hall => ?_⟩
    have hreply' := hall.received 5000 (m, (E.send dst data s).2)
      (List.mem_cons_of_mem _ List.mem_cons_self)
    rw [hreply] at hreply'
    exact absurd hreply' Bool.false_ne_true
  · exact ⟨true, _, rfl, fun _ => rfl, fun hall => ⟨rfl, hall.mono fun x hx =>
      List.mem_cons_of_mem _ (List.mem_cons_of_mem _ hx)⟩⟩

/-- The transfer loop in any environment: it ends, it counts every round only if it has read and sent
that many pairs, and it does so if they are there and all its `PUT`s are answered. -/
theorem run_transferLoop_sends (dst : UInt32) (resp : Bytes) (rounds i pos transferred : ℕ) (s : σ) :
    let p := transferLoop dst resp rounds i pos transferred
    ∃ r s', E.run p (m, s) = (some r, (m, s')) ∧ r ≤ transferred + rounds ∧
      (r = transferred + rounds → (pairsFrom resp rounds pos).length = rounds ∧
        E.sends p (m, s) = putsFrom dst i (pairsFrom resp rounds pos)) ∧
      ((pairsFrom resp rounds pos).length = rounds → E.Answered dst (E.visits p (m, s)) →
        r = transferred + rounds) := by
  induction rounds generalizing i pos transferred s with
  | zero => exact ⟨transferred, s, rfl, le_rfl, fun _ => ⟨rfl, rfl⟩, fun _ _ => rfl⟩
  | succ rounds ih =>
    intro p
    rcases hat : pairAt resp pos with _ | ⟨pair, pos'⟩
    · -- the reply ends here, with this round still to go
      have hp : p = pure transferred := by
        simp only [p, transferLoop, hat]
      have hnil : pairsFrom resp (rounds + 1) pos = [] := by rw [pairsFrom, hat]
      refine ⟨transferred, s, by rw [hp]; rfl, by omega, fun h => by omega, fun h => ?_⟩
      rw [hnil] at h
      exact absurd h (by simp)
    have hpairs : pairsFrom resp (rounds + 1) pos = pair :: pairsFrom resp rounds pos' := by
      rw [pairsFrom, hat]
    obtain ⟨counted, s₁, hround, hfirst, hanswered⟩ :=
      run_transferLoop_round E m dst hat rounds i transferred s
    obtain ⟨r, s', hrun, hle, hsends, hall⟩ := ih (i + 1) pos' (transferred + counted.toNat) s₁
    have hcounted := counted.toNat_le
    rw [hpairs, List.length_cons, Nat.add_left_inj]
    refine ⟨r, s', hround.trans hrun, by omega, fun h => ?_, fun h hvisits => ?_⟩
    · -- all rounds are counted only if this one is
      have hone : counted.toNat = 1 := by omega
      obtain ⟨hcount, hlist⟩ := hsends (by omega)
      exact ⟨hcount, (hfirst (Bool.toNat_eq_one.mp hone)).trans (congrArg (_ :: ·) hlist)⟩
    · obtain ⟨rfl, hrest⟩ := hanswered hvisits
      have hr := hall h hrest
      rw [Bool.toNat_true] at hr
      omega

/-- `ScanAndTransferData` in any environment: it ends. If it returns `true`, it has read as many
complete pairs as the reply announces, and sent the `PUT`s of just these pairs; and it does so if
all of its requests are answered. -/
theorem run_scanAndTransferData_sends (src dst : UInt32) (start end_ : Bytes) (s : σ) :
    let p := scanAndTransferData src dst start end_
    let data := encodeCustomRequest 1 (rangePayload OP_SCAN_RANGE start end_)
    let reply := decodeReply (E.recvFrame src 30000 (E.send src data s).2).1
    ∃ b s', E.run p (m, s) = (some b, (m, s')) ∧
      (b = true → ∃ resp count, reply = some resp ∧ scanCount resp = some count ∧
        (pairsFrom resp count 9).length = count ∧
        E.sends p (m, s) = (src, data) :: putsFrom dst 0 (pairsFrom resp count 9)) ∧
      ∀ resp count, E.isConnected src s = true → E.isConnected dst s = true →
        (E.send src data s).1 = true → reply = some resp → scanCount resp = some count →
        (pairsFrom resp count 9).length = count → E.Answered dst (E.visits p (m, s)) → b = true := by
  intro p data reply
  have hfalse : ∀ {P : Prop}, false = true → P := fun h => absurd h Bool.false_ne_true
  simp only [p, scanAndTransferData]
  rw [Environment.run_isConnected, Environment.sends_isConnected, Environment.visits_isConnected]
  -- each early return contradicts one hypothesis of the last part
  rcases hsrc : E.isConnected src s with _ | _
  · exact ⟨false, s, rfl, hfalse, fun _ _ h => hfalse h⟩
  rw [if_neg (not_not.mpr rfl), Environment.run_isConnected, Environment.sends_isConnected,
    Environment.visits_isConnected]
  rcases hdst : E.isConnected dst s with _ | _
  · exact ⟨false, s, rfl, hfalse, fun _ _ _ h => hfalse h⟩
  rw [if_neg (not_not.mpr rfl)]
  by_cases hsent : (E.send src data s).1 = true
  swap
  · refine ⟨false, (E.send src data s).2, ?_, hfalse, fun _ _ _ _ h => absurd h hsent⟩
    rw [Environment.run_bind_some (Environment.run_call_unsent hsent 30000)]
    rfl
  have hcall := Environment.run_call (m := m) hsent 30000
  rw [Environment.run_bind_some hcall, Environment.sends_bind_some hcall,
    Environment.sends_call hsent 30000, Environment.visits_bind_some hcall]
  simp only [reply]
  generalize (E.recvFrame src 30000 (E.send src data s).2).2 = s₁
  rcases decodeReply (E.recvFrame src 30000 (E.send src data s).2).1 with _ | resp
  · exact ⟨false, s₁, rfl, hfalse, fun _ _ _ _ _ h => absurd h (by simp)⟩
  dsimp only
  rcases hcount : scanCount resp with _ | count
  · refine ⟨false, s₁, rfl, hfalse, fun _ _ _ _ _ hresp hcount' => ?_⟩
    obtain rfl := Option.some.inj hresp
    exact absurd (hcount.symm.trans hcount') (by simp)
  dsimp only
  obtain ⟨r, s', hrun, hle, hsends, hall⟩ := run_transferLoop_sends E m dst resp count 0 9 0 s₁
  rw [Environment.run_bind_some hrun, Environment.sends_bind_some hrun,
    Environment.visits_bind_some hrun]
  refine ⟨decide (r = count), s', rfl, fun h => ?_, ?_⟩
  · obtain ⟨hlen, hlist⟩ := hsends (by simpa using h)
    exact ⟨resp, count, rfl, hcount, hlen, by rw [hlist]; exact congrArg (_ :: ·) (List.append_nil _)⟩
  · rintro _ _ - - - hresp hcount' hlen hanswered
    obtain rfl := Option.some.inj hresp
    obtain rfl := Option.some.inj (hcount.symm.trans hcount')
    have hr := hall hlen (hanswered.mono fun x hx => List.mem_cons_of_mem _ (List.mem_cons_of_mem _
      (List.mem_append_right _ (List.mem_append_left _ hx))))
    exact decide_eq_true (by omega)

end Transfer

/-! ## The reply of a DataNode's scan -/

/-- The pairs of a range scan come in key order. -/
theorem pairwise_rangeQuery (st : StorageEngine) (start end_ : Bytes) :
    (st.rangeQuery start end_).Pairwise fun a b => a.1 < b.1 := by
  rw [StorageEngine.rangeQuery, SortedMap.range_eq_filter]
  exact st.db.sorted.filter _

theorem length_rangeQuery_le (st : StorageEngine) (start end_ : Bytes) :
    (st.rangeQuery start end_).length ≤ st.db.entries.length := by
  rw [StorageEngine.rangeQuery, SortedMap.range_eq_filter]
  exact List.length_filter_le _ _

/-- Of a scan reply of any size, as far as its length field goes, either all pairs are read or fewer
than it announces. -/
theorem pairs_of_scanReply {pairs : List (Bytes × Bytes)} (hpairs : ∀ e ∈ pairs, Storable e)
    (hcount : pairs.length < 2 ^ 32) {resp : Bytes} {count : ℕ}
    (hresp : let reply := packResponse 1 (ST_OK :: scanBody pairs)
      decodeReply (some (reply.take (frameLength reply))) = some resp)
    (hscan : scanCount resp = some count) (hlen : (pairsFrom resp count 9).length = count) :
    pairsFrom resp count 9 = pairs ∧ FitsFrame resp := by
  have hread := scanCount_received pairs
  have hall : announced pairs = pairs.length := Nat.mod_eq_of_lt hcount
  by_cases hfits : 15 + bodyRoom pairs < 2 ^ 32
  · simp only [if_pos hfits] at hread
    obtain rfl := Option.some.inj (hread.symm.trans hresp)
    rw [scanCount_scanPayload hfits] at hscan
    split_ifs at hscan with hfour
    obtain rfl := Option.some.inj hscan
    have hfound := pairsFrom_scanPayload hpairs hfour
    split_ifs at hfound with hwhole
    · rw [hall, List.take_length, ← hall] at hfound
      exact ⟨hfound, fitsFrame_scanPayload hfits⟩
    · omega
  · -- the length field wrapped: no reply is decoded, or one without a count
    simp only [if_neg hfits] at hread
    by_cases hten : 10 ≤ frameLength (packResponse 1 (ST_OK :: scanBody pairs))
    · exact absurd (hscan.symm.trans (hread hten resp hresp)) (by simp)
    · have hshort : ((packResponse 1 (ST_OK :: scanBody pairs)).take
          (frameLength (packResponse 1 (ST_OK :: scanBody pairs)))).length < 10 :=
        (List.length_take_le _ _).trans_lt (not_le.mp hten)
      dsimp only [decodeReply] at hresp
      rw [tryDecode_short hshort] at hresp
      exact absurd hresp (by simp)

/-- A transfer is complete or reports failure. Whatever reply comes, it ends, all its reads are inside
the reply, and it returns `true` only after as many complete pairs as the reply announces. On the
reply to a DataNode's scan, of any size, a transfer that returns `true` has sent one `PUT` for each
stored pair of the range, in key order; and it returns `true` if the reply fits a frame and its
requests are answered. -/
theorem scanTransfer_complete {σ : Type} (E : Environment σ) (m : Master) (s : σ)
    (src dst : UInt32) (start end_ : Bytes) :
    let p := scanAndTransferData src dst start end_
    let data := encodeCustomRequest 1 (rangePayload OP_SCAN_RANGE start end_)
    let received := (E.recvFrame src 30000 (E.send src data s).2).1
    (∃ b s', E.run p (m, s) = (some b, (m, s')) ∧
      (b = true → ∃ resp count, decodeReply received = some resp ∧ scanCount resp = some count ∧
        (pairsFrom resp count 9).length = count)) ∧
    (∀ resp, readCount resp = some (scanCount resp) ∧
      ∀ pos, readPair resp pos = some (pairAt resp pos)) ∧
    ∀ st : StorageEngine, (∀ e ∈ st.db.entries, e.1.length ≤ 65535 ∧ e.2.length < 2 ^ 32) →
      st.db.entries.length < 2 ^ 32 →
      let reply := packResponse 1 ((DataNode.mk (some st)).scanRange start end_).1
      (∀ f ∈ received, f = reply.take (frameLength reply)) →
      ∃ pairs : List (Bytes × Bytes), pairs.Pairwise (fun a b => a.1 < b.1) ∧
        (∀ e, e ∈ pairs ↔ st.get e.1 = some e.2 ∧ start ≤ e.1 ∧ (end_ = [] ∨ e.1 < end_)) ∧
        ((E.run p (m, s)).1 = some true →
          E.sends p (m, s) = (src, data) :: putsFrom dst 0 pairs ∧ ∀ e ∈ pairs, FitsPut e) ∧
        (E.isConnected src s = true → E.isConnected dst s = true → (E.send src data s).1 = true →
          received.isSome = true → reply.length < 2 ^ 32 →
          E.Answered dst (E.visits p (m, s)) → (E.run p (m, s)).1 = some true) := by
  intro p data received
  obtain ⟨b, s', hrun, hsends, hall⟩ := run_scanAndTransferData_sends E m src dst start end_ s
  refine ⟨⟨b, s', hrun, fun hb => ?_⟩, fun resp => ⟨readCount_eq resp, readPair_eq resp⟩, ?_⟩
  · obtain ⟨resp, count, hresp, hcount, hlen, -⟩ := hsends hb
    exact ⟨resp, count, hresp, hcount, hlen⟩
  intro st hstored hlength reply hreply
  have hpairs : ∀ e ∈ st.rangeQuery start end_, Storable e := by
    refine storable_of_mem_rangeQuery (n := ⟨some st⟩) ?_ rfl
    intro st' hst' e he
    obtain rfl := Option.some.inj hst'
    exact ⟨Nat.lt_succ_of_le (hstored e he).1, (hstored e he).2⟩
  have hcount : (st.rangeQuery start end_).length < 2 ^ 32 :=
    (length_rangeQuery_le st start end_).trans_lt hlength
  refine ⟨st.rangeQuery start end_, pairwise_rangeQuery st start end_,
    fun e => StorageEngine.mem_rangeQuery, fun htrue => ?_, ?_⟩
  · -- a result `true` means that the reply was cut nowhere inside the announced pairs
    rw [hrun] at htrue
    obtain ⟨resp, count, hresp, hscan, hlen, hlist⟩ := hsends (Option.some.inj htrue)
    have hcut : decodeReply (some (reply.take (frameLength reply))) = some resp := by
      rcases hreceived : received with _ | f
      · exact absurd (hresp.symm.trans (congrArg decodeReply hreceived)) (by simp [decodeReply])
      · rw [← hreply f hreceived, ← hresp]
        exact congrArg decodeReply hreceived.symm
    obtain ⟨hfound, hfits⟩ := pairs_of_scanReply hpairs hcount hcut hscan hlen
    rw [hfound] at hlist
    exact ⟨hlist, hfound ▸ fitsPut_of_mem_pairsFrom hfits le_rfl⟩
  · -- the other way round, a reply that fits a frame is read as it was written
    intro hsrc hdst hsent hreceived hfits hanswered
    obtain ⟨f, hf⟩ := Option.isSome_iff_exists.mp hreceived
    have hlen : reply.length = 15 + (scanBody (st.rangeQuery start end_)).length := by
      simp only [reply, scanRange, packResponse, encodeResponse, statusValue, length_frame,
        List.length_cons, List.length_append, length_be]
      omega
    obtain ⟨hread, hall'⟩ := scanReadable_of_fits (hlen ▸ hfits)
    have hdecode := scanCount_received (st.rangeQuery start end_)
    simp only [if_pos hread.fits] at hdecode
    have hcut : decodeReply received = some (scanPayload (st.rangeQuery start end_)) := by
      rw [hf, hreply f hf]
      exact hdecode
    have hscan := scanCount_scanPayload hread.fits
    rw [if_pos hread.four_le] at hscan
    have hfound := hread.pairsFrom hpairs
    have hlength' := congrArg List.length hfound
    rw [List.length_take_of_le (announced_le _)] at hlength'
    rw [hrun, hall _ _ hsrc hdst hsent hcut hscan hlength' hanswered]

/-- Two of three keys are transferred, from a DataNode that answers every request. -/
theorem scanTransfer_complete_threeKeys :
    ∃ pairs : List (Bytes × Bytes),
      (∀ e, e ∈ pairs ↔ threeKeys.lookup e.1 = some e.2 ∧ [] ≤ e.1 ∧
        (([0x6D] : Bytes) = [] ∨ e.1 < [0x6D])) ∧
      ((answering threeKeys).run (scanAndTransferData 2 3 [] [0x6D]) (initialMaster, [])).1
        = some true ∧
      (answering threeKeys).sends (scanAndTransferData 2 3 [] [0x6D]) (initialMaster, [])
        = (2, encodeCustomRequest 1 (rangePayload OP_SCAN_RANGE [] [0x6D])) ::
            putsFrom 3 0 pairs := by
  have hserve : threeKeys.serve (encodeCustomRequest 1 (rangePayload OP_SCAN_RANGE [] [0x6D]))
      = (packResponse 1 (threeKeys.scanRange [] [0x6D]).1, (threeKeys.scanRange [] [0x6D]).2) :=
    serve_request (by decide)
      (handleBinaryRequest_scanRange threeKeys (by decide) (by decide) 1)
  obtain ⟨pairs, -, hmem, hsends, hall⟩ :=
    (scanTransfer_complete (answering threeKeys) initialMaster [] 2 3 [] [0x6D]).2.2
      ⟨((SortedMap.empty.insert [0x61] [1]).insert [0x62] [2]).insert [0x7A] [3], []⟩
      (by decide +kernel) (by decide +kernel) (by
        intro f hf
        obtain rfl := Option.some.inj hf
        exact congrArg (fun r : Bytes × DataNode => r.1.take (frameLength r.1)) hserve)
  have htrue := hall rfl rfl rfl rfl (by decide +kernel) ⟨fun _ _ _ => rfl, fun _ _ _ => rfl⟩
  exact ⟨pairs, hmem, htrue, (hsends htrue).1⟩

end LeKV
