import LeKV.Kv.DataNode
import LeKV.Rpc.Leftover

/-!
# A `PUT` on a connection

The encoder narrows the length of the key to 16 bits and the length of the value to 32 bits, but
appends both whole. `PutSafe` is what a client may expect of a `PUT` with any key and value, and of
the request after it on the same connection; `putSafe_iff` says when it gets that.
-/

namespace LeKV

open Bytes BinaryProtocol

/-- The payload of a `PUT` request as it is sent, whatever the lengths. -/
def putPayload (key value : Bytes) : Bytes :=
  OP_PUT :: (be 2 (key.length % 2 ^ 16) ++ (be 4 (value.length % 2 ^ 32) ++ (key ++ value)))

/-- The length field of a `PUT` request. -/
def putFrameLength (key value : Bytes) : ℕ :=
  (17 + key.length % 2 ^ 16 + value.length % 2 ^ 32) % 2 ^ 32

/-- The payload the server cuts off by that length field, and what it leaves in the stream. -/
def putReceived (key value : Bytes) : Bytes :=
  (putPayload key value).take (putFrameLength key value - 10)

def putLeftover (key value : Bytes) : Bytes :=
  (putPayload key value).drop (putFrameLength key value - 10)

/-- The key and the value a DataNode reads where the narrowed lengths fit the frame. -/
def narrowedKey (key value : Bytes) : Bytes := (key ++ value).take (key.length % 2 ^ 16)

def narrowedValue (key value : Bytes) : Bytes :=
  ((key ++ value).drop (key.length % 2 ^ 16)).take (value.length % 2 ^ 32)

/-- The answer to a `PUT` is right: an error and nothing stored, or `ST_OK` and the value stored. -/
def PutAnswer (n : DataNode) (key value : Bytes) (c : Call DataNode) : Prop :=
  (c.status ≠ some ST_OK ∧ c.state.contents = n.contents) ∨
    (c.status = some ST_OK ∧
      ∃ db, n.contents = some db ∧ c.state.contents = some (db.insert key value))

/-- Whatever request follows, and however the bytes are cut into chunks: the connection is closed
with nothing stored, or the first answer is right and the next request is decoded as it was sent. -/
def PutSafe (n : DataNode) (reqId : UInt32) (key value : Bytes) : Prop :=
  ∀ (next : UInt32 × Bytes) (chunks : List Bytes), 10 + next.2.length < 2 ^ 32 →
    chunks.flatten = encodeRequest reqId OP_PUT key value ++ encodeCustomRequest next.1 next.2 →
    let session := handleClient DataNode.handleBinaryRequest n [] (chunks.map .data) []
    (session.calls = [] ∧ session.exit = .badLength ∧ session.state = n) ∨
      ∃ c rest, session.calls = c :: rest ∧ c.reqId = reqId ∧ PutAnswer n key value c ∧
        session.decoded[1]? = some next

/-- The DataNode refuses the write, or it leads to what the client asked for. -/
def StoresAsSent (n : DataNode) (key value : Bytes) : Prop :=
  ∀ s, n.storage = some s → s.outcomes.headD true = false ∨
    s.db.insert (narrowedKey key value) (narrowedValue key value) = s.db.insert key value

section Lengths

variable (key value : Bytes)

theorem length_putPayload : (putPayload key value).length = 7 + key.length + value.length := by
  simp only [putPayload, List.length_cons, List.length_append, length_be]
  omega

theorem putFrameLength_lt : putFrameLength key value < 2 ^ 32 := Nat.mod_lt _ (by norm_num)

theorem putFrameLength_le : putFrameLength key value ≤ 17 + key.length + value.length := by
  have hkey := Nat.mod_le key.length (2 ^ 16)
  have hvalue := Nat.mod_le value.length (2 ^ 32)
  have hmod := Nat.mod_le (17 + key.length % 2 ^ 16 + value.length % 2 ^ 32) (2 ^ 32)
  unfold putFrameLength
  omega

theorem length_putReceived : (putReceived key value).length = putFrameLength key value - 10 := by
  have hle := putFrameLength_le key value
  rw [putReceived, List.length_take_of_le]
  rw [length_putPayload]
  omega

theorem length_narrowedKey : (narrowedKey key value).length = key.length % 2 ^ 16 := by
  have hkey := Nat.mod_le key.length (2 ^ 16)
  rw [narrowedKey, List.length_take_of_le]
  rw [List.length_append]
  omega

theorem length_narrowedValue : (narrowedValue key value).length = value.length % 2 ^ 32 := by
  have hkey := Nat.mod_le key.length (2 ^ 16)
  have hvalue := Nat.mod_le value.length (2 ^ 32)
  rw [narrowedValue, List.length_take_of_le]
  rw [List.length_drop, List.length_append]
  omega

end Lengths

/-- The bytes of a `PUT` request are a frame of its length field. -/
theorem encodeRequest_put_eq_frame (reqId : UInt32) (key value : Bytes) :
    encodeRequest reqId OP_PUT key value
      = frame (putFrameLength key value) reqId (putPayload key value) := by
  have hlen : (10 + (1 + 2 + 4 + key.length % 2 ^ 16 + value.length % 2 ^ 32) % 2 ^ 32) % 2 ^ 32
      = putFrameLength key value := by
    unfold putFrameLength
    omega
  rw [encodeRequest, hlen]
  rfl

/-- With a length field of at least ten, they are a request with the received payload, followed by
the leftover. -/
theorem encodeRequest_put_eq {key value : Bytes} (reqId : UInt32)
    (hten : 10 ≤ putFrameLength key value) :
    encodeRequest reqId OP_PUT key value
      = encodeCustomRequest reqId (putReceived key value) ++ putLeftover key value := by
  have hlt := putFrameLength_lt key value
  have hlen : 10 + (putReceived key value).length = putFrameLength key value := by
    rw [length_putReceived]
    omega
  rw [encodeRequest_put_eq_frame, encodeCustomRequest_eq reqId (hlen ▸ hlt), hlen]
  simp only [frame, List.append_assoc, List.cons_append, putReceived, putLeftover,
    List.take_append_drop]

/-! ## What the DataNode does with the received payload -/

/-- From seven bytes on, the received payload has its three fields. -/
theorem putReceived_eq_append {key value : Bytes} (hlong : 17 ≤ putFrameLength key value) :
    putReceived key value
      = OP_PUT :: (be 2 (key.length % 2 ^ 16) ++ (be 4 (value.length % 2 ^ 32)
          ++ (key ++ value).take (putFrameLength key value - 17))) := by
  have hlen : putFrameLength key value - 10
      = (OP_PUT :: (be 2 (key.length % 2 ^ 16) ++ be 4 (value.length % 2 ^ 32))).length
        + (putFrameLength key value - 17) := by
    simp only [List.length_cons, List.length_append, length_be]
    omega
  have hpayload : putPayload key value
      = (OP_PUT :: (be 2 (key.length % 2 ^ 16) ++ be 4 (value.length % 2 ^ 32)))
        ++ (key ++ value) := by
    simp only [putPayload, List.cons_append, List.append_assoc]
  rw [putReceived, hlen, hpayload, List.take_length_add_append]
  simp only [List.cons_append, List.append_assoc]

/-- Where the narrowed lengths fit the frame, the received payload is a `PUT` of the narrowed key and
value. -/
theorem putReceived_eq_kvPayload {key value : Bytes}
    (hfit : 17 + key.length % 2 ^ 16 + value.length % 2 ^ 32 < 2 ^ 32) :
    putReceived key value
      = kvPayload OP_PUT (narrowedKey key value) (narrowedValue key value) := by
  have hF : putFrameLength key value = 17 + key.length % 2 ^ 16 + value.length % 2 ^ 32 :=
    Nat.mod_eq_of_lt hfit
  have hsub : putFrameLength key value - 17 = key.length % 2 ^ 16 + value.length % 2 ^ 32 := by
    omega
  rw [putReceived_eq_append (by omega), hsub, List.take_add, kvPayload, length_narrowedKey,
    length_narrowedValue]
  rfl

section Handled

variable {key value : Bytes} (reqId : UInt32) (n : DataNode)

/-- With fewer than seven bytes the request is rejected. -/
theorem handle_putReceived_short (hten : 10 ≤ putFrameLength key value)
    (hshort : putFrameLength key value < 17) :
    DataNode.handleBinaryRequest reqId (putReceived key value) n = some ([ST_BAD_REQUEST], n) := by
  have hlen := length_putReceived key value
  rcases hrec : putReceived key value with _ | ⟨op, rest⟩
  · rfl
  · have hop : op = OP_PUT := by
      rcases hF : putFrameLength key value - 10 with _ | k
      · rw [hF, hrec] at hlen
        exact absurd hlen (by simp)
      · rw [putReceived, hF, putPayload, List.take_succ_cons] at hrec
        exact (List.cons.inj hrec).1.symm
    have hput : DataNode.handleBinaryRequest reqId (op :: rest) n
        = DataNode.handleDataNodePut (op :: rest) n := by
      rw [hop]
      rfl
    rw [hput, DataNode.handleDataNodePut, if_pos (by rw [← hrec, hlen]; omega)]
    rfl

/-- Where the narrowed lengths do not fit 32 bits, the sum wraps in the length check, and the
DataNode reads outside the payload. -/
theorem handle_putReceived_wrapped (hlong : 17 ≤ putFrameLength key value)
    (hwrap : 2 ^ 32 ≤ 17 + key.length % 2 ^ 16 + value.length % 2 ^ 32) :
    DataNode.handleBinaryRequest reqId (putReceived key value) n = none := by
  have hF : putFrameLength key value
      = (17 + key.length % 2 ^ 16 + value.length % 2 ^ 32) % 2 ^ 32 := rfl
  have hk : key.length % 2 ^ 16 < 2 ^ 16 := Nat.mod_lt _ (by norm_num)
  have hv : value.length % 2 ^ 32 < 2 ^ 32 := Nat.mod_lt _ (by norm_num)
  have hlen := length_putReceived key value
  have hrec := putReceived_eq_append hlong
  generalize key.length % 2 ^ 16 = k at hF hk hwrap hrec
  generalize value.length % 2 ^ 32 = v at hF hv hwrap hrec
  generalize putReceived key value = received at hlen hrec ⊢
  have hkey : numAt received 1 2 = some k := by
    have h := num16At_append [OP_PUT] (be 4 v ++ (key ++ value).take (putFrameLength key value - 17))
      k rfl
    rw [Nat.mod_eq_of_lt hk] at h
    rw [hrec]
    exact h
  have hvalue : numAt received 3 4 = some v := by
    have h := num32At_append (OP_PUT :: be 2 k) ((key ++ value).take (putFrameLength key value - 17))
      v rfl
    rw [Nat.mod_eq_of_lt hv] at h
    rw [hrec]
    exact h
  have hput : DataNode.handleBinaryRequest reqId received n = DataNode.handleDataNodePut received n := by
    rw [hrec]
    rfl
  rw [hput]
  unfold DataNode.handleDataNodePut
  rw [if_neg (by omega), hkey, hvalue]
  simp only [Option.bind_eq_bind, Option.bind_some]
  rw [if_neg (by omega)]
  rcases bytesAt received 7 k with _ | b
  · rfl
  · rw [Option.bind_some, bytesAt_eq_none.mpr (by omega)]
    rfl

theorem handle_putReceived_narrowed
    (hfit : 17 + key.length % 2 ^ 16 + value.length % 2 ^ 32 < 2 ^ 32) :
    DataNode.handleBinaryRequest reqId (putReceived key value) n
      = some (n.put (narrowedKey key value) (narrowedValue key value)) := by
  have hk : key.length % 2 ^ 16 < 2 ^ 16 := Nat.mod_lt _ (by norm_num)
  have hlk := length_narrowedKey key value
  have hlv := length_narrowedValue key value
  rw [putReceived_eq_kvPayload hfit]
  exact DataNode.handleBinaryRequest_put n reqId (by omega) (by omega)

end Handled

/-! ## The session -/

/-- After a request that is handled, the leftover and the next request are served. -/
theorem session_put {n n' : DataNode} {reqId : UInt32} {key value resp : Bytes}
    (hten : 10 ≤ putFrameLength key value)
    (hh : DataNode.handleBinaryRequest reqId (putReceived key value) n = some (resp, n'))
    {next : UInt32 × Bytes} {chunks : List Bytes}
    (hcut : chunks.flatten
      = encodeRequest reqId OP_PUT key value ++ encodeCustomRequest next.1 next.2) :
    (handleClient DataNode.handleBinaryRequest n [] (chunks.map .data) []).Agrees
      ((serveBytes DataNode.handleBinaryRequest n'
        (putLeftover key value ++ encodeCustomRequest next.1 next.2) []).after
        ⟨reqId, putReceived key value, packResponse reqId resp, n'⟩) := by
  have hlt := putFrameLength_lt key value
  have hchunks := handleClient_chunks DataNode.handleBinaryRequest n [] chunks []
  rw [List.nil_append, hcut, encodeRequest_put_eq reqId hten, List.append_assoc] at hchunks
  refine hchunks.trans (serveBytes_frame _ ?_ hh _ [] rfl)
  rw [length_putReceived]
  omega

/-- With a length field below ten the connection is closed. -/
theorem session_put_closed {key value : Bytes} (hbad : putFrameLength key value < 10) (n : DataNode)
    (reqId : UInt32) : PutSafe n reqId key value := by
  intro next chunks hfit hcut session
  have hfront : frameLength (chunks.flatten) = putFrameLength key value := by
    have hlt := putFrameLength_lt key value
    rw [hcut, encodeRequest_put_eq_frame, frameLength_append _ (by rw [length_frame]; omega),
      frameLength, frame, List.take_left' (length_be _ _), readBE_be,
      Nat.mod_eq_of_lt (by omega)]
  have hfour : 4 ≤ (([] : Bytes) ++ chunks.flatten).length := by
    rw [List.nil_append, hcut, List.length_append, encodeRequest_put_eq_frame, length_frame]
    omega
  obtain ⟨b, c, hread, -⟩ := readFrame_badLength 5000 hfour (by rw [List.nil_append, hfront]; exact hbad)
  left
  have hclosed : session = ⟨[], b, n, .badLength⟩ := handleClient_badLength hread []
  rw [hclosed]
  exact ⟨rfl, rfl, rfl⟩

/-- The answer to the narrowed `PUT` is right exactly when it leads to what the client asked for. -/
theorem putAnswer_put {n : DataNode} {reqId : UInt32} {payload key value : Bytes} :
    PutAnswer n key value ⟨reqId, payload,
        packResponse reqId (n.put (narrowedKey key value) (narrowedValue key value)).1,
        (n.put (narrowedKey key value) (narrowedValue key value)).2⟩ ↔
      StoresAsSent n key value := by
  obtain ⟨_ | ⟨db, outcomes⟩⟩ := n
  · refine iff_of_true (.inl ⟨?_, rfl⟩) fun s hs => absurd hs (by simp)
    rw [status_packResponse]
    show some ST_TIMEOUT ≠ some ST_OK
    decide
  · have hstores : StoresAsSent ⟨some ⟨db, outcomes⟩⟩ key value ↔ outcomes.headD true = false ∨
        db.insert (narrowedKey key value) (narrowedValue key value) = db.insert key value := by
      constructor
      · exact fun h => h _ rfl
      · rintro h s ⟨⟩
        exact h
    rw [hstores, PutAnswer, status_packResponse]
    rcases outcomes with _ | ⟨_ | _, outcomes⟩
    · simp [DataNode.put, StorageEngine.put, StorageEngine.write, DataNode.contents, statusValue]
    · simp [DataNode.put, StorageEngine.put, StorageEngine.write, DataNode.contents, statusValue,
        ST_OK, ST_TIMEOUT]
    · simp [DataNode.put, StorageEngine.put, StorageEngine.write, DataNode.contents, statusValue]

/-- After an answered `PUT`, everything is well when the answer is right and the leftover is
skipped. -/
theorem putSafe_of_answer {n n' : DataNode} {reqId : UInt32} {key value resp : Bytes}
    (hten : 10 ≤ putFrameLength key value)
    (hh : DataNode.handleBinaryRequest reqId (putReceived key value) n = some (resp, n')) :
    PutSafe n reqId key value ↔ Skipped (putLeftover key value) ∧
      PutAnswer n key value ⟨reqId, putReceived key value, packResponse reqId resp, n'⟩ := by
  constructor
  · intro hsafe
    -- the answer and the second request of the session, for every next request
    have hboth : ∀ next : UInt32 × Bytes, 10 + next.2.length < 2 ^ 32 →
        PutAnswer n key value ⟨reqId, putReceived key value, packResponse reqId resp, n'⟩ ∧
          (serveBytes DataNode.handleBinaryRequest n'
            (putLeftover key value ++ encodeCustomRequest next.1 next.2) []).decoded.head?
            = some next := by
      intro next hfit
      have hcut : [encodeRequest reqId OP_PUT key value ++ encodeCustomRequest next.1 next.2].flatten
          = encodeRequest reqId OP_PUT key value ++ encodeCustomRequest next.1 next.2 := by
        rw [List.flatten_singleton]
      have hsession := session_put hten hh hcut
      rcases hsafe next _ hfit hcut with ⟨hnil, -, -⟩ | ⟨c, rest, hcalls, -, hanswer, hsecond⟩
      · rw [hsession.calls] at hnil
        exact absurd hnil (List.cons_ne_nil _ _)
      · rw [hsession.calls] at hcalls
        rw [hsession.decoded, Session.decoded_after, List.getElem?_cons_succ,
          ← List.head?_eq_getElem?] at hsecond
        obtain ⟨rfl, -⟩ := List.cons.inj hcalls
        exact ⟨hanswer, hsecond⟩
    refine ⟨?_, (hboth (0, []) (by norm_num)).1⟩
    by_contra hskipped
    obtain ⟨next, hfit, hnot⟩ := exists_not_decoded (σ := DataNode) hskipped
    exact hnot _ _ _ (hboth next hfit).2
  · rintro ⟨hskipped, hanswer⟩ next chunks hfit hcut session
    have hsession := session_put hten hh hcut
    refine .inr ⟨_, _, hsession.calls, rfl, hanswer, ?_⟩
    rw [hsession.decoded, Session.decoded_after, List.getElem?_cons_succ, ← List.head?_eq_getElem?,
      (hskipped.serveBytes _ _ _ _).decoded]
    exact decoded_request _ _ hfit []

/-- A `PUT` and the request after it go well exactly when the length field closes the connection, or
when what it leaves in the stream is skipped and the request is rejected for its size or leads to
what the client asked for. -/
theorem putSafe_iff (n : DataNode) (reqId : UInt32) (key value : Bytes) :
    PutSafe n reqId key value ↔
      putFrameLength key value < 10 ∨
        (Skipped (putLeftover key value) ∧ (putFrameLength key value < 17 ∨
          17 + key.length % 2 ^ 16 + value.length % 2 ^ 32 < 2 ^ 32 ∧ StoresAsSent n key value)) := by
  rcases Nat.lt_or_ge (putFrameLength key value) 10 with hbad | hten
  · exact iff_of_true (session_put_closed hbad n reqId) (.inl hbad)
  rw [or_iff_right (Nat.not_lt.mpr hten)]
  -- a frame too short for a `PUT` gets an error status, and nothing is stored
  rcases Nat.lt_or_ge (putFrameLength key value) 17 with hshort | hlong
  · rw [putSafe_of_answer hten (handle_putReceived_short reqId n hten hshort)]
    refine and_congr_right fun _ => iff_of_true (.inl ⟨?_, rfl⟩) (.inl hshort)
    rw [status_packResponse]
    decide
  rw [or_iff_right (Nat.not_lt.mpr hlong)]
  rcases Nat.lt_or_ge (17 + key.length % 2 ^ 16 + value.length % 2 ^ 32) (2 ^ 32) with hfit | hwrap
  · have hh : DataNode.handleBinaryRequest reqId (putReceived key value) n
        = some ((n.put (narrowedKey key value) (narrowedValue key value)).1,
          (n.put (narrowedKey key value) (narrowedValue key value)).2) :=
      handle_putReceived_narrowed reqId n hfit
    rw [putSafe_of_answer hten hh, putAnswer_put, and_iff_right hfit]
  · -- the handler reads outside the payload: no answer, and the connection is not closed either
    refine iff_of_false (fun hsafe => ?_) fun h => Nat.not_lt.mpr hwrap h.2.1
    have hcut : [encodeRequest reqId OP_PUT key value ++ encodeCustomRequest 0 []].flatten
        = encodeRequest reqId OP_PUT key value ++ encodeCustomRequest 0 [] := by
      rw [List.flatten_singleton]
    have hlt := putFrameLength_lt key value
    have hlen := length_putReceived key value
    have hchunks := handleClient_chunks DataNode.handleBinaryRequest n []
      [encodeRequest reqId OP_PUT key value ++ encodeCustomRequest 0 []] []
    have hfit' : 10 + (putReceived key value).length < 2 ^ 32 := by omega
    have hround := serveBytes_isFrame DataNode.handleBinaryRequest n
      (isFrame_frame reqId hfit') (putLeftover key value ++ encodeCustomRequest 0 []) []
    rw [← encodeCustomRequest_eq reqId hfit', ← List.append_assoc, ← encodeRequest_put_eq reqId hten,
      serveFrame, encodeCustomRequest_eq reqId hfit', tryDecode_frame reqId hfit'] at hround
    simp only [handle_putReceived_wrapped reqId n hlong hwrap] at hround
    rw [List.nil_append, hcut] at hchunks
    have hsession := hchunks.trans hround
    rcases hsafe (0, []) _ (by norm_num) hcut with ⟨-, hexit, -⟩ | ⟨c, rest, hcalls, -⟩
    · rw [hsession.exit] at hexit
      exact Exit.noConfusion hexit
    · rw [hsession.calls] at hcalls
      exact absurd hcalls.symm (List.cons_ne_nil _ _)

/-- In particular a `PUT` whose key and value fit their fields and the frame goes well. -/
theorem putSafe_of_fits {key value : Bytes} (hkey : key.length < 2 ^ 16)
    (hfit : 17 + key.length + value.length < 2 ^ 32) (n : DataNode) (reqId : UInt32) :
    PutSafe n reqId key value := by
  have hk : key.length % 2 ^ 16 = key.length := Nat.mod_eq_of_lt hkey
  have hv : value.length % 2 ^ 32 = value.length := Nat.mod_eq_of_lt (by omega)
  have hF : putFrameLength key value = 17 + key.length + value.length := by
    rw [putFrameLength, hk, hv, Nat.mod_eq_of_lt hfit]
  have hleft : putLeftover key value = [] := by
    rw [putLeftover, List.drop_eq_nil_iff, length_putPayload]
    omega
  have hnarrow : narrowedKey key value = key ∧ narrowedValue key value = value := by
    rw [narrowedKey, narrowedValue, hk, hv, List.take_left, List.drop_left, List.take_length]
    exact ⟨rfl, rfl⟩
  have hh : DataNode.handleBinaryRequest reqId (putReceived key value) n
      = some ((n.put (narrowedKey key value) (narrowedValue key value)).1,
        (n.put (narrowedKey key value) (narrowedValue key value)).2) :=
    handle_putReceived_narrowed reqId n (by omega)
  refine (putSafe_of_answer (by omega) hh).mpr ⟨hleft ▸ .nil, putAnswer_put.mpr fun s _ => ?_⟩
  exact .inr (by rw [hnarrow.1, hnarrow.2])

/-- A key of 65537 bytes is cut to its first byte: the empty store ends up with that key. -/
theorem not_putSafe_long_key :
    ¬PutSafe ⟨some .fresh⟩ 1 (List.replicate 65537 0x61) [] := by
  have hk : (List.replicate 65537 (0x61 : UInt8)).length % 2 ^ 16 = 1 := by
    rw [List.length_replicate]
    norm_num
  have hnarrow : narrowedKey (List.replicate 65537 0x61) [] = [0x61] := by
    rw [narrowedKey, hk, List.append_nil, List.take_replicate]
    rfl
  have hF : putFrameLength (List.replicate 65537 0x61) [] = 18 := by
    rw [putFrameLength, hk]
    rfl
  intro hsafe
  have hh := handle_putReceived_narrowed 1 ⟨some .fresh⟩
    (by rw [hk]; decide :
      17 + (List.replicate 65537 (0x61 : UInt8)).length % 2 ^ 16 + ([] : Bytes).length % 2 ^ 32
        < 2 ^ 32)
  obtain ⟨-, hanswer⟩ := (putSafe_of_answer (by omega) hh).mp hsafe
  rcases putAnswer_put.mp hanswer _ rfl with hfail | hsame
  · exact absurd hfail (by decide)
  · have hne : List.replicate 65537 (0x61 : UInt8) ≠ [0x61] := by
      intro heq
      have hlen := congrArg List.length heq
      rw [List.length_replicate, List.length_singleton] at hlen
      exact absurd hlen (by norm_num)
    have hfind := congrArg (fun db => db.find? (List.replicate 65537 0x61)) hsame
    simp only [hnarrow, SortedMap.find?_insert_self, SortedMap.find?_insert_of_ne _ _ hne,
      StorageEngine.fresh, SortedMap.find?_empty] at hfind
    exact absurd hfind (by simp)

end LeKV
