import LeKV.Rpc.Stream

/-!
# The server's connection loop (`rpc/rpc_server.cpp`)

`handleClient` is `BinaryRpcServer::HandleClient` on one connection: read a frame, decode it, call
the handler, send the response. A `Session` records the handler's calls and how the loop was left.

The loop is chunk-independent (`handleClient_chunks`): on data, it does what it would do on the same
bytes received at once. `serveBytes_frame` then describes one round on a stream that starts with a
well-formed frame.
-/

namespace LeKV

open Bytes BinaryProtocol

variable {σ : Type}

/-- A `BinaryHandler` that works on a state: request id and payload to the response payload. `none`
is a read outside the payload. -/
abbrev BinaryHandler (σ : Type) : Type := UInt32 → Bytes → σ → Option (Bytes × σ)

/-- One call of the handler: the request, the response frame, and the state afterwards. -/
structure Call (σ : Type) where
  reqId : UInt32
  payload : Bytes
  response : Bytes
  state : σ

/-- Why a connection loop was left: too few bytes came, a length field below 10, a response that
could not be sent, or a read outside a buffer, with the request it happened in. -/
inductive Exit where
  | recvFailed
  | badLength
  | sendFailed
  | outOfBounds (request : Option (UInt32 × Bytes))
deriving DecidableEq, Repr

/-- What happened on a connection: the calls in order, the bytes left in the buffer, the final
state, and how the loop was left. -/
structure Session (σ : Type) where
  calls : List (Call σ)
  buf : Bytes
  state : σ
  exit : Exit

/-- The requests decoded on a connection, in order. -/
def Session.decoded (s : Session σ) : List (UInt32 × Bytes) :=
  s.calls.map (fun c => (c.reqId, c.payload)) ++
    match s.exit with
    | .outOfBounds (some request) => [request]
    | _ => []

/-- Put a call in front of what happens after it. -/
def Session.after (c : Call σ) (s : Session σ) : Session σ := { s with calls := c :: s.calls }

/-- Two sessions with the same calls, state and exit. Their buffers agree where the loop ran out of
bytes; one that was left earlier may hold more or fewer of the bytes that follow. -/
structure Session.Agrees (a b : Session σ) : Prop where
  calls : a.calls = b.calls
  state : a.state = b.state
  exit : a.exit = b.exit
  buf : a.exit = .recvFailed → a.buf = b.buf

theorem Session.Agrees.refl (a : Session σ) : a.Agrees a := ⟨rfl, rfl, rfl, fun _ => rfl⟩

theorem Session.Agrees.symm {a b : Session σ} (h : a.Agrees b) : b.Agrees a :=
  ⟨h.calls.symm, h.state.symm, h.exit.symm, fun hb => (h.buf (h.exit.trans hb)).symm⟩

theorem Session.Agrees.trans {a b c : Session σ} (h : a.Agrees b) (h' : b.Agrees c) : a.Agrees c :=
  ⟨h.calls.trans h'.calls, h.state.trans h'.state, h.exit.trans h'.exit,
    fun ha => (h.buf ha).trans (h'.buf (h.exit.symm.trans ha))⟩

theorem Session.Agrees.after {a b : Session σ} (h : a.Agrees b) (c : Call σ) :
    (a.after c).Agrees (b.after c) :=
  ⟨congrArg (c :: ·) h.calls, h.state, h.exit, h.buf⟩

/-- Split a response payload: its first byte is the status, the others are the value. An empty one
counts as `ST_BAD_REQUEST`. -/
def statusValue : Bytes → UInt8 × Bytes
  | [] => (ST_BAD_REQUEST, [])
  | status :: value => (status, value)

/-- The frame that answers a request with the handler's response payload. -/
def packResponse (reqId : UInt32) (resp : Bytes) : Bytes :=
  encodeResponse reqId (statusValue resp).1 (statusValue resp).2

/-- The status byte behind the header of the response. -/
def Call.status (c : Call σ) : Option UInt8 := c.response[10]?

/-- What becomes of one complete frame: rejected by `TryDecode` and skipped, answered, or a read
outside a buffer. -/
inductive Served (σ : Type) where
  | skipped
  | answered (c : Call σ)
  | outOfBounds (request : Option (UInt32 × Bytes))

/-- Decode a frame and call the handler. -/
def serveFrame (h : BinaryHandler σ) (s : σ) (f : Bytes) : Served σ :=
  match tryDecode f with
  | none => .outOfBounds none
  | some (.fail _) => .skipped
  | some (.ok _ reqId payload) =>
    match h reqId payload s with
    | none => .outOfBounds (some (reqId, payload))
    | some (resp, s') => .answered ⟨reqId, payload, packResponse reqId resp, s'⟩

/-- Reading a frame takes its bytes out of the stream. -/
theorem readFrame_size {timeoutMs : ℤ} {buf f b : Bytes} {evs rest : List Recv}
    (h : readFrame timeoutMs buf evs = .frame f b rest) :
    b.length + (Recv.bytes rest).length < buf.length + (Recv.bytes evs).length := by
  simp only [readFrame] at h
  split_ifs at h with hheader hlen hwhole
  obtain ⟨-, rfl, rfl⟩ := Read.frame.inj h
  have hneed := recvAll_ok (Bool.eq_true_of_not_eq_false hwhole)
  have h₁ := congrArg List.length (recvAll_stream 4 timeoutMs buf evs)
  have h₂ := congrArg List.length (recvAll_stream
    (frameLength (recvAll 4 timeoutMs buf evs).buf) timeoutMs
    (recvAll 4 timeoutMs buf evs).buf (recvAll 4 timeoutMs buf evs).rest)
  simp only [List.length_append] at h₁ h₂
  rw [List.length_drop]
  omega

/-- `HandleClient`: serve frames until the loop is left. `sends` says for each response whether it
could be sent; responses beyond the list are. -/
def handleClient (h : BinaryHandler σ) (s : σ) (buf : Bytes) (evs : List Recv)
    (sends : List Bool) : Session σ :=
  match _hread : readFrame 5000 buf evs with
  | .noData b _ => ⟨[], b, s, .recvFailed⟩
  | .badLength b _ => ⟨[], b, s, .badLength⟩
  | .frame f b rest =>
    match serveFrame h s f with
    | .outOfBounds request => ⟨[], b, s, .outOfBounds request⟩
    | .skipped => handleClient h s b rest sends
    | .answered call =>
      if sends.headD true then (handleClient h call.state b rest sends.tail).after call
      else ⟨[call], b, call.state, .sendFailed⟩
termination_by buf.length + (Recv.bytes evs).length
decreasing_by all_goals exact readFrame_size ‹_›

/-! ## One round -/

theorem handleClient_noData {h : BinaryHandler σ} {s : σ} {buf b : Bytes} {evs rest : List Recv}
    (hread : readFrame 5000 buf evs = .noData b rest) (sends : List Bool) :
    handleClient h s buf evs sends = ⟨[], b, s, .recvFailed⟩ := by
  rw [handleClient]
  split
  · next heq => rw [hread] at heq; obtain ⟨rfl, -⟩ := Read.noData.inj heq; rfl
  · next heq => rw [hread] at heq; exact Read.noConfusion heq
  · next heq => rw [hread] at heq; exact Read.noConfusion heq

theorem handleClient_badLength {h : BinaryHandler σ} {s : σ} {buf b : Bytes}
    {evs rest : List Recv} (hread : readFrame 5000 buf evs = .badLength b rest)
    (sends : List Bool) : handleClient h s buf evs sends = ⟨[], b, s, .badLength⟩ := by
  rw [handleClient]
  split
  · next heq => rw [hread] at heq; exact Read.noConfusion heq
  · next heq => rw [hread] at heq; obtain ⟨rfl, -⟩ := Read.badLength.inj heq; rfl
  · next heq => rw [hread] at heq; exact Read.noConfusion heq

theorem handleClient_read {h : BinaryHandler σ} {s : σ} {buf f b : Bytes}
    {evs rest : List Recv} (hread : readFrame 5000 buf evs = .frame f b rest)
    (sends : List Bool) :
    handleClient h s buf evs sends =
      match serveFrame h s f with
      | .outOfBounds request => ⟨[], b, s, .outOfBounds request⟩
      | .skipped => handleClient h s b rest sends
      | .answered call =>
        if sends.headD true then (handleClient h call.state b rest sends.tail).after call
        else ⟨[call], b, call.state, .sendFailed⟩ := by
  rw [handleClient]
  split
  · next heq => rw [hread] at heq; exact Read.noConfusion heq
  · next heq => rw [hread] at heq; exact Read.noConfusion heq
  · next heq => rw [hread] at heq; obtain ⟨rfl, rfl, rfl⟩ := Read.frame.inj heq; rfl

/-! ## Whole streams -/

/-- The loop on the bytes of a stream: what `handleClient` does when they are all there already. -/
def serveBytes (h : BinaryHandler σ) (s : σ) (bytes : Bytes) (sends : List Bool) : Session σ :=
  handleClient h s bytes [] sends

section Bytes

variable {h : BinaryHandler σ} {s : σ} {bytes : Bytes}

/-- Bytes that do not reach the end of the length field. -/
theorem serveBytes_short (hlen : bytes.length < 4) (sends : List Bool) :
    serveBytes h s bytes sends = ⟨[], bytes, s, .recvFailed⟩ := by
  have hread := @readFrame_short bytes [] 5000 (by simpa using hlen)
  rw [serveBytes, ← List.map_nil (f := Recv.data), handleClient_noData hread, List.flatten_nil,
    List.append_nil]

/-- Bytes that do not reach the end of the frame they start. -/
theorem serveBytes_incomplete (hfour : 4 ≤ bytes.length) (hten : 10 ≤ frameLength bytes)
    (hlen : bytes.length < frameLength bytes) (sends : List Bool) :
    serveBytes h s bytes sends = ⟨[], bytes, s, .recvFailed⟩ := by
  have hread := @readFrame_incomplete bytes [] 5000 (by simpa using hfour)
    (by simpa using hten) (by simpa using hlen)
  rw [serveBytes, ← List.map_nil (f := Recv.data), handleClient_noData hread, List.flatten_nil,
    List.append_nil]

/-- A length field below the ten header bytes ends the connection. -/
theorem serveBytes_badLength (hfour : 4 ≤ bytes.length) (hlen : frameLength bytes < 10)
    (sends : List Bool) : ∃ b, serveBytes h s bytes sends = ⟨[], b, s, .badLength⟩ := by
  obtain ⟨b, c, hread, -⟩ := @readFrame_badLength bytes [] 5000
    (by simpa using hfour) (by simpa using hlen)
  exact ⟨b, by rw [serveBytes, ← List.map_nil (f := Recv.data), handleClient_badLength hread]⟩

end Bytes

/-- The loop depends on the bytes that arrive, not on how they were cut into chunks. -/
theorem handleClient_chunks (h : BinaryHandler σ) (s : σ) (buf : Bytes) (chunks : List Bytes)
    (sends : List Bool) :
    (handleClient h s buf (chunks.map .data) sends).Agrees
      (serveBytes h s (buf ++ chunks.flatten) sends) := by
  generalize hn : (buf ++ chunks.flatten).length = n
  induction n using Nat.strong_induction_on generalizing s buf chunks sends with
  | _ n ih =>
    rcases Nat.lt_or_ge (buf ++ chunks.flatten).length 4 with hshort | hfour
    · rw [handleClient_noData (readFrame_short 5000 hshort), serveBytes_short hshort]
      exact .refl _
    rcases Nat.lt_or_ge (frameLength (buf ++ chunks.flatten)) 10 with hbad | hten
    · obtain ⟨b, c, hr, -⟩ := readFrame_badLength 5000 hfour hbad
      obtain ⟨b', hr'⟩ := serveBytes_badLength (h := h) (s := s) hfour hbad sends
      rw [handleClient_badLength hr, hr']
      exact ⟨rfl, rfl, rfl, fun hexit => Exit.noConfusion hexit⟩
    rcases Nat.lt_or_ge (buf ++ chunks.flatten).length (frameLength (buf ++ chunks.flatten))
      with hinc | hle
    · rw [handleClient_noData (readFrame_incomplete 5000 hfour hten hinc),
        serveBytes_incomplete hfour hten hinc]
      exact .refl _
    -- both loops read the same frame and go on with the same bytes
    have hall : (buf ++ chunks.flatten) ++ ([] : List Bytes).flatten = buf ++ chunks.flatten :=
      List.append_nil _
    obtain ⟨b, c, hr, hb⟩ := readFrame_complete 5000 hfour hten hle
    obtain ⟨b', c', hr', hb'⟩ := @readFrame_complete (buf ++ chunks.flatten) [] 5000
      (by rwa [hall]) (by rwa [hall]) (by rwa [hall])
    rw [hall] at hr' hb'
    rw [serveBytes, handleClient_read hr, ← List.map_nil (f := Recv.data), handleClient_read hr']
    have hlt : (b ++ c.flatten).length < n := by
      rw [hb, List.length_drop]
      omega
    have hsame : b' ++ c'.flatten = b ++ c.flatten := hb'.trans hb.symm
    have hrest : ∀ s sends, (handleClient h s b (c.map .data) sends).Agrees
        (handleClient h s b' (c'.map .data) sends) := fun s sends =>
      (ih _ hlt s b c sends rfl).trans (hsame ▸ (ih _ (hsame ▸ hlt) s b' c' sends rfl).symm)
    rcases serveFrame h s ((buf ++ chunks.flatten).take (frameLength (buf ++ chunks.flatten)))
      with _ | call | request
    · exact hrest s sends
    · by_cases hsend : sends.headD true = true
      · simp only [if_pos hsend]
        exact (hrest call.state sends.tail).after call
      · simp only [if_neg hsend]
        exact ⟨rfl, rfl, rfl, fun hexit => Exit.noConfusion hexit⟩
    · exact ⟨rfl, rfl, rfl, fun hexit => Exit.noConfusion hexit⟩

/-- One round on a stream that starts with a complete frame. -/
theorem serveBytes_complete (h : BinaryHandler σ) (s : σ) (bytes : Bytes) (hfour : 4 ≤ bytes.length)
    (hten : 10 ≤ frameLength bytes) (hle : frameLength bytes ≤ bytes.length) (sends : List Bool) :
    (serveBytes h s bytes sends).Agrees
      (match serveFrame h s (bytes.take (frameLength bytes)) with
        | .outOfBounds request => ⟨[], bytes.drop (frameLength bytes), s, .outOfBounds request⟩
        | .skipped => serveBytes h s (bytes.drop (frameLength bytes)) sends
        | .answered call =>
          if sends.headD true then
            (serveBytes h call.state (bytes.drop (frameLength bytes)) sends.tail).after call
          else ⟨[call], bytes.drop (frameLength bytes), call.state, .sendFailed⟩) := by
  obtain ⟨b, c, hr, hb⟩ := @readFrame_complete bytes [] 5000
    (by simpa using hfour) (by simpa using hten) (by simpa using hle)
  rw [List.flatten_nil, List.append_nil] at hr hb
  rw [serveBytes, ← List.map_nil (f := Recv.data), handleClient_read hr, ← hb]
  rcases serveFrame h s (bytes.take (frameLength bytes)) with _ | call | request
  · exact handleClient_chunks h s b c sends
  · by_cases hsend : sends.headD true = true
    · simp only [if_pos hsend]
      exact (handleClient_chunks h call.state b c sends.tail).after call
    · simp only [if_neg hsend]
      exact ⟨rfl, rfl, rfl, fun hexit => Exit.noConfusion hexit⟩
  · exact ⟨rfl, rfl, rfl, fun hexit => Exit.noConfusion hexit⟩

/-- One round on a stream that starts with a well-formed frame. -/
theorem serveBytes_isFrame (h : BinaryHandler σ) (s : σ) {f : Bytes} (hf : IsFrame f) (rest : Bytes)
    (sends : List Bool) :
    (serveBytes h s (f ++ rest) sends).Agrees
      (match serveFrame h s f with
        | .outOfBounds request => ⟨[], rest, s, .outOfBounds request⟩
        | .skipped => serveBytes h s rest sends
        | .answered call =>
          if sends.headD true then (serveBytes h call.state rest sends.tail).after call
          else ⟨[call], rest, call.state, .sendFailed⟩) := by
  have hten := hf.ten_le
  have hlen : frameLength (f ++ rest) = f.length := by
    rw [frameLength_append rest (by omega), hf.length_eq]
  have hround := serveBytes_complete h s (f ++ rest) (by rw [List.length_append]; omega) (by omega)
    (by rw [hlen, List.length_append]; omega) sends
  rwa [hlen, List.take_left, List.drop_left] at hround

/-- One round on a stream that starts with a well-formed frame whose request is handled and
answered. -/
theorem serveBytes_frame (h : BinaryHandler σ) {s s' : σ} {reqId : UInt32} {payload resp : Bytes}
    (hfit : 10 + payload.length < 2 ^ 32) (hh : h reqId payload s = some (resp, s'))
    (rest : Bytes) (sends : List Bool) (hsend : sends.headD true = true) :
    (serveBytes h s (encodeCustomRequest reqId payload ++ rest) sends).Agrees
      ((serveBytes h s' rest sends.tail).after
        ⟨reqId, payload, packResponse reqId resp, s'⟩) := by
  have hround := serveBytes_isFrame h s (isFrame_frame reqId hfit) rest sends
  rw [serveFrame, tryDecode_frame reqId hfit] at hround
  simp only [hh, if_pos hsend] at hround
  rwa [encodeCustomRequest_eq reqId hfit]

/-- A whole request is one call of the handler, and nothing of it stays behind. -/
theorem serveBytes_one {h : BinaryHandler σ} {s s' : σ} {reqId : UInt32} {payload resp : Bytes}
    (hfit : 10 + payload.length < 2 ^ 32) (hh : h reqId payload s = some (resp, s')) :
    serveBytes h s (encodeCustomRequest reqId payload) []
      = ⟨[⟨reqId, payload, packResponse reqId resp, s'⟩], [], s', .recvFailed⟩ := by
  have hround := serveBytes_frame h hfit hh [] [] rfl
  have hnil : serveBytes h s' [] [] = ⟨[], [], s', .recvFailed⟩ := serveBytes_short (by simp) []
  rw [List.append_nil, List.tail_nil, hnil] at hround
  generalize serveBytes h s (encodeCustomRequest reqId payload) [] = session at hround ⊢
  obtain ⟨calls, buf, state, exit⟩ := session
  obtain rfl : exit = .recvFailed := hround.exit
  obtain rfl : buf = [] := hround.buf rfl
  obtain rfl : state = s' := hround.state
  obtain rfl : calls = [_] := hround.calls
  rfl

/-- The status a client reads is the first byte of the handler's response payload. -/
theorem status_packResponse (reqId : UInt32) (payload resp : Bytes) (s : σ) :
    Call.status ⟨reqId, payload, packResponse reqId resp, s⟩ = some (statusValue resp).1 := by
  have hheader : ∀ (frameLen : ℕ) (rest : Bytes), (frame frameLen reqId rest)[10]? = rest[0]? := by
    intro frameLen rest
    have hassoc : frame frameLen reqId rest
        = (be 4 frameLen ++ MAGIC :: VERSION :: be 4 reqId.toNat) ++ rest := by
      simp only [frame, List.append_assoc, List.cons_append]
    rw [hassoc, List.getElem?_append_right (by simp)]
    simp
  rw [Call.status, packResponse, encodeResponse, hheader]
  rfl

/-! ## The requests decoded -/

theorem Session.Agrees.decoded {a b : Session σ} (h : a.Agrees b) : a.decoded = b.decoded := by
  rw [Session.decoded, Session.decoded, h.calls, h.exit]

theorem Session.decoded_after (s : Session σ) (c : Call σ) :
    (s.after c).decoded = (c.reqId, c.payload) :: s.decoded := rfl

/-- A length field counts less than `2 ^ 32`. -/
theorem frameLength_lt (buf : Bytes) : frameLength buf < 2 ^ 32 :=
  (readBE_take_lt buf 4).trans_le (by norm_num)

/-- A well-formed frame is decoded with the payload behind its header. -/
theorem IsFrame.length_payload {f payload : Bytes} (hf : IsFrame f) {consumed : ℕ} {reqId : UInt32}
    (h : tryDecode f = some (.ok consumed reqId payload)) : 10 + payload.length = f.length := by
  have haccepted := accepted_of_tryDecode h
  have hten := haccepted.ten_le
  have hconsumed : consumed = f.length := by
    have hnum := haccepted.frameLen
    rw [numAt, bytesAt, if_pos (by omega), List.drop_zero, Option.map_some] at hnum
    rw [← hf.length_eq]
    exact (Option.some.inj hnum).symm
  have hlt := hf.length_eq ▸ frameLength_lt f
  rw [length_of_bytesAt haccepted.payload, hconsumed, payloadLen]
  omega

section Front

variable (h : BinaryHandler σ) (s : σ) {f : Bytes} (hf : IsFrame f) (rest : Bytes)
  (sends : List Bool)

include hf in
/-- A frame that `TryDecode` rejects leaves no trace. -/
theorem serveBytes_rejected {consumed : ℕ} (hdec : tryDecode f = some (.fail consumed)) :
    (serveBytes h s (f ++ rest) sends).Agrees (serveBytes h s rest sends) := by
  have hround := serveBytes_isFrame h s hf rest sends
  rwa [serveFrame, hdec] at hround

include hf in
/-- A frame that `TryDecode` accepts is the first one decoded; whatever is decoded after it comes
from the bytes after it. -/
theorem decoded_accepted {consumed : ℕ} {reqId : UInt32} {payload : Bytes}
    (hdec : tryDecode f = some (.ok consumed reqId payload)) :
    ∃ l, (serveBytes h s (f ++ rest) sends).decoded = (reqId, payload) :: l ∧
      (l = [] ∨ ∃ s' sends', l = (serveBytes h s' rest sends').decoded) := by
  have hround := serveBytes_isFrame h s hf rest sends
  rw [hround.decoded, serveFrame, hdec]
  dsimp only
  rcases h reqId payload s with _ | ⟨resp, s'⟩
  · exact ⟨[], rfl, .inl rfl⟩
  · by_cases hsend : sends.headD true = true
    · simp only [if_pos hsend]
      exact ⟨_, Session.decoded_after _ _, .inr ⟨s', sends.tail, rfl⟩⟩
    · simp only [if_neg hsend]
      exact ⟨[], rfl, .inl rfl⟩

include hf in
/-- A frame that `TryDecode` reads past the end of is the last one. -/
theorem decoded_none (hdec : tryDecode f = none) :
    (serveBytes h s (f ++ rest) sends).decoded = [] := by
  rw [(serveBytes_isFrame h s hf rest sends).decoded, serveFrame, hdec]
  rfl

end Front

/-- The bytes up to the end of a complete frame are a well-formed frame. -/
theorem isFrame_take {bytes : Bytes} (hten : 10 ≤ frameLength bytes)
    (hle : frameLength bytes ≤ bytes.length) : IsFrame (bytes.take (frameLength bytes)) where
  length_eq := by
    rw [frameLength, List.take_take, Nat.min_eq_left (by omega), ← frameLength,
      List.length_take_of_le hle]
  ten_le := by rwa [List.length_take_of_le hle]

/-- A request that was decoded was received with its ten header bytes. -/
theorem length_of_mem_decoded (h : BinaryHandler σ) (s : σ) (bytes : Bytes) (sends : List Bool)
    {r : UInt32 × Bytes} (hr : r ∈ (serveBytes h s bytes sends).decoded) :
    10 + r.2.length ≤ bytes.length := by
  generalize hn : bytes.length = n
  induction n using Nat.strong_induction_on generalizing s bytes sends with
  | _ n ih =>
    rcases Nat.lt_or_ge bytes.length 4 with hshort | hfour
    · rw [serveBytes_short hshort] at hr
      exact absurd hr List.not_mem_nil
    rcases Nat.lt_or_ge (frameLength bytes) 10 with hbad | hten
    · obtain ⟨b, heq⟩ := serveBytes_badLength (h := h) (s := s) hfour hbad sends
      rw [heq] at hr
      exact absurd hr List.not_mem_nil
    rcases Nat.lt_or_ge bytes.length (frameLength bytes) with hinc | hle
    · rw [serveBytes_incomplete hfour hten hinc] at hr
      exact absurd hr List.not_mem_nil
    -- the frame at the front accounts for its request, the bytes after it for the others
    have hf := isFrame_take hten hle
    have hrest : ∀ s sends, r ∈ (serveBytes h s (bytes.drop (frameLength bytes)) sends).decoded →
        10 + r.2.length ≤ n := by
      intro s sends hmem
      have hlen : (bytes.drop (frameLength bytes)).length < n := by
        rw [List.length_drop]
        omega
      exact (ih _ hlen s _ sends hmem rfl).trans hlen.le
    rw [← List.take_append_drop (frameLength bytes) bytes] at hr
    rcases hdec : tryDecode (bytes.take (frameLength bytes)) with _ | ⟨c⟩ | ⟨c, reqId, payload⟩
    · rw [decoded_none h s hf _ sends hdec] at hr
      exact absurd hr List.not_mem_nil
    · rw [(serveBytes_rejected h s hf _ sends hdec).decoded] at hr
      exact hrest s sends hr
    · obtain ⟨l, heq, hl⟩ := decoded_accepted h s hf (bytes.drop (frameLength bytes)) sends hdec
      rw [heq] at hr
      rcases List.mem_cons.mp hr with rfl | hr
      · have hpay := hf.length_payload hdec
        rw [List.length_take_of_le hle] at hpay
        exact hpay.le.trans (hle.trans hn.le)
      · rcases hl with rfl | ⟨s', sends', rfl⟩
        · exact absurd hr List.not_mem_nil
        · exact hrest s' sends' hr

end LeKV
