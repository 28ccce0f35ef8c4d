import LeKV.Rpc.Server

/-!
# Reassembly of a stream of frames

A client writes requests one after another, the network cuts the stream anywhere, the server answers
each request, and the network cuts the stream of answers anywhere. `frames_reassembled` states that
nothing is lost, duplicated, reordered or cut wrongly on either side.
-/

namespace LeKV

open Bytes BinaryProtocol

variable {σ : Type}

/-! ## The client's side -/

/-- One `RecvFrame` and the `TryDecode` its callers apply to the frame: the request id and the
payload, `none` where no frame came or it was rejected. -/
def recvReply (timeoutMs : ℤ) (buf : Bytes) (evs : List Recv) :
    Option (UInt32 × Bytes) × Bytes × List Recv :=
  match recvFrame timeoutMs buf evs with
  | (none, buf', rest) => (none, buf', rest)
  | (some f, buf', rest) =>
    match tryDecode f with
    | some (.ok _ reqId payload) => (some (reqId, payload), buf', rest)
    | _ => (none, buf', rest)

/-- `n` such calls, one after another. -/
def recvReplies (timeoutMs : ℤ) :
    ℕ → Bytes → List Recv → List (Option (UInt32 × Bytes)) × Bytes × List Recv
  | 0, buf, evs => ([], buf, evs)
  | n + 1, buf, evs =>
    let first := recvReply timeoutMs buf evs
    let others := recvReplies timeoutMs n first.2.1 first.2.2
    (first.1 :: others.1, others.2)

/-- On data that starts with a frame of its own size, `RecvFrame` and `TryDecode` return what the
frame was built from and leave the bytes after it. -/
theorem recvReply_frame {reqId : UInt32} {payload buf rest : Bytes} {chunks : List Bytes}
    (hfit : 10 + payload.length < 2 ^ 32)
    (hbytes : buf ++ chunks.flatten = frame (10 + payload.length) reqId payload ++ rest)
    (timeoutMs : ℤ) :
    ∃ (buf' : Bytes) (chunks' : List Bytes), recvReply timeoutMs buf (chunks.map .data)
        = (some (reqId, payload), buf', chunks'.map .data) ∧ buf' ++ chunks'.flatten = rest := by
  obtain ⟨b, c, hread, hrest⟩ := recvFrame_data (isFrame_frame reqId hfit) hbytes timeoutMs
  refine ⟨b, c, ?_, hrest⟩
  rw [recvReply, hread]
  simp only [tryDecode_frame reqId hfit]

/-- A stream of frames of their own sizes is decoded frame by frame. -/
theorem recvReplies_frames (timeoutMs : ℤ) (replies : List (UInt32 × Bytes))
    (hfit : ∀ r ∈ replies, 10 + r.2.length < 2 ^ 32) {buf rest : Bytes} {chunks : List Bytes}
    (hbytes : buf ++ chunks.flatten
      = (replies.map fun r => frame (10 + r.2.length) r.1 r.2).flatten ++ rest) :
    ∃ (buf' : Bytes) (chunks' : List Bytes),
      recvReplies timeoutMs replies.length buf (chunks.map .data)
        = (replies.map some, buf', chunks'.map .data) ∧ buf' ++ chunks'.flatten = rest := by
  induction replies generalizing buf chunks with
  | nil => exact ⟨buf, chunks, rfl, by simpa using hbytes⟩
  | cons r replies ih =>
    rw [List.map_cons, List.flatten_cons, List.append_assoc] at hbytes
    obtain ⟨b, c, hfirst, hrest⟩ :=
      recvReply_frame (hfit r List.mem_cons_self) hbytes timeoutMs
    obtain ⟨b', c', hothers, hrest'⟩ :=
      ih (fun r hr => hfit r (List.mem_cons_of_mem _ hr)) hrest
    refine ⟨b', c', ?_, hrest'⟩
    rw [List.length_cons, recvReplies, hfirst]
    simp only [hothers, List.map_cons]

/-! ## The server's side -/

/-- One answer of a server: the id of the request and the handler's response payload. -/
structure Answer where
  reqId : UInt32
  resp : Bytes
deriving DecidableEq, Repr

/-- The payload of the frame that carries an answer. -/
def Answer.payload (a : Answer) : Bytes :=
  (statusValue a.resp).1 :: (be 4 (statusValue a.resp).2.length ++ (statusValue a.resp).2)

/-- The answers of a handler to a list of requests, in order. -/
def answers (g : UInt32 → Bytes → σ → Bytes × σ) : σ → List (UInt32 × Bytes) → List Answer
  | _, [] => []
  | s, r :: reqs => ⟨r.1, (g r.1 r.2 s).1⟩ :: answers g (g r.1 r.2 s).2 reqs

theorem length_answers (g : UInt32 → Bytes → σ → Bytes × σ) (s : σ)
    (reqs : List (UInt32 × Bytes)) : (answers g s reqs).length = reqs.length := by
  induction reqs generalizing s with
  | nil => rfl
  | cons r reqs ih => rw [answers, List.length_cons, List.length_cons, ih]

/-- Every answer is a response of the handler. -/
theorem exists_of_mem_answers {g : UInt32 → Bytes → σ → Bytes × σ} {s : σ}
    {reqs : List (UInt32 × Bytes)} {a : Answer} (ha : a ∈ answers g s reqs) :
    ∃ reqId payload s, a.resp = (g reqId payload s).1 := by
  induction reqs generalizing s with
  | nil => exact absurd ha List.not_mem_nil
  | cons r reqs ih =>
    rcases List.mem_cons.mp ha with rfl | ha
    · exact ⟨r.1, r.2, s, rfl⟩
    · exact ih ha

/-- A response payload fits a frame when its status and value do. -/
theorem length_payload_lt {a : Answer} (h : 14 + a.resp.length < 2 ^ 32) :
    10 + a.payload.length < 2 ^ 32 := by
  obtain ⟨reqId, _ | ⟨status, value⟩⟩ := a
  · rw [Answer.payload, statusValue]
    simp
  · simp only [List.length_cons] at h
    simp only [Answer.payload, statusValue, List.length_cons, List.length_append, length_be]
    omega

/-- The frame of an answer that fits has its own size as length field. -/
theorem packResponse_eq {a : Answer} (h : 14 + a.resp.length < 2 ^ 32) :
    packResponse a.reqId a.resp = frame (10 + a.payload.length) a.reqId a.payload := by
  apply encodeResponse_eq _ _
  obtain ⟨reqId, _ | ⟨status, value⟩⟩ := a
  · norm_num [statusValue]
  · simp only [List.length_cons] at h
    simp only [statusValue]
    omega

/-- The server on a stream of requests, all received: one call per request, in order. -/
theorem serveBytes_requests (g : UInt32 → Bytes → σ → Bytes × σ) (s : σ)
    {reqs : List (UInt32 × Bytes)} (hfit : ∀ r ∈ reqs, 10 + r.2.length < 2 ^ 32) :
    let session := serveBytes (fun id p s => some (g id p s)) s
      (reqs.map fun r => encodeCustomRequest r.1 r.2).flatten []
    session.calls.map (fun c => (c.reqId, c.payload)) = reqs ∧
      session.calls.map Call.response
        = (answers g s reqs).map (fun a => packResponse a.reqId a.resp) ∧
      session.exit = .recvFailed ∧ session.buf = [] := by
  induction reqs generalizing s with
  | nil =>
    have hnil : serveBytes (fun id p s => some (g id p s)) s [] []
        = ⟨[], [], s, .recvFailed⟩ := serveBytes_short (by simp) []
    simp [hnil, answers]
  | cons r reqs ih =>
    have hround := serveBytes_frame (fun id p s => some (g id p s)) (hfit r List.mem_cons_self)
      (rfl : some (g r.1 r.2 s) = _) (reqs.map fun r => encodeCustomRequest r.1 r.2).flatten [] rfl
    obtain ⟨hcalls, hresp, hexit, hbuf⟩ :=
      ih (g r.1 r.2 s).2 fun r hr => hfit r (List.mem_cons_of_mem _ hr)
    simp only [List.map_cons, List.flatten_cons, answers]
    refine ⟨?_, ?_, hround.exit.trans hexit, (hround.buf (hround.exit.trans hexit)).trans hbuf⟩
    · rw [hround.calls]
      exact congrArg (r :: ·) hcalls
    · rw [hround.calls]
      exact congrArg (packResponse r.1 (g r.1 r.2 s).1 :: ·) hresp

/-! ## Both sides -/

/-- However the requests are cut into chunks, `HandleClient` calls the handler on each of them, in
order and once, and leaves an empty buffer; and however its answers are cut into chunks, as many
`RecvFrame` and `TryDecode` calls return them in order, with nothing left over. -/
theorem frames_reassembled (g : UInt32 → Bytes → σ → Bytes × σ)
    (hg : ∀ reqId payload s, 14 + (g reqId payload s).1.length < 2 ^ 32) (s : σ)
    {reqs : List (UInt32 × Bytes)} (hfit : ∀ r ∈ reqs, 10 + r.2.length < 2 ^ 32)
    {chunks : List Bytes}
    (hcut : chunks.flatten = (reqs.map fun r => encodeCustomRequest r.1 r.2).flatten) :
    let session := handleClient (fun id p s => some (g id p s)) s [] (chunks.map .data) []
    session.calls.map (fun c => (c.reqId, c.payload)) = reqs ∧ session.buf = [] ∧
      session.calls.map Call.response
        = (answers g s reqs).map (fun a => packResponse a.reqId a.resp) ∧
      ∀ (timeoutMs : ℤ) (replyChunks : List Bytes),
        replyChunks.flatten = (session.calls.map Call.response).flatten →
        ∃ left : List Recv, recvReplies timeoutMs reqs.length [] (replyChunks.map .data)
            = ((answers g s reqs).map fun a => some (a.reqId, a.payload), [], left) ∧
          Recv.bytes left = [] := by
  intro session
  -- the server: what it decodes depends on the bytes and not on the chunks
  have hchunks := handleClient_chunks (fun id p s => some (g id p s)) s [] chunks []
  rw [List.nil_append, hcut] at hchunks
  obtain ⟨hcalls, hresp, hexit, hbuf⟩ := serveBytes_requests g s hfit
  have hresp' : session.calls.map Call.response
      = (answers g s reqs).map (fun a => packResponse a.reqId a.resp) := by
    rw [hchunks.calls, hresp]
  refine ⟨by rw [hchunks.calls, hcalls],
    (hchunks.buf (hchunks.exit.trans hexit)).trans hbuf, hresp', fun timeoutMs replyChunks hcut' => ?_⟩
  -- the client: the replies are frames too, whichever way they are cut
  have hsmall : ∀ a ∈ answers g s reqs, 14 + a.resp.length < 2 ^ 32 := by
    intro a ha
    obtain ⟨reqId, payload, s, heq⟩ := exists_of_mem_answers ha
    rw [heq]
    exact hg reqId payload s
  have hframes : replyChunks.flatten = (((answers g s reqs).map fun a => (a.reqId, a.payload)).map
      fun r => frame (10 + r.2.length) r.1 r.2).flatten := by
    rw [hcut', hresp', List.map_map]
    exact congrArg List.flatten (List.map_congr_left fun a ha => packResponse_eq (hsmall a ha))
  have hfits : ∀ r ∈ (answers g s reqs).map fun a => (a.reqId, a.payload),
      10 + r.2.length < 2 ^ 32 := by
    intro r hr
    obtain ⟨a, ha, rfl⟩ := List.mem_map.mp hr
    exact length_payload_lt (hsmall a ha)
  have hbytes : [] ++ replyChunks.flatten
      = (((answers g s reqs).map fun a => (a.reqId, a.payload)).map
          fun r => frame (10 + r.2.length) r.1 r.2).flatten ++ [] := by
    rw [List.nil_append, List.append_nil, hframes]
  obtain ⟨buf', chunks', hrecv, hleft⟩ := recvReplies_frames timeoutMs _ hfits hbytes
  obtain ⟨rfl, hnone⟩ := List.append_eq_nil_iff.mp hleft
  rw [List.length_map, length_answers, List.map_map] at hrecv
  exact ⟨_, hrecv, by rw [Recv.bytes_data, hnone]⟩

/-- Two requests, cut inside the first length field and inside the second header. -/
theorem frames_reassembled_two :
    let session := handleClient (fun _ _ n => some ([ST_OK, 7], n + 1)) (0 : ℕ) []
      (([[0, 0], [0, 11, 0x4C, 1, 0, 0, 0, 1, 2, 0, 0, 0, 10], [0x4C, 1, 0, 0, 0, 5]] :
        List Bytes).map .data) []
    session.calls.map (fun c => (c.reqId, c.payload)) = [(1, [2]), (5, [])] ∧ session.buf = [] ∧
      session.calls.map Call.response
        = [encodeResponse 1 ST_OK [7], encodeResponse 5 ST_OK [7]] := by
  have hfit : ∀ r ∈ ([(1, [2]), (5, [])] : List (UInt32 × Bytes)), 10 + r.2.length < 2 ^ 32 := by
    decide
  obtain ⟨hcalls, hbuf, hresp, -⟩ := frames_reassembled (fun _ _ n => ([ST_OK, 7], n + 1))
    (fun _ _ _ => by norm_num) (0 : ℕ) hfit
    (rfl : ([[0, 0], [0, 11, 0x4C, 1, 0, 0, 0, 1, 2, 0, 0, 0, 10], [0x4C, 1, 0, 0, 0, 5]] :
      List Bytes).flatten = _)
  exact ⟨hcalls, hbuf, hresp⟩

end LeKV
