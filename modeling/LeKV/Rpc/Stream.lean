import LeKV.Rpc.BinaryProtocol

/-!
# Frames over a byte stream (`rpc/rpc_client.cpp`, `rpc/rpc_server.cpp`)

`recvAll` is the receive loop that `RpcClient::RecvAll` and the lambda `RecvAll` in
`BinaryRpcServer::HandleClient` share; `recvFrame` is `RpcClient::RecvFrame`; `handleClient` is the
server's loop. What the peer and the network do is a list of results of `::recv`. A list that has
run out stands for a peer that sends nothing more.

`recvAll_data` and `recvFrame_data` describe the loops on data alone: they depend on the bytes that
arrive, not on how these are cut into chunks.
-/

namespace LeKV

open Bytes BinaryProtocol

/-- One result of `::recv`: `n > 0` bytes, `n == 0`, `EAGAIN`, or another error. -/
inductive Recv where
  | data (chunk : Bytes)
  | closed
  | again
  | error
deriving DecidableEq, Repr

/-- The bytes a list of receive results brings. -/
def Recv.bytes : List Recv → Bytes
  | [] => []
  | .data chunk :: evs => chunk ++ Recv.bytes evs
  | _ :: evs => Recv.bytes evs

@[simp] theorem Recv.bytes_data (chunks : List Bytes) :
    Recv.bytes (chunks.map .data) = chunks.flatten := by
  induction chunks with
  | nil => rfl
  | cons c chunks ih => rw [List.map_cons, Recv.bytes, ih, List.flatten_cons]

/-- Whether the receive loop got what it needs, its buffer, and the receive results left. -/
structure Received where
  ok : Bool
  buf : Bytes
  rest : List Recv
deriving DecidableEq, Repr

/-- `RecvAll`: receive until the buffer holds `need` bytes. Each `EAGAIN` costs 10 ms. -/
def recvAll (need : ℕ) : ℤ → Bytes → List Recv → Received
  | _, buf, [] => ⟨decide (need ≤ buf.length), buf, []⟩
  | timeoutMs, buf, ev :: evs =>
    if need ≤ buf.length then ⟨true, buf, ev :: evs⟩
    else
      match ev with
      | .data chunk => recvAll need timeoutMs (buf ++ chunk) evs
      | .again =>
        if timeoutMs - 10 ≤ 0 then ⟨false, buf, evs⟩ else recvAll need (timeoutMs - 10) buf evs
      | .closed => ⟨false, buf, evs⟩
      | .error => ⟨false, buf, evs⟩

/-- The length field at the front of a receive buffer. -/
def frameLength (buf : Bytes) : ℕ := readBE (buf.take 4)

/-- What one attempt to read a frame ends with, each time with the buffer and the receive results it
leaves: a frame, too few bytes, or a length field below the ten header bytes. -/
inductive Read where
  | frame (f buf : Bytes) (rest : List Recv)
  | noData (buf : Bytes) (rest : List Recv)
  | badLength (buf : Bytes) (rest : List Recv)
deriving DecidableEq, Repr

/-- Read the four bytes of the length field, check it, then read the rest of the frame:
`RpcClient::RecvFrame`, and the front of the loop in `BinaryRpcServer::HandleClient`. -/
def readFrame (timeoutMs : ℤ) (buf : Bytes) (evs : List Recv) : Read :=
  let header := recvAll 4 timeoutMs buf evs
  if header.ok = false then .noData header.buf header.rest
  else if frameLength header.buf < 10 then .badLength header.buf header.rest
  else
    let whole := recvAll (frameLength header.buf) timeoutMs header.buf header.rest
    if whole.ok = false then .noData whole.buf whole.rest
    else
      .frame (whole.buf.take (frameLength header.buf)) (whole.buf.drop (frameLength header.buf))
        whole.rest

/-- `RpcClient::RecvFrame`: the frame, if one came in time, the buffer `buf_` it leaves, and the
receive results left. -/
def recvFrame (timeoutMs : ℤ) (buf : Bytes) (evs : List Recv) : Option Bytes × Bytes × List Recv :=
  match readFrame timeoutMs buf evs with
  | .frame f buf rest => (some f, buf, rest)
  | .noData buf rest => (none, buf, rest)
  | .badLength buf rest => (none, buf, rest)

/-! ## The receive loop -/

theorem recvAll_of_le {need : ℕ} {buf : Bytes} (h : need ≤ buf.length) (timeoutMs : ℤ)
    (evs : List Recv) : recvAll need timeoutMs buf evs = ⟨true, buf, evs⟩ := by
  cases evs with
  | nil => simp [recvAll, h]
  | cons ev evs => cases ev <;> rw [recvAll, if_pos h]

/-- One round of the loop, while bytes are missing. -/
theorem recvAll_cons_of_lt {need : ℕ} {buf : Bytes} (h : buf.length < need) (timeoutMs : ℤ)
    (ev : Recv) (evs : List Recv) :
    recvAll need timeoutMs buf (ev :: evs) =
      match ev with
      | .data chunk => recvAll need timeoutMs (buf ++ chunk) evs
      | .again =>
        if timeoutMs - 10 ≤ 0 then ⟨false, buf, evs⟩ else recvAll need (timeoutMs - 10) buf evs
      | .closed => ⟨false, buf, evs⟩
      | .error => ⟨false, buf, evs⟩ := by
  cases ev <;> rw [recvAll, if_neg (Nat.not_le.mpr h)]

/-- The receive loop succeeds only with the bytes it needs. -/
theorem recvAll_ok {need : ℕ} {timeoutMs : ℤ} {buf : Bytes} {evs : List Recv}
    (h : (recvAll need timeoutMs buf evs).ok = true) :
    need ≤ (recvAll need timeoutMs buf evs).buf.length := by
  induction evs generalizing timeoutMs buf with
  | nil => simpa [recvAll] using h
  | cons ev evs ih =>
    rcases Nat.lt_or_ge buf.length need with hlt | hneed
    · rw [recvAll_cons_of_lt hlt] at h ⊢
      cases ev with
      | data chunk => exact ih h
      | again =>
        by_cases ht : timeoutMs - 10 ≤ 0
        · simp only [if_pos ht, Bool.false_eq_true] at h
        · simp only [if_neg ht] at h ⊢
          exact ih h
      | closed => exact absurd h Bool.false_ne_true
      | error => exact absurd h Bool.false_ne_true
    · rw [recvAll_of_le hneed]
      exact hneed

/-- The receive loop neither drops nor invents a byte. -/
theorem recvAll_stream (need : ℕ) (timeoutMs : ℤ) (buf : Bytes) (evs : List Recv) :
    (recvAll need timeoutMs buf evs).buf ++ Recv.bytes (recvAll need timeoutMs buf evs).rest
      = buf ++ Recv.bytes evs := by
  induction evs generalizing timeoutMs buf with
  | nil => rfl
  | cons ev evs ih =>
    rcases Nat.lt_or_ge buf.length need with hlt | hneed
    · rw [recvAll_cons_of_lt hlt]
      cases ev with
      | data chunk => rw [ih, Recv.bytes, List.append_assoc]
      | again =>
        by_cases ht : timeoutMs - 10 ≤ 0
        · simp only [if_pos ht, Recv.bytes]
        · simp only [if_neg ht, Recv.bytes]
          exact ih _ _
      | closed => rfl
      | error => rfl
    · rw [recvAll_of_le hneed]

/-- On data alone, with enough bytes, the receive loop succeeds and leaves data. -/
theorem recvAll_data_ok {need : ℕ} {buf : Bytes} {chunks : List Bytes}
    (h : need ≤ (buf ++ chunks.flatten).length) (timeoutMs : ℤ) :
    ∃ (b : Bytes) (c : List Bytes),
      recvAll need timeoutMs buf (chunks.map .data) = ⟨true, b, c.map .data⟩ ∧
      b ++ c.flatten = buf ++ chunks.flatten ∧ need ≤ b.length := by
  induction chunks generalizing buf with
  | nil =>
    have hneed : need ≤ buf.length := by simpa using h
    exact ⟨buf, [], recvAll_of_le hneed timeoutMs [], rfl, hneed⟩
  | cons c chunks ih =>
    rw [List.map_cons]
    rcases Nat.lt_or_ge buf.length need with hlt | hneed
    · rw [recvAll_cons_of_lt hlt]
      have hassoc : buf ++ (c :: chunks).flatten = (buf ++ c) ++ chunks.flatten := by
        rw [List.flatten_cons, List.append_assoc]
      rw [hassoc] at h ⊢
      exact ih h
    · exact ⟨buf, c :: chunks, recvAll_of_le hneed timeoutMs _, rfl, hneed⟩

/-- On data alone, with too few bytes, the receive loop takes them all and fails. -/
theorem recvAll_data_fail {need : ℕ} {buf : Bytes} {chunks : List Bytes}
    (h : (buf ++ chunks.flatten).length < need) (timeoutMs : ℤ) :
    recvAll need timeoutMs buf (chunks.map .data) = ⟨false, buf ++ chunks.flatten, []⟩ := by
  induction chunks generalizing buf with
  | nil =>
    have hlt : buf.length < need := by simpa using h
    simp [recvAll, hlt]
  | cons c chunks ih =>
    have hlt : buf.length < need := by
      rw [List.length_append] at h
      omega
    have hassoc : buf ++ (c :: chunks).flatten = (buf ++ c) ++ chunks.flatten := by
      rw [List.flatten_cons, List.append_assoc]
    rw [List.map_cons, recvAll_cons_of_lt hlt, hassoc]
    exact ih (hassoc ▸ h)

/-- A well-formed frame: its length field is its size, at least the ten header bytes. -/
structure IsFrame (f : Bytes) : Prop where
  length_eq : frameLength f = f.length
  ten_le : 10 ≤ f.length

/-- The length field is read from the first four bytes, whatever follows. -/
theorem frameLength_append {a : Bytes} (b : Bytes) (h : 4 ≤ a.length) :
    frameLength (a ++ b) = frameLength a := by
  rw [frameLength, frameLength, List.take_append_of_le_length h]

/-- A frame built with its own size as length is well formed. -/
theorem isFrame_frame (reqId : UInt32) {payload : Bytes} (hfit : 10 + payload.length < 2 ^ 32) :
    IsFrame (frame (10 + payload.length) reqId payload) where
  length_eq := by
    have htake : (frame (10 + payload.length) reqId payload).take 4 = be 4 (10 + payload.length) :=
      List.take_left' (length_be _ _)
    have hpow : (256 : ℕ) ^ 4 = 2 ^ 32 := by norm_num
    rw [frameLength, htake, readBE_be, hpow, Nat.mod_eq_of_lt hfit, length_frame]
  ten_le := by
    rw [length_frame]
    omega

/-! ## Reading a frame

On data, an attempt to read a frame is decided by the bytes that arrive in all. The next four
lemmas are its four outcomes. -/

section Data

variable {buf : Bytes} {chunks : List Bytes} (timeoutMs : ℤ)

/-- With fewer than four bytes the length field stays incomplete. -/
theorem readFrame_short (h : (buf ++ chunks.flatten).length < 4) :
    readFrame timeoutMs buf (chunks.map .data) = .noData (buf ++ chunks.flatten) [] := by
  rw [readFrame, recvAll_data_fail h, if_pos rfl]

theorem readFrame_badLength (h : 4 ≤ (buf ++ chunks.flatten).length)
    (hlen : frameLength (buf ++ chunks.flatten) < 10) :
    ∃ (b : Bytes) (c : List Bytes),
      readFrame timeoutMs buf (chunks.map .data) = .badLength b (c.map .data) ∧
      b ++ c.flatten = buf ++ chunks.flatten := by
  obtain ⟨b, c, heq, hb, hfour⟩ := recvAll_data_ok h timeoutMs
  refine ⟨b, c, ?_, hb⟩
  rw [← hb, frameLength_append _ hfour] at hlen
  rw [readFrame, heq, if_neg Bool.true_eq_false.mp, if_pos hlen]

/-- With fewer bytes than the length field asks for, the frame stays incomplete. -/
theorem readFrame_incomplete (h : 4 ≤ (buf ++ chunks.flatten).length)
    (hten : 10 ≤ frameLength (buf ++ chunks.flatten))
    (hlen : (buf ++ chunks.flatten).length < frameLength (buf ++ chunks.flatten)) :
    readFrame timeoutMs buf (chunks.map .data) = .noData (buf ++ chunks.flatten) [] := by
  obtain ⟨b, c, heq, hb, hfour⟩ := recvAll_data_ok h timeoutMs
  rw [← hb, frameLength_append _ hfour] at hten hlen
  rw [readFrame, heq, if_neg Bool.true_eq_false.mp, if_neg (Nat.not_lt.mpr hten),
    recvAll_data_fail hlen timeoutMs, if_pos rfl, hb]

/-- With enough bytes the frame is cut off the front, and the bytes after it stay. -/
theorem readFrame_complete (h : 4 ≤ (buf ++ chunks.flatten).length)
    (hten : 10 ≤ frameLength (buf ++ chunks.flatten))
    (hlen : frameLength (buf ++ chunks.flatten) ≤ (buf ++ chunks.flatten).length) :
    ∃ (b : Bytes) (c : List Bytes),
      readFrame timeoutMs buf (chunks.map .data)
        = .frame ((buf ++ chunks.flatten).take (frameLength (buf ++ chunks.flatten))) b
            (c.map .data) ∧
      b ++ c.flatten = (buf ++ chunks.flatten).drop (frameLength (buf ++ chunks.flatten)) := by
  obtain ⟨b, c, heq, hb, hfour⟩ := recvAll_data_ok h timeoutMs
  have hfront : frameLength (buf ++ chunks.flatten) = frameLength b := by
    rw [← hb, frameLength_append _ hfour]
  rw [hfront] at hten
  rw [hfront, ← hb] at hlen
  obtain ⟨w, c₂, heq₂, hw, hwhole⟩ := recvAll_data_ok hlen timeoutMs
  refine ⟨w.drop (frameLength b), c₂, ?_, ?_⟩
  · rw [readFrame, heq, if_neg Bool.true_eq_false.mp, if_neg (Nat.not_lt.mpr hten), heq₂,
      if_neg Bool.true_eq_false.mp, hfront, ← hb, ← hw, List.take_append_of_le_length hwhole]
  · rw [hfront, ← hb, ← hw, List.drop_append_of_le_length hwhole]

end Data

/-- `RecvFrame` on data whose bytes start with a well-formed frame returns that frame and leaves the
bytes after it, however they were cut into chunks. -/
theorem recvFrame_data {f rest buf : Bytes} {chunks : List Bytes} (hf : IsFrame f)
    (hbytes : buf ++ chunks.flatten = f ++ rest) (timeoutMs : ℤ) :
    ∃ (buf' : Bytes) (chunks' : List Bytes), recvFrame timeoutMs buf (chunks.map .data)
        = (some f, buf', chunks'.map .data) ∧ buf' ++ chunks'.flatten = rest := by
  have hten := hf.ten_le
  have hlen : frameLength (buf ++ chunks.flatten) = f.length := by
    rw [hbytes, frameLength_append rest (by omega), hf.length_eq]
  have hle : f.length ≤ (buf ++ chunks.flatten).length := by
    rw [hbytes, List.length_append]
    omega
  obtain ⟨b, c, heq, hb⟩ := @readFrame_complete buf chunks timeoutMs
    (by omega) (by omega) (by omega)
  rw [hlen, hbytes, List.take_left] at heq
  rw [hlen, hbytes, List.drop_left] at hb
  exact ⟨b, c, by rw [recvFrame, heq], hb⟩

/-- The bytes hold a complete frame in front, as far as `RecvFrame` checks it. -/
def FrontFrame (bytes : Bytes) : Prop := 10 ≤ frameLength bytes ∧ frameLength bytes ≤ bytes.length

instance (bytes : Bytes) : Decidable (FrontFrame bytes) := inferInstanceAs (Decidable (_ ∧ _))

/-- `RecvFrame` on data: it cuts a complete frame off the front, or leaves everything as it is. -/
theorem recvFrame_eq (timeoutMs : ℤ) (buf : Bytes) (chunks : List Bytes) :
    ∃ (b : Bytes) (c : List Bytes), recvFrame timeoutMs buf (chunks.map .data)
        = (if FrontFrame (buf ++ chunks.flatten) then
            some ((buf ++ chunks.flatten).take (frameLength (buf ++ chunks.flatten))) else none,
          b, c.map .data) ∧
      b ++ c.flatten = if FrontFrame (buf ++ chunks.flatten) then
        (buf ++ chunks.flatten).drop (frameLength (buf ++ chunks.flatten))
      else buf ++ chunks.flatten := by
  rcases Nat.lt_or_ge (buf ++ chunks.flatten).length 4 with hshort | hfour
  · have hnone : ¬FrontFrame (buf ++ chunks.flatten) := fun h => by
      have hle := h.1.trans h.2
      omega
    rw [if_neg hnone, if_neg hnone, recvFrame, readFrame_short timeoutMs hshort]
    exact ⟨_, [], rfl, List.append_nil _⟩
  rcases Nat.lt_or_ge (frameLength (buf ++ chunks.flatten)) 10 with hbad | hten
  · have hnone : ¬FrontFrame (buf ++ chunks.flatten) := fun h => absurd h.1 (by omega)
    obtain ⟨b, c, hread, hb⟩ := readFrame_badLength timeoutMs hfour hbad
    rw [if_neg hnone, if_neg hnone, recvFrame, hread]
    exact ⟨b, c, rfl, hb⟩
  rcases Nat.lt_or_ge (buf ++ chunks.flatten).length (frameLength (buf ++ chunks.flatten))
    with hinc | hle
  · have hnone : ¬FrontFrame (buf ++ chunks.flatten) := fun h => absurd h.2 (by omega)
    rw [if_neg hnone, if_neg hnone, recvFrame, readFrame_incomplete timeoutMs hfour hten hinc]
    exact ⟨_, [], rfl, List.append_nil _⟩
  · obtain ⟨b, c, hread, hb⟩ := readFrame_complete timeoutMs hfour hten hle
    rw [if_pos ⟨hten, hle⟩, if_pos ⟨hten, hle⟩, recvFrame, hread]
    exact ⟨b, c, rfl, hb⟩

end LeKV
