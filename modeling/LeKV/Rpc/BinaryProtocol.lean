import LeKV.Lib.ByteString

/-!
# The binary protocol (`rpc/binary_protocol.cpp`)

A frame is `[4B FrameLen][1B Magic][1B Version][4B RequestID][Payload]`, every number big-endian.
The encoders compute the lengths in `uint16_t` and `uint32_t` and append the bytes whole, so the
model narrows each length where the source does. `none` is a read outside the buffer.
-/

namespace LeKV.BinaryProtocol

open Bytes

def MAGIC : UInt8 := 0x4C
def VERSION : UInt8 := 0x01

def OP_GET_ROUTE : UInt8 := 0x01
def OP_GET : UInt8 := 0x02
def OP_PUT : UInt8 := 0x03
def OP_DELETE : UInt8 := 0x04
def OP_SHARDS : UInt8 := 0x06
def OP_TABLET_STATS : UInt8 := 0x07
def OP_SCAN_RANGE : UInt8 := 0x08
def OP_DELETE_RANGE : UInt8 := 0x09

def ST_OK : UInt8 := 0x00
def ST_NOT_FOUND : UInt8 := 0x01
def ST_NOT_MY_SHARD : UInt8 := 0x02
def ST_BAD_REQUEST : UInt8 := 0x03
def ST_TIMEOUT : UInt8 := 0x04
def ST_NO_SHARD : UInt8 := 0x05

/-- The ten header bytes and the payload, as the encoders write them. -/
def frame (frameLen : ℕ) (reqId : UInt32) (payload : Bytes) : Bytes :=
  be 4 frameLen ++ MAGIC :: VERSION :: (be 4 reqId.toNat ++ payload)

/-- `[1B opcode][2B key_len][4B val_len][key][value]`. The frame length is computed from the
narrowed lengths; the key and the value are appended whole. -/
def encodeRequest (reqId : UInt32) (opcode : UInt8) (key value : Bytes) : Bytes :=
  let keyLen := key.length % 2 ^ 16
  let valLen := value.length % 2 ^ 32
  let payloadLen := (1 + 2 + 4 + keyLen + valLen) % 2 ^ 32
  let frameLen := (10 + payloadLen) % 2 ^ 32
  frame frameLen reqId (opcode :: (be 2 keyLen ++ (be 4 valLen ++ (key ++ value))))

/-- `[1B status][4B val_len][value]`. -/
def encodeResponse (reqId : UInt32) (status : UInt8) (value : Bytes) : Bytes :=
  let valLen := value.length % 2 ^ 32
  let payloadLen := (1 + 4 + valLen) % 2 ^ 32
  let frameLen := (10 + payloadLen) % 2 ^ 32
  frame frameLen reqId (status :: (be 4 valLen ++ value))

/-- A caller's payload behind the header. -/
def encodeCustomRequest (reqId : UInt32) (payload : Bytes) : Bytes :=
  let payloadLen := payload.length % 2 ^ 32
  let frameLen := (10 + payloadLen) % 2 ^ 32
  frame frameLen reqId payload

/-- What `TryDecode` returns: `false` with the bytes to skip, or `true` with the bytes consumed, the
request id and the payload. -/
inductive Decoded where
  | fail (consumed : ℕ)
  | ok (consumed : ℕ) (reqId : UInt32) (payload : Bytes)
deriving DecidableEq, Repr

/-- The `uint32_t` difference `frame_len - 10`. -/
def payloadLen (frameLen : ℕ) : ℕ := (frameLen + (2 ^ 32 - 10)) % 2 ^ 32

/-- `TryDecode`: one frame from the front of a receive buffer. -/
def tryDecode (buf : Bytes) : Option Decoded := do
  if buf.length < 10 then return .fail 0
  let frameLen ← numAt buf 0 4
  if buf.length < frameLen then return .fail 0
  let magic ← buf[4]?
  if magic ≠ MAGIC then return .fail 1
  let version ← buf[5]?
  if version ≠ VERSION then return .fail 1
  let reqId ← numAt buf 6 4
  let payload ← bytesAt buf 10 (payloadLen frameLen)
  return .ok frameLen (UInt32.ofNat reqId) payload

/-! ## Frames -/

theorem length_frame (frameLen : ℕ) (reqId : UInt32) (payload : Bytes) :
    (frame frameLen reqId payload).length = 10 + payload.length := by
  simp only [frame, List.length_append, List.length_cons, length_be]
  omega

/-- The length field of a frame holds the length it was built with, narrowed to 32 bits. -/
theorem numAt_frame (frameLen : ℕ) (reqId : UInt32) (payload : Bytes) :
    numAt (frame frameLen reqId payload) 0 4 = some (frameLen % 2 ^ 32) :=
  num32At_append [] _ frameLen rfl

theorem numAt_frame_reqId (frameLen : ℕ) (reqId : UInt32) (payload : Bytes) :
    numAt (frame frameLen reqId payload) 6 4 = some reqId.toNat := by
  have hframe : frame frameLen reqId payload
      = (be 4 frameLen ++ [MAGIC, VERSION]) ++ (be 4 reqId.toNat ++ payload) := by
    simp only [frame, List.append_assoc, List.cons_append, List.nil_append]
  have hid : numAt ((be 4 frameLen ++ [MAGIC, VERSION]) ++ (be 4 reqId.toNat ++ payload)) 6 4
      = some (reqId.toNat % 2 ^ 32) := num32At_append _ _ _ rfl
  rw [hframe, hid, Nat.mod_eq_of_lt reqId.toNat_lt]

theorem bytesAt_frame_payload (frameLen : ℕ) (reqId : UInt32) (payload : Bytes) :
    bytesAt (frame frameLen reqId payload) 10 payload.length = some payload := by
  have hframe : frame frameLen reqId payload
      = (be 4 frameLen ++ MAGIC :: VERSION :: be 4 reqId.toNat) ++ (payload ++ []) := by
    simp only [frame, List.append_assoc, List.cons_append, List.append_nil]
  rw [hframe]
  exact bytesAt_append _ _ _ rfl rfl

/-- `TryDecode` succeeds on a buffer whose header is in order and long enough for its length
field. -/
theorem tryDecode_eq_ok (buf : Bytes) {payload : Bytes} {frameLen reqId : ℕ} (hten : 10 ≤ buf.length)
    (hlen : numAt buf 0 4 = some frameLen) (hle : frameLen ≤ buf.length)
    (hmagic : buf[4]? = some MAGIC) (hversion : buf[5]? = some VERSION)
    (hid : numAt buf 6 4 = some reqId)
    (hpay : bytesAt buf 10 (payloadLen frameLen) = some payload) :
    tryDecode buf = some (.ok frameLen (UInt32.ofNat reqId) payload) := by
  unfold tryDecode
  simp only [Option.bind_eq_bind]
  rw [if_neg (Nat.not_lt.mpr hten), hlen, Option.bind_some, if_neg (Nat.not_lt.mpr hle), hmagic,
    Option.bind_some, if_neg (not_not.mpr rfl), hversion, Option.bind_some,
    if_neg (not_not.mpr rfl), hid, Option.bind_some, hpay, Option.bind_some]
  rfl

/-- What `TryDecode` has checked when it accepts a buffer. -/
structure Accepted (buf : Bytes) (consumed : ℕ) (payload : Bytes) : Prop where
  ten_le : 10 ≤ buf.length
  frameLen : numAt buf 0 4 = some consumed
  le_length : consumed ≤ buf.length
  magic : buf[4]? = some MAGIC
  version : buf[5]? = some VERSION
  payload : bytesAt buf 10 (payloadLen consumed) = some payload

theorem accepted_of_tryDecode {buf payload : Bytes} {consumed : ℕ} {reqId : UInt32}
    (h : tryDecode buf = some (.ok consumed reqId payload)) : Accepted buf consumed payload := by
  unfold tryDecode at h
  simp only [Option.bind_eq_bind] at h
  by_cases hten : buf.length < 10
  · rw [if_pos hten] at h
    exact absurd h (by simp)
  rw [if_neg hten] at h
  obtain ⟨frameLen, hlen, h⟩ := Option.bind_eq_some_iff.mp h
  by_cases hle : buf.length < frameLen
  · rw [if_pos hle] at h
    exact absurd h (by simp)
  rw [if_neg hle] at h
  obtain ⟨magic, hfour, h⟩ := Option.bind_eq_some_iff.mp h
  by_cases hmagic : magic ≠ MAGIC
  · rw [if_pos hmagic] at h
    exact absurd h (by simp)
  rw [if_neg hmagic] at h
  obtain ⟨version, hfive, h⟩ := Option.bind_eq_some_iff.mp h
  by_cases hversion : version ≠ VERSION
  · rw [if_pos hversion] at h
    exact absurd h (by simp)
  rw [if_neg hversion] at h
  obtain ⟨id, -, h⟩ := Option.bind_eq_some_iff.mp h
  obtain ⟨pay, hpay, h⟩ := Option.bind_eq_some_iff.mp h
  obtain ⟨rfl, -, rfl⟩ := Decoded.ok.inj (Option.some.inj h)
  obtain rfl := not_not.mp hmagic
  obtain rfl := not_not.mp hversion
  exact ⟨not_lt.mp hten, hlen, not_lt.mp hle, hfour, hfive, hpay⟩

/-- A frame whose length field is its size is decoded as it was built. -/
theorem tryDecode_frame (reqId : UInt32) {payload : Bytes} (hfit : 10 + payload.length < 2 ^ 32) :
    tryDecode (frame (10 + payload.length) reqId payload)
      = some (.ok (10 + payload.length) reqId payload) := by
  have hsub : payloadLen (10 + payload.length) = payload.length := by
    unfold payloadLen
    omega
  have hok := tryDecode_eq_ok (frame (10 + payload.length) reqId payload)
    (by rw [length_frame]; omega)
    (by rw [numAt_frame, Nat.mod_eq_of_lt hfit])
    (by rw [length_frame])
    rfl rfl (numAt_frame_reqId _ _ _)
    (by rw [hsub, bytesAt_frame_payload])
  rwa [UInt32.ofNat_toNat] at hok

/-! ## The encoders -/

/-- A custom request that fits 32 bits is a frame of its own size. -/
theorem encodeCustomRequest_eq (reqId : UInt32) {payload : Bytes}
    (hfit : 10 + payload.length < 2 ^ 32) :
    encodeCustomRequest reqId payload = frame (10 + payload.length) reqId payload := by
  rw [encodeCustomRequest, Nat.mod_eq_of_lt (by omega : payload.length < 2 ^ 32),
    Nat.mod_eq_of_lt hfit]

/-- A response whose value fits the frame is a frame of its own size. -/
theorem encodeResponse_eq (reqId : UInt32) (status : UInt8) {value : Bytes}
    (hfit : 15 + value.length < 2 ^ 32) :
    encodeResponse reqId status value
      = frame (10 + (status :: (be 4 value.length ++ value)).length) reqId
          (status :: (be 4 value.length ++ value)) := by
  have hlen : (status :: (be 4 value.length ++ value)).length = 5 + value.length := by
    simp only [List.length_cons, List.length_append, length_be]
    omega
  simp only [encodeResponse, hlen]
  rw [Nat.mod_eq_of_lt (by omega : value.length < 2 ^ 32), Nat.mod_eq_of_lt (by omega),
    Nat.mod_eq_of_lt (by omega)]

/-- The payload of a `GET`, `PUT` or `DELETE` request. -/
def kvPayload (opcode : UInt8) (key value : Bytes) : Bytes :=
  opcode :: (be 2 key.length ++ (be 4 value.length ++ (key ++ value)))

theorem length_kvPayload (opcode : UInt8) (key value : Bytes) :
    (kvPayload opcode key value).length = 7 + key.length + value.length := by
  simp only [kvPayload, List.length_cons, List.length_append, length_be]
  omega

/-- The payload of a range request, `[1B opcode][2B start_len][start][2B end_len][end]`, as
`QueryTabletStats`, `ScanAndTransferData` and `SendDeleteRange` build it. -/
def rangePayload (opcode : UInt8) (start end_ : Bytes) : Bytes :=
  opcode :: (be 2 start.length ++ (start ++ (be 2 end_.length ++ end_)))

theorem length_rangePayload (opcode : UInt8) (start end_ : Bytes) :
    (rangePayload opcode start end_).length = 5 + start.length + end_.length := by
  simp only [rangePayload, List.length_cons, List.length_append, length_be]
  omega

/-- A request whose key and value fit their fields is a frame of its own size. -/
theorem encodeRequest_eq (reqId : UInt32) (opcode : UInt8) {key value : Bytes}
    (hkey : key.length < 2 ^ 16) (hfit : 17 + key.length + value.length < 2 ^ 32) :
    encodeRequest reqId opcode key value
      = frame (10 + (kvPayload opcode key value).length) reqId (kvPayload opcode key value) := by
  rw [length_kvPayload]
  simp only [encodeRequest, kvPayload]
  rw [Nat.mod_eq_of_lt hkey, Nat.mod_eq_of_lt (by omega : value.length < 2 ^ 32),
    Nat.mod_eq_of_lt (by omega), Nat.mod_eq_of_lt (by omega)]

end LeKV.BinaryProtocol
