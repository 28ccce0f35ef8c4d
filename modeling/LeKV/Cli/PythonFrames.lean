import LeKV.Cli.PythonClient
import LeKV.Rpc.IllegalFrames

/-!
# The two clients' frames

The Python client packs and unpacks frames with code of its own. `encodeFrame_eq` and
`encodeKvRequest_eq` say where it raises instead of cutting a number off, `tryDecode_iff` that its
decoder and the one in C++ agree on every buffer but for frames that announce less than their own
header. `recvFrame_chunks`: how the bytes of a reply are cut into pieces does not matter.
-/

namespace LeKV.LekvClient

open Bytes BinaryProtocol

/-! ## Encoding -/

/-- A frame is the one of the protocol, or `struct.error` is raised. -/
theorem encodeFrame_eq (reqId : ℕ) (payload : Bytes) :
    encodeFrame reqId payload
      = if 10 + payload.length < 2 ^ 32 ∧ reqId < 2 ^ 32 then
          .ok (frame (10 + payload.length) (UInt32.ofNat reqId) payload)
        else .error .structError := by
  have hlen : 4 + 1 + 1 + 4 + payload.length = 10 + payload.length := by omega
  rw [encodeFrame, hlen, packI, packI]
  by_cases hfit : 10 + payload.length < 2 ^ 32
  · by_cases hid : reqId < 2 ^ 32
    · have hnat : (UInt32.ofNat reqId).toNat = reqId := by
        rw [UInt32.toNat_ofNat', Nat.mod_eq_of_lt hid]
      rw [if_pos hfit, if_pos hid, if_pos (And.intro hfit hid), frame, hnat]
      simp [bind, Except.bind, pure, Except.pure]
    · rw [if_pos hfit, if_neg hid, if_neg (not_and_of_not_right _ hid)]
      rfl
  · rw [if_neg hfit, if_neg (not_and_of_not_left _ hfit)]
    rfl

/-- The payload of a request is the one of the protocol, or `struct.error` is raised. -/
theorem encodeKvRequest_eq (opcode : UInt8) (key value : Str) :
    encodeKvRequest opcode key value
      = if (encode key).length < 2 ^ 16 ∧ (encode value).length < 2 ^ 32 then
          .ok (kvPayload opcode (encode key) (encode value))
        else .error .structError := by
  rw [encodeKvRequest, packH, packI]
  by_cases hkey : (encode key).length < 2 ^ 16
  · by_cases hvalue : (encode value).length < 2 ^ 32
    · rw [if_pos hkey, if_pos hvalue, if_pos (And.intro hkey hvalue), kvPayload]
      simp [bind, Except.bind, pure, Except.pure]
    · rw [if_pos hkey, if_neg hvalue, if_neg (not_and_of_not_right _ hvalue)]
      rfl
  · rw [if_neg hkey, if_neg (not_and_of_not_left _ hkey)]
    rfl

/-! ## Decoding -/

/-- When a buffer is decoded, and what into. -/
theorem decodeFrame_eq_some {buf : Bytes} {r : ℕ × Bytes} :
    decodeFrame buf = some r ↔ 10 ≤ buf.length ∧ frameLength buf ≤ buf.length ∧ LegalHeader buf ∧
      r = (readBE ((buf.drop 6).take 4), (buf.take (frameLength buf)).drop 10) := by
  have hid : (buf.take 10).drop 6 = (buf.drop 6).take 4 := List.drop_take
  have hlegal : (buf[4]? ≠ some MAGIC ∨ buf[5]? ≠ some VERSION) ↔ ¬LegalHeader buf := by
    rw [LegalHeader, not_and_or]
  rw [decodeFrame, hid]
  show (if _ then _ else if buf.length < frameLength buf then _ else _) = _ ↔ _
  by_cases hten : buf.length < 10
  · rw [if_pos hten]
    exact iff_of_false (by simp) fun h => absurd h.1 (Nat.not_le.mpr hten)
  by_cases hlen : buf.length < frameLength buf
  · rw [if_neg hten, if_pos hlen]
    exact iff_of_false (by simp) fun h => absurd h.2.1 (Nat.not_le.mpr hlen)
  rw [if_neg hten, if_neg hlen]
  by_cases hmark : LegalHeader buf
  · rw [if_neg fun h => hlegal.mp h hmark, Option.some_inj]
    exact ⟨fun h => ⟨Nat.not_lt.mp hten, Nat.not_lt.mp hlen, hmark, h.symm⟩, fun h => h.2.2.2.symm⟩
  · rw [if_pos (hlegal.mpr hmark)]
    exact iff_of_false (by simp) fun h => hmark h.2.2.1

/-- More bytes behind a frame do not change it. -/
theorem decodeFrame_append {buf : Bytes} {r : ℕ × Bytes} (h : decodeFrame buf = some r) (b : Bytes) :
    decodeFrame (buf ++ b) = some r := by
  obtain ⟨hten, hlen, hlegal, rfl⟩ := decodeFrame_eq_some.mp h
  have hframe : frameLength (buf ++ b) = frameLength buf := frameLength_append b (by omega)
  refine decodeFrame_eq_some.mpr ⟨?_, ?_, ?_, ?_⟩
  · rw [List.length_append]
    omega
  · rw [hframe, List.length_append]
    omega
  · rw [LegalHeader, List.getElem?_append_left (by omega), List.getElem?_append_left (by omega)]
    exact hlegal
  · have hid : ((buf ++ b).drop 6).take 4 = (buf.drop 6).take 4 := by
      rw [List.drop_append_of_le_length (by omega), List.take_append_of_le_length]
      rw [List.length_drop]
      omega
    rw [hframe, hid, List.take_append_of_le_length hlen]

/-- The pieces in which bytes arrive do not matter. -/
theorem recvFrame_chunks {chunks : List Bytes} (hne : ∀ c ∈ chunks, c ≠ []) (buf : Bytes) :
    recvFrame buf (chunks.map .chunk)
      = match decodeFrame (buf ++ chunks.flatten) with
        | some r => .ok r
        | none => .error .timeout := by
  induction chunks generalizing buf with
  | nil =>
    simp only [List.map_nil, List.flatten_nil, List.append_nil]
    rfl
  | cons c chunks ih =>
    rw [List.map_cons, recvFrame, List.flatten_cons]
    rcases hdec : decodeFrame buf with _ | r
    · rw [← List.append_assoc, ← ih (fun d hd => hne d (List.mem_cons_of_mem c hd))]
      exact if_neg (hne c List.mem_cons_self)
    · rw [decodeFrame_append hdec]

/-- A frame that arrived is read, however it was cut. -/
theorem recvFrame_of_decodeFrame {chunks : List Bytes} (hne : ∀ c ∈ chunks, c ≠ []) {r : ℕ × Bytes}
    (hdec : decodeFrame chunks.flatten = some r) : recvFrame [] (chunks.map .chunk) = .ok r := by
  rw [recvFrame_chunks hne, List.nil_append, hdec]

/-- The decoders of the two clients agree on every buffer, but for frames that announce less than
their own header. -/
theorem tryDecode_iff {buf payload : Bytes} {n : ℕ} {reqId : UInt32} (h : ¬ShortFrame buf) :
    tryDecode buf = some (.ok n reqId payload) ↔
      decodeFrame buf = some (reqId.toNat, payload) ∧ n = frameLength buf := by
  rw [decodeFrame_eq_some]
  rcases Nat.lt_or_ge buf.length 10 with hshort | hten
  · rw [tryDecode_short hshort]
    exact iff_of_false (by simp) fun hp => absurd hp.1.1 (Nat.not_le.mpr hshort)
  rw [tryDecode_header hten]
  by_cases hlen : buf.length < frameLength buf
  · rw [if_pos hlen]
    exact iff_of_false (by simp) fun hp => absurd hp.1.2.1 (Nat.not_le.mpr hlen)
  rw [if_neg hlen]
  by_cases hlegal : LegalHeader buf
  · have hlong : 10 ≤ frameLength buf := Nat.not_lt.mp fun hlt => h ⟨hten, hlt, hlegal⟩
    have hid : readBE ((buf.drop 6).take 4) < 2 ^ 32 := readBE_take_lt _ 4
    rw [if_pos hlegal, payloadLen_frameLength hlong, bytesAt_of_le (by omega), Option.map_some,
      Option.some_inj, Decoded.ok.injEq, Prod.mk.injEq, ← List.drop_take]
    constructor
    · rintro ⟨rfl, rfl, rfl⟩
      exact ⟨⟨hten, Nat.not_lt.mp hlen, hlegal, (UInt32.toNat_ofNat_of_lt' hid), rfl⟩, rfl⟩
    · rintro ⟨⟨-, -, -, hnat, hpayload⟩, hn⟩
      refine ⟨hn.symm, ?_, hpayload.symm⟩
      rw [frameRequest, ← hnat, UInt32.ofNat_toNat]
  · rw [if_neg hlegal]
    exact iff_of_false (by simp) fun hp => hlegal hp.1.2.2.1

/-- A frame of the protocol is decoded, whatever follows it. -/
theorem decodeFrame_frame (reqId : UInt32) {payload : Bytes} (hfit : 10 + payload.length < 2 ^ 32) :
    decodeFrame (frame (10 + payload.length) reqId payload) = some (reqId.toNat, payload) := by
  have hdec := tryDecode_frame reqId hfit
  have hlong := (isFrame_frame reqId hfit).ten_le
  rw [← (isFrame_frame reqId hfit).length_eq] at hlong
  exact ((tryDecode_iff fun h => absurd h.length_lt (Nat.not_lt.mpr hlong)).mp hdec).1

/-! ## Responses -/

/-- The status and the value of a response. -/
theorem parseKvResponse_response (status : UInt8) {value : Bytes} (hfit : 5 + value.length < 2 ^ 32) :
    parseKvResponse (status :: (be 4 value.length ++ value))
      = ((status.toNat : ℤ), Utf8.decodeReplace value) := by
  have hlen : ¬(status :: (be 4 value.length ++ value)).length < 5 := by
    simp only [List.length_cons, List.length_append, length_be]
    omega
  have hfield : ((status :: (be 4 value.length ++ value)).take 5).drop 1 = be 4 value.length := by
    rw [List.take_succ_cons, List.drop_succ_cons, List.drop_zero, List.take_left' (length_be _ _)]
  have hvalue : readBE (be 4 value.length) = value.length := by
    rw [readBE_be, Nat.mod_eq_of_lt (by omega)]
  have hrest : ((status :: (be 4 value.length ++ value)).take (5 + value.length)).drop 5 = value := by
    rw [List.take_of_length_le, List.drop_succ_cons, List.drop_left' (length_be _ _)]
    simp only [List.length_cons, List.length_append, length_be]
    omega
  unfold parseKvResponse
  simp only [if_neg hlen, hfield, hvalue, hrest]
  rcases value with _ | ⟨b, value⟩
  · rfl
  · exact congrArg _ (if_pos (Nat.succ_pos _))

end LeKV.LekvClient
