import LeKV.Kv.Requests

/-!
# How the Master reads a scan reply

A DataNode puts all pairs of a range into one response. The Master gets as much of it as the length
field of the frame says, reads the announced number of pairs, narrowed to 32 bits, and cuts the pairs
off one by one. `pairsFrom_scanPayload` says which pairs it finds.
-/

namespace LeKV

open Bytes BinaryProtocol Balancer DataNode

/-- The bytes of some pairs in a scan response. -/
def pairBytes (pairs : List (Bytes × Bytes)) : Bytes := (pairs.map encodePair).flatten

theorem pairBytes_cons (e : Bytes × Bytes) (pairs : List (Bytes × Bytes)) :
    pairBytes (e :: pairs) = encodePair e ++ pairBytes pairs := rfl

theorem length_encodePair (e : Bytes × Bytes) :
    (encodePair e).length = 6 + e.1.length + e.2.length := by
  simp only [encodePair, List.length_append, length_be]
  omega

/-- A pair whose key and value fit their length fields, as every stored one does. -/
def Storable (e : Bytes × Bytes) : Prop := e.1.length < 2 ^ 16 ∧ e.2.length < 2 ^ 32

instance (e : Bytes × Bytes) : Decidable (Storable e) := inferInstanceAs (Decidable (_ ∧ _))

/-! ## One pair -/

/-- More bytes behind a pair do not change how it is read. -/
theorem pairAt_append {l : Bytes} {pos : ℕ} {r : (Bytes × Bytes) × ℕ} (h : pairAt l pos = some r)
    (b : Bytes) : pairAt (l ++ b) pos = some r := by
  have hnum : ∀ {off w n : ℕ}, numAt l off w = some n → numAt (l ++ b) off w = some n := by
    intro off w n hn
    obtain ⟨x, hx, rfl⟩ := Option.map_eq_some_iff.mp hn
    rw [numAt, bytesAt_append_left hx b, Option.map_some]
  unfold pairAt at h ⊢
  simp only [Option.bind_eq_bind] at h ⊢
  obtain ⟨keyLen, hkl, h⟩ := Option.bind_eq_some_iff.mp h
  obtain ⟨key, hkey, h⟩ := Option.bind_eq_some_iff.mp h
  obtain ⟨vlen, hvl, h⟩ := Option.bind_eq_some_iff.mp h
  obtain ⟨value, hvalue, h⟩ := Option.bind_eq_some_iff.mp h
  rw [hnum hkl, Option.bind_some, bytesAt_append_left hkey, Option.bind_some, hnum hvl,
    Option.bind_some, bytesAt_append_left hvalue, Option.bind_some]
  exact h

/-- A complete pair is read as it was written. -/
theorem pairAt_encodePair (a c : Bytes) {e : Bytes × Bytes} (he : Storable e) :
    pairAt (a ++ (encodePair e ++ c)) a.length = some (e, a.length + (encodePair e).length) := by
  obtain ⟨key, value⟩ := e
  obtain ⟨hkey, hvalue⟩ := he
  have hkl : numAt (a ++ (encodePair (key, value) ++ c)) a.length 2 = some key.length := by
    have h := num16At_append a (key ++ (be 4 value.length ++ (value ++ c))) key.length rfl
    rw [Nat.mod_eq_of_lt hkey] at h
    simpa [encodePair] using h
  have hk : bytesAt (a ++ (encodePair (key, value) ++ c)) (a.length + 2) key.length = some key := by
    have hoff : a.length + 2 = (a ++ be 2 key.length).length := by simp
    have h := bytesAt_append (a ++ be 2 key.length) key (be 4 value.length ++ (value ++ c)) hoff rfl
    simpa [encodePair] using h
  have hvl : numAt (a ++ (encodePair (key, value) ++ c)) (a.length + 2 + key.length) 4
      = some value.length := by
    have hoff : a.length + 2 + key.length = (a ++ (be 2 key.length ++ key)).length := by
      simp
      omega
    have h := num32At_append (a ++ (be 2 key.length ++ key)) (value ++ c) value.length hoff
    rw [Nat.mod_eq_of_lt hvalue] at h
    simpa [encodePair] using h
  have hv : bytesAt (a ++ (encodePair (key, value) ++ c)) (a.length + 2 + key.length + 4)
      value.length = some value := by
    have hoff : a.length + 2 + key.length + 4
        = (a ++ (be 2 key.length ++ (key ++ be 4 value.length))).length := by
      simp
      omega
    have h := bytesAt_append (a ++ (be 2 key.length ++ (key ++ be 4 value.length))) value c hoff rfl
    simpa [encodePair] using h
  unfold pairAt
  simp only [Option.bind_eq_bind]
  rw [hkl, Option.bind_some, hk, Option.bind_some, hvl, Option.bind_some, hv, Option.bind_some,
    length_encodePair]
  show some ((key, value), _) = _
  simp only [Option.some.injEq, Prod.mk.injEq, true_and]
  omega

/-- A pair that is cut off is not read. -/
theorem pairAt_take_of_lt (a c : Bytes) {e : Bytes × Bytes} (he : Storable e) {len : ℕ}
    (hlen : len < a.length + (encodePair e).length) :
    pairAt ((a ++ (encodePair e ++ c)).take len) a.length = none := by
  rcases hat : pairAt ((a ++ (encodePair e ++ c)).take len) a.length with _ | ⟨pair, pos'⟩
  · rfl
  · have hfull := pairAt_append hat ((a ++ (encodePair e ++ c)).drop len)
    rw [List.take_append_drop, pairAt_encodePair a c he] at hfull
    obtain ⟨rfl, rfl⟩ := Prod.mk.inj (Option.some.inj hfull)
    have hle := (pairAt_spec hat).2.2
    rw [List.length_take] at hle
    omega

/-! ## All pairs -/

/-- From bytes that hold the pairs `pairs` from `pos` on and are cut off somewhere, `rounds` rounds
read the first `rounds` pairs if these are there, and fewer otherwise. -/
theorem pairsFrom_take {pairs : List (Bytes × Bytes)} (hpairs : ∀ e ∈ pairs, Storable e) (a : Bytes)
    {len : ℕ} (ha : a.length ≤ len) {rounds : ℕ} (hrounds : rounds ≤ pairs.length) :
    if a.length + (pairBytes (pairs.take rounds)).length ≤ len then
      pairsFrom ((a ++ pairBytes pairs).take len) rounds a.length = pairs.take rounds
    else (pairsFrom ((a ++ pairBytes pairs).take len) rounds a.length).length < rounds := by
  induction rounds generalizing pairs a with
  | zero =>
    rw [if_pos (by simpa [pairBytes] using ha)]
    rfl
  | succ rounds ih =>
    rcases pairs with _ | ⟨e, pairs⟩
    · exact absurd hrounds (by simp)
    have he := hpairs e List.mem_cons_self
    have hrest := fun e' he' => hpairs e' (List.mem_cons_of_mem e he')
    rw [pairBytes_cons, List.take_succ_cons, pairBytes_cons, List.length_append]
    rcases Nat.lt_or_ge len (a.length + (encodePair e).length) with hcut | hwhole
    · rw [if_neg (by omega), pairsFrom, pairAt_take_of_lt a _ he hcut]
      exact Nat.succ_pos rounds
    · have hlen : (a ++ encodePair e).length = a.length + (encodePair e).length :=
        List.length_append
      -- the rest of the bytes is what the next rounds read from
      have hbytes : (a ++ (encodePair e ++ pairBytes pairs)).take len
          = a ++ (encodePair e ++ (pairBytes pairs).take (len - (a ++ encodePair e).length)) := by
        rw [← List.append_assoc, List.take_append, List.take_of_length_le (hlen ▸ hwhole),
          List.append_assoc]
      have hread : pairsFrom ((a ++ (encodePair e ++ pairBytes pairs)).take len) (rounds + 1) a.length
          = e :: pairsFrom (((a ++ encodePair e) ++ pairBytes pairs).take len) rounds
              (a ++ encodePair e).length := by
        rw [pairsFrom, hbytes, pairAt_encodePair a _ he, ← hbytes, ← List.append_assoc, hlen]
      have hnext := ih hrest (a ++ encodePair e) (hlen ▸ hwhole) (Nat.le_of_succ_le_succ hrounds)
      rw [hread]
      rw [hlen] at hnext ⊢
      rw [Nat.add_assoc] at hnext
      split_ifs at hnext ⊢ with h
      · rw [hnext]
      · simpa using hnext

/-- Fewer bytes give the first of the same pairs. -/
theorem pairsFrom_append (l b : Bytes) (rounds pos : ℕ) :
    pairsFrom l rounds pos <+: pairsFrom (l ++ b) rounds pos := by
  induction rounds generalizing pos with
  | zero => exact List.prefix_refl _
  | succ rounds ih =>
    rw [pairsFrom, pairsFrom]
    rcases hat : pairAt l pos with _ | ⟨pair, pos'⟩
    · exact List.nil_prefix
    · rw [pairAt_append hat b]
      exact List.prefix_cons_inj _ |>.mpr (ih pos')

/-! ## The reply of a scan -/

/-- The number of bytes of the response body that the frame's length field makes room for. -/
def bodyRoom (pairs : List (Bytes × Bytes)) : ℕ := (scanBody pairs).length % 2 ^ 32

/-- The number of pairs a scan response announces. -/
def announced (pairs : List (Bytes × Bytes)) : ℕ := pairs.length % 2 ^ 32

/-- What the Master takes for the reply to a scan. -/
def scanPayload (pairs : List (Bytes × Bytes)) : Bytes :=
  ST_OK :: (be 4 (bodyRoom pairs) ++ (scanBody pairs).take (bodyRoom pairs))

/-- The announced pairs can be read from the reply. It is so for every response shorter than
`2 ^ 32` bytes. -/
structure ScanReadable (pairs : List (Bytes × Bytes)) : Prop where
  four_le : 4 ≤ bodyRoom pairs
  fits : 15 + bodyRoom pairs < 2 ^ 32
  whole : 4 + (pairBytes (pairs.take (announced pairs))).length ≤ bodyRoom pairs

theorem length_scanBody (pairs : List (Bytes × Bytes)) :
    (scanBody pairs).length = 4 + (pairBytes pairs).length := by
  rw [scanBody, List.length_append, length_be, pairBytes]

theorem announced_le (pairs : List (Bytes × Bytes)) : announced pairs ≤ pairs.length :=
  Nat.mod_le _ _

theorem length_le_pairBytes (pairs : List (Bytes × Bytes)) :
    6 * pairs.length ≤ (pairBytes pairs).length := by
  induction pairs with
  | nil => exact Nat.zero_le _
  | cons e pairs ih =>
    rw [pairBytes_cons, List.length_append, length_encodePair, List.length_cons]
    omega

/-- A response that fits is read completely. -/
theorem scanReadable_of_fits {pairs : List (Bytes × Bytes)}
    (h : 15 + (scanBody pairs).length < 2 ^ 32) :
    ScanReadable pairs ∧ announced pairs = pairs.length := by
  have hbody := length_scanBody pairs
  have hcount := length_le_pairBytes pairs
  have hroom : bodyRoom pairs = (scanBody pairs).length := Nat.mod_eq_of_lt (by omega)
  have hall : announced pairs = pairs.length := Nat.mod_eq_of_lt (by omega)
  refine ⟨⟨by omega, by omega, ?_⟩, hall⟩
  rw [hall, List.take_length]
  omega

theorem length_scanPayload (pairs : List (Bytes × Bytes)) :
    (scanPayload pairs).length = 5 + bodyRoom pairs := by
  have hle : bodyRoom pairs ≤ (scanBody pairs).length := Nat.mod_le _ _
  simp only [scanPayload, List.length_cons, List.length_append, length_be,
    List.length_take_of_le hle]
  omega

theorem fitsFrame_scanPayload {pairs : List (Bytes × Bytes)} (hfits : 15 + bodyRoom pairs < 2 ^ 32) :
    FitsFrame (scanPayload pairs) := by
  rw [FitsFrame, length_scanPayload]
  omega

/-- The Master reads the number of pairs from the front of the body. -/
theorem scanCount_scanPayload {pairs : List (Bytes × Bytes)} (hfits : 15 + bodyRoom pairs < 2 ^ 32) :
    scanCount (scanPayload pairs) = if 4 ≤ bodyRoom pairs then some (announced pairs) else none := by
  have hlen := length_scanPayload pairs
  have hroom : numAt (scanPayload pairs) 1 4 = some (bodyRoom pairs) := by
    have h := num32At_append [ST_OK] ((scanBody pairs).take (bodyRoom pairs)) (bodyRoom pairs) rfl
    rwa [Nat.mod_eq_of_lt (by omega)] at h
  have hstatus : (scanPayload pairs).head? = some ST_OK := rfl
  unfold scanCount
  simp only [Option.bind_eq_bind]
  rw [hstatus, if_neg (not_not.mpr rfl), if_neg (by omega), hroom, Option.bind_some,
    Nat.mod_eq_of_lt (by omega), if_neg (by omega)]
  split_ifs with hfour
  · have hbody : scanPayload pairs = (ST_OK :: be 4 (bodyRoom pairs)) ++ (be 4 pairs.length ++
        (pairBytes pairs).take (bodyRoom pairs - 4)) := by
      rw [scanPayload, scanBody, List.take_append, length_be,
        List.take_of_length_le (by rw [length_be]; exact hfour)]
      rfl
    rw [hbody]
    exact num32At_append _ _ _ rfl
  · rw [numAt, bytesAt_eq_none.mpr (by omega), Option.map_none]

/-- The header of a scan reply's payload. -/
def scanFront (pairs : List (Bytes × Bytes)) : Bytes :=
  ST_OK :: (be 4 (bodyRoom pairs) ++ be 4 pairs.length)

theorem length_scanFront (pairs : List (Bytes × Bytes)) : (scanFront pairs).length = 9 := by
  simp [scanFront]

/-- The payload is its header and its pairs, cut off where the length field ends. -/
theorem scanPayload_eq_take (pairs : List (Bytes × Bytes)) :
    scanPayload pairs = (scanFront pairs ++ pairBytes pairs).take (5 + bodyRoom pairs) := by
  have hle : bodyRoom pairs ≤ (scanBody pairs).length := Nat.mod_le _ _
  have hall : scanFront pairs ++ pairBytes pairs
      = (ST_OK :: be 4 (bodyRoom pairs)) ++ scanBody pairs := by
    simp only [scanFront, scanBody, pairBytes, List.cons_append, List.append_assoc]
  rw [hall, List.take_append, List.take_of_length_le (by simp), scanPayload]
  simp

/-- The transfer loop finds all announced pairs in a readable reply, and fewer in one that is not. -/
theorem pairsFrom_scanPayload {pairs : List (Bytes × Bytes)} (hpairs : ∀ e ∈ pairs, Storable e)
    (hfour : 4 ≤ bodyRoom pairs) :
    if 4 + (pairBytes (pairs.take (announced pairs))).length ≤ bodyRoom pairs then
      pairsFrom (scanPayload pairs) (announced pairs) 9 = pairs.take (announced pairs)
    else (pairsFrom (scanPayload pairs) (announced pairs) 9).length < announced pairs := by
  have hfront := length_scanFront pairs
  have hroom : (scanFront pairs).length ≤ 5 + bodyRoom pairs := by omega
  have hread := pairsFrom_take hpairs (scanFront pairs) hroom (announced_le pairs)
  rw [← scanPayload_eq_take, hfront] at hread
  by_cases h : 4 + (pairBytes (pairs.take (announced pairs))).length ≤ bodyRoom pairs
  · rw [if_pos (by omega)] at hread
    rwa [if_pos h]
  · rw [if_neg (by omega)] at hread
    rwa [if_neg h]

theorem ScanReadable.pairsFrom {pairs : List (Bytes × Bytes)} (h : ScanReadable pairs)
    (hpairs : ∀ e ∈ pairs, Storable e) :
    Balancer.pairsFrom (scanPayload pairs) (announced pairs) 9 = pairs.take (announced pairs) := by
  have hfound := pairsFrom_scanPayload hpairs h.four_le
  rwa [if_pos h.whole] at hfound

/-- Whatever the length fields say, the loop finds pairs of the scan only. -/
theorem mem_of_mem_pairsFrom {pairs : List (Bytes × Bytes)} (hpairs : ∀ e ∈ pairs, Storable e)
    {e : Bytes × Bytes} (he : e ∈ pairsFrom (scanPayload pairs) (announced pairs) 9) : e ∈ pairs := by
  have hfront := length_scanFront pairs
  -- the same rounds on the whole reply
  have hall := @pairsFrom_take pairs hpairs (scanFront pairs) ((scanFront pairs).length +
    (pairBytes (pairs.take (announced pairs))).length + (pairBytes pairs).length) (by omega)
    (announced pairs) (announced_le pairs)
  rw [if_pos (by omega), List.take_of_length_le (by rw [List.length_append]; omega), hfront] at hall
  have htaken := pairsFrom_append (scanPayload pairs)
    ((scanFront pairs ++ pairBytes pairs).drop (5 + bodyRoom pairs)) (announced pairs) 9
  rw [scanPayload_eq_take, List.take_append_drop, hall] at htaken
  rw [scanPayload_eq_take] at he
  exact List.mem_of_mem_take (htaken.subset he)

/-- Cutting a frame off behind its header cuts its payload. -/
theorem take_frame (frameLen : ℕ) (reqId : UInt32) (payload : Bytes) (len : ℕ) :
    (frame frameLen reqId payload).take (10 + len) = frame frameLen reqId (payload.take len) := by
  have hheader : ∀ p : Bytes, frame frameLen reqId p
      = (be 4 frameLen ++ MAGIC :: VERSION :: be 4 reqId.toNat) ++ p := by
    intro p
    simp only [frame, List.append_assoc, List.cons_append]
  rw [hheader, hheader, show 10 + len
    = (be 4 frameLen ++ MAGIC :: VERSION :: be 4 reqId.toNat).length + len by simp,
    List.take_length_add_append]

/-- What `TryDecode` makes of a response, as far as its length field goes. -/
theorem decodeReply_response (reqId : UInt32) (status : UInt8) (value : Bytes)
    (hfits : 15 + value.length % 2 ^ 32 < 2 ^ 32) :
    let reply := packResponse reqId (status :: value)
    frameLength reply = 15 + value.length % 2 ^ 32 ∧
      decodeReply (some (reply.take (frameLength reply)))
        = some (status :: (be 4 (value.length % 2 ^ 32) ++ value.take (value.length % 2 ^ 32))) := by
  intro reply
  have hreply := isReply_packResponse reqId (status :: value)
  have hlen : reply.length = 15 + value.length := by
    simp only [reply, packResponse, encodeResponse, statusValue, length_frame, List.length_cons,
      List.length_append, length_be]
    omega
  have hF : frameLength reply = 15 + value.length % 2 ^ 32 := by
    rw [hreply.frameLength_eq, hlen]
    omega
  refine ⟨hF, ?_⟩
  have hpay : (status :: (be 4 (value.length % 2 ^ 32)
      ++ value.take (value.length % 2 ^ 32))).length = 5 + value.length % 2 ^ 32 := by
    simp only [List.length_cons, List.length_append, length_be,
      List.length_take_of_le (Nat.mod_le _ _)]
    omega
  have htake : reply.take (15 + value.length % 2 ^ 32)
      = frame (10 + (5 + value.length % 2 ^ 32)) reqId
          (status :: (be 4 (value.length % 2 ^ 32) ++ value.take (value.length % 2 ^ 32))) := by
    have hlen : (10 + (1 + 4 + value.length % 2 ^ 32) % 2 ^ 32) % 2 ^ 32
        = 10 + (5 + value.length % 2 ^ 32) := by omega
    have hten : 15 + value.length % 2 ^ 32 = 10 + (5 + value.length % 2 ^ 32) := by omega
    show (encodeResponse reqId status value).take _ = _
    rw [encodeResponse, hlen, hten, take_frame, Nat.add_comm 5, List.take_succ_cons]
    have hfield : value.length % 2 ^ 32 + 4
        = (be 4 (value.length % 2 ^ 32)).length + value.length % 2 ^ 32 := by
      rw [length_be, Nat.add_comm]
    rw [hfield, List.take_length_add_append]
  rw [hF, htake, ← hpay, decodeReply, tryDecode_frame reqId (by rw [hpay]; omega)]

/-- A response that is short enough is a frame whose length field is its length. -/
theorem packResponse_whole (reqId : UInt32) (status : UInt8) {value : Bytes}
    (h : 15 + value.length < 2 ^ 32) :
    (packResponse reqId (status :: value)).length = 15 + value.length ∧
      frameLength (packResponse reqId (status :: value))
        = (packResponse reqId (status :: value)).length := by
  have hlen : (packResponse reqId (status :: value)).length = 15 + value.length := by
    simp only [packResponse, encodeResponse, statusValue, length_frame, List.length_cons,
      List.length_append, length_be]
    omega
  refine ⟨hlen, ?_⟩
  rw [(isReply_packResponse reqId (status :: value)).frameLength_eq, hlen]
  exact Nat.mod_eq_of_lt h

/-- A response that is short enough is decoded as it was packed, with the length of its value. -/
theorem decodeReply_whole (reqId : UInt32) (status : UInt8) {value : Bytes}
    (h : 15 + value.length < 2 ^ 32) :
    decodeReply (some (packResponse reqId (status :: value)))
      = some (status :: (be 4 value.length ++ value)) := by
  have hwhole := (packResponse_whole reqId status h).2
  have hmod : value.length % 2 ^ 32 = value.length := Nat.mod_eq_of_lt (by omega)
  have hdecode := (decodeReply_response reqId status value (by rwa [hmod])).2
  rwa [hmod, List.take_length, hwhole, List.take_length] at hdecode

end LeKV
