import LeKV.Cli.RouteTable

/-!
# The client on arbitrary responses (`lekv_cli.cpp`)

A response is any byte string. `FetchRouteTable` is safe exactly where the body starts inside the
payload and every segment with four parts has a fifth one and a number for its id; `DoDataNodeRequest`
returns the announced value exactly where `5 + val_len` does not wrap.
-/

namespace LeKV

open Bytes BinaryProtocol Text

/-- `LekvCli::DoDataNodeRequest` on the payload of the response: its result, the status and the
text. `none` is an access out of bounds. -/
def doDataNodeRequest (payload : Bytes) : Option (Bool × UInt8 × Bytes) :=
  match payload with
  | [] => some (false, ST_BAD_REQUEST, "Empty payload".toUTF8.toList)
  | status :: _ =>
    if payload.length < 5 then some (true, status, [])
    else do
      let valLen ← numAt payload 1 4
      if 0 < valLen ∧ (5 + valLen) % 2 ^ 32 ≤ payload.length then
        let result ← bytesAt payload 5 valLen
        return (true, status, result)
      return (true, status, [])

/-- The value a payload announces, if all of it is there. -/
def announcedValue (payload : Bytes) : Bytes :=
  match numAt payload 1 4 with
  | none => []
  | some valLen => if 5 + valLen ≤ payload.length then (payload.drop 5).take valLen else []

/-- The client reads the routing table, or refuses it, and takes from an answer exactly the value it
announces. -/
structure SurvivesResponse (payload : Bytes) : Prop where
  fetch : fetchRouteTable payload ≠ none
  result : (doDataNodeRequest payload).map (fun r => r.2.2) = some (announcedValue payload)

/-- A segment that is skipped, or has an id that is a 64-bit number and all five parts. -/
def ReadableSegment (segment : Bytes) : Prop :=
  4 ≤ (segment.splitOn COLON).length →
    5 ≤ (segment.splitOn COLON).length ∧
      ∀ id ∈ (segment.splitOn COLON).head?, ∃ negative n rest,
        parseDecimal id = some (negative, n, rest) ∧ n < 2 ^ 64

/-- A body that is in the payload and has, after a count, readable segments only. -/
def ReadableTable (payload : Bytes) : Prop :=
  payload.head? = some ST_OK → 5 ≤ payload.length ∧
    ∀ negative count rest, parseDecimal (payload.drop 5) = some (negative, count, rest) →
      count < 2 ^ 64 → ∀ segment ∈ words rest, ReadableSegment segment

/-- A status, and a length whose end does not wrap. -/
def ReadableAnswer (payload : Bytes) : Prop :=
  payload ≠ [] ∧ ∀ valLen, numAt payload 1 4 = some valLen →
    5 + valLen < 2 ^ 32 ∨ 5 + valLen ≤ payload.length

/-! ## The routing table -/

/-- `stoull` throws unless there is a number below `2 ^ 64`. -/
theorem stoull_ne_none {s : Bytes} :
    stoull s ≠ none ↔ ∃ negative n rest, parseDecimal s = some (negative, n, rest) ∧ n < 2 ^ 64 := by
  unfold stoull
  rcases parseDecimal s with _ | ⟨negative, n, rest⟩
  · simp
  · dsimp only
    by_cases hn : 2 ^ 64 ≤ n
    · rw [if_pos hn]
      apply iff_of_false (by simp)
      rintro ⟨_, _, _, ⟨⟩, hlt⟩
      exact absurd hlt (Nat.not_lt.mpr hn)
    · rw [if_neg hn]
      exact iff_of_true (by simp) ⟨negative, n, rest, rfl, Nat.lt_of_not_le hn⟩

/-- A segment is taken apart, or skipped, if it is readable, and only then. -/
theorem parseSegment_ne_none {segment : Bytes} :
    parseSegment segment ≠ none ↔ ReadableSegment segment := by
  unfold parseSegment ReadableSegment
  rcases segment.splitOn COLON with _ | ⟨id, _ | ⟨start, _ | ⟨stop, _ | ⟨ip, rest⟩⟩⟩⟩
  · simp
  · simp
  · simp
  · simp
  · dsimp only
    rcases hid : stoull id with _ | n
    · apply iff_of_false (by simp)
      intro h
      exact stoull_ne_none.mpr ((h (by simp)).2 id rfl) hid
    · have hnumber := stoull_ne_none.mp (hid ▸ Option.some_ne_none n)
      rcases rest with _ | ⟨port, rest⟩
      · simp
      · refine iff_of_true (by simp) fun _ => ⟨by simp, ?_⟩
        rintro _ ⟨⟩
        exact hnumber

theorem mapM_ne_none {α β : Type} {f : α → Option β} {l : List α} :
    l.mapM f ≠ none ↔ ∀ a ∈ l, f a ≠ none := by
  induction l with
  | nil => simp
  | cons a l ih =>
    rw [List.mapM_cons, List.forall_mem_cons, ← ih]
    rcases f a with _ | b
    · simp
    · rcases l.mapM f with _ | bs <;> simp

/-- `FetchRouteTable` returns on the payloads with a readable table, and on no others. -/
theorem fetchRouteTable_ne_none {payload : Bytes} :
    fetchRouteTable payload ≠ none ↔ ReadableTable payload := by
  unfold fetchRouteTable ReadableTable
  by_cases hstatus : payload.head? = some ST_OK
  · rw [if_neg (not_not.mpr hstatus)]
    by_cases hlen : payload.length < 5
    · simp [hstatus, hlen]
    · rw [if_neg hlen]
      rcases hcount : parseDecimal (payload.drop 5) with _ | ⟨negative, count, rest⟩
      · simp [hstatus, Nat.le_of_not_lt hlen]
      · dsimp only
        by_cases hbig : 2 ^ 64 ≤ count
        · rw [if_pos hbig]
          refine iff_of_true (by simp) fun _ => ⟨Nat.le_of_not_lt hlen, ?_⟩
          rintro _ _ _ ⟨⟩ hsmall
          exact absurd hsmall (Nat.not_lt.mpr hbig)
        · rw [if_neg hbig]
          have hsegments : (words rest).mapM parseSegment ≠ none
              ↔ ∀ w ∈ words rest, ReadableSegment w := by
            rw [mapM_ne_none]
            exact forall₂_congr fun w _ => parseSegment_ne_none
          have hbody : (∀ w ∈ words rest, ReadableSegment w) ↔ (payload.head? = some ST_OK →
              5 ≤ payload.length ∧ ∀ negative' count' rest',
                some (negative, count, rest) = some (negative', count', rest') →
                count' < 2 ^ 64 → ∀ w ∈ words rest', ReadableSegment w) := by
            constructor
            · rintro hall -
              refine ⟨Nat.le_of_not_lt hlen, ?_⟩
              rintro _ _ _ ⟨⟩ -
              exact hall
            · exact fun h => (h hstatus).2 negative count rest rfl (Nat.lt_of_not_le hbig)
          rw [← hbody, ← hsegments]
          rcases (words rest).mapM parseSegment with _ | parsed <;> simp
  · rw [if_pos hstatus]
    exact iff_of_true (by simp) fun h => absurd h hstatus

/-! ## The answer of a DataNode -/

/-- A length field is in the payload, and below `2 ^ 32`. -/
theorem of_valLen {payload : Bytes} {valLen : ℕ} (h : numAt payload 1 4 = some valLen) :
    5 ≤ payload.length ∧ valLen < 2 ^ 32 := by
  refine ⟨not_lt.mp fun hshort => ?_, numAt_lt h⟩
  rw [numAt_eq_none.mpr (by omega)] at h
  exact absurd h (by simp)

/-- The text of a payload with a length field. -/
theorem doDataNodeRequest_text {payload : Bytes} {valLen : ℕ} (h : numAt payload 1 4 = some valLen) :
    (doDataNodeRequest payload).map (fun r => r.2.2)
      = if 0 < valLen ∧ (5 + valLen) % 2 ^ 32 ≤ payload.length then bytesAt payload 5 valLen
        else some [] := by
  have hlen := (of_valLen h).1
  obtain ⟨status, rest, rfl⟩ :=
    List.exists_cons_of_ne_nil (List.ne_nil_of_length_pos (Nat.lt_of_lt_of_le (by norm_num) hlen))
  unfold doDataNodeRequest
  dsimp only
  rw [if_neg (Nat.not_lt.mpr hlen), h]
  simp only [Option.bind_eq_bind, Option.bind_some]
  split_ifs with hfits
  · rcases bytesAt (status :: rest) 5 valLen with _ | result <;> rfl
  · rfl

/-- Without a length field the text is empty, but for the error on the empty payload. -/
theorem doDataNodeRequest_short {payload : Bytes} (h : payload.length < 5) :
    (doDataNodeRequest payload).map (fun r => r.2.2) = some [] ↔ payload ≠ [] := by
  rcases payload with _ | ⟨status, rest⟩
  · exact iff_of_false (by decide +kernel) (by simp)
  · refine iff_of_true ?_ (List.cons_ne_nil _ _)
    unfold doDataNodeRequest
    dsimp only
    rw [if_pos h]
    rfl

/-- The result is the announced value where the sum does not wrap, and on no other payload. -/
theorem doDataNodeRequest_announced {payload : Bytes} :
    (doDataNodeRequest payload).map (fun r => r.2.2) = some (announcedValue payload)
      ↔ ReadableAnswer payload := by
  unfold ReadableAnswer announcedValue
  rcases hfield : numAt payload 1 4 with _ | valLen
  · have hshort : payload.length < 5 := numAt_eq_none.mp hfield
    dsimp only
    rw [doDataNodeRequest_short hshort]
    simp
  obtain ⟨hlen, hlt⟩ := of_valLen hfield
  have hne : payload ≠ [] := List.ne_nil_of_length_pos (Nat.lt_of_lt_of_le (by norm_num) hlen)
  have hsum : (∀ n, some valLen = some n → 5 + n < 2 ^ 32 ∨ 5 + n ≤ payload.length)
      ↔ 5 + valLen < 2 ^ 32 ∨ 5 + valLen ≤ payload.length := by
    simp
  dsimp only
  rw [doDataNodeRequest_text hfield, hsum, and_iff_right hne]
  by_cases hinside : 5 + valLen ≤ payload.length
  · -- all of the value is there: it is taken, also where the sum wraps
    refine iff_of_true ?_ (.inr hinside)
    have hmod : (5 + valLen) % 2 ^ 32 ≤ payload.length := (Nat.mod_le _ _).trans hinside
    rw [if_pos hinside]
    rcases Nat.eq_zero_or_pos valLen with rfl | hpos
    · rw [if_neg (by simp), List.take_zero]
    · rw [if_pos ⟨hpos, hmod⟩, bytesAt_of_le hinside]
  · rw [if_neg hinside]
    by_cases hwrap : 5 + valLen < 2 ^ 32
    · rw [Nat.mod_eq_of_lt hwrap, if_neg fun h => hinside h.2]
      exact iff_of_true rfl (.inl hwrap)
    · -- the sum wraps to at most four, and the end of the value is outside
      have hmod : (5 + valLen) % 2 ^ 32 ≤ payload.length := by omega
      rw [if_pos ⟨by omega, hmod⟩, bytesAt_eq_none.mpr (by omega)]
      exact iff_of_false (by simp) (by omega)

/-- For every payload: the client survives it exactly where it has a readable table, if it is one,
and a length that does not wrap, if it has one. -/
theorem survivesResponse_iff (payload : Bytes) :
    SurvivesResponse payload ↔ ReadableTable payload ∧ ReadableAnswer payload := by
  constructor
  · intro h
    exact ⟨fetchRouteTable_ne_none.mp h.fetch, doDataNodeRequest_announced.mp h.result⟩
  · rintro ⟨htable, hanswer⟩
    exact ⟨fetchRouteTable_ne_none.mpr htable, doDataNodeRequest_announced.mpr hanswer⟩

/-- The table `1 1:a:b:c`, with one segment of four parts. -/
def fourParts : Bytes :=
  ST_OK :: (be 4 9 ++ [0x31, 0x20, 0x31, 0x3A, 0x61, 0x3A, 0x62, 0x3A, 0x63])

/-- The frame of such a response is decoded, and the client reads past the end of `parts`. -/
theorem not_survivesResponse_fourParts : ¬∀ buf consumed reqId payload,
    tryDecode buf = some (.ok consumed reqId payload) → SurvivesResponse payload := by
  intro hall
  have hframe : tryDecode (frame (10 + fourParts.length) 1 fourParts)
      = some (.ok (10 + fourParts.length) 1 fourParts) := tryDecode_frame 1 (by decide)
  have hfetch : fetchRouteTable fourParts = none := by decide +kernel
  exact (hall _ _ _ _ hframe).fetch hfetch

end LeKV
