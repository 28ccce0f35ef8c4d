import LeKV.Rpc.Reassembly
import Mathlib.Data.List.TakeWhile

/-!
# Illegal frames

A frame is illegal when its length field counts less than its own header, or when its magic or its
version is wrong. `TryDecode` does not check the first (`decodesExactly_iff`), and `HandleClient`
does not close the connection on the second (`dispatched_iff`).
-/

namespace LeKV

open Bytes BinaryProtocol

variable {σ : Type}

/-- The magic and the version of a frame are the protocol's. -/
def LegalHeader (f : Bytes) : Prop := f[4]? = some MAGIC ∧ f[5]? = some VERSION

instance (f : Bytes) : Decidable (LegalHeader f) := inferInstanceAs (Decidable (_ ∧ _))

/-- The request id of a frame and the payload behind its header. -/
def frameRequest (f : Bytes) : UInt32 × Bytes :=
  (UInt32.ofNat (readBE ((f.drop 6).take 4)), f.drop 10)

/-! ## The contract of `TryDecode` -/

/-- What `TryDecode` promises about a buffer: no read outside it, `consumed` 0 or 1 on failure, and
on success the frame its length field delimits, with the header in order. -/
def DecodesExactly (buf : Bytes) : Option Decoded → Prop
  | none => False
  | some (.fail consumed) => consumed = 0 ∨ consumed = 1
  | some (.ok consumed _ payload) =>
    10 ≤ consumed ∧ consumed ≤ buf.length ∧ consumed = frameLength buf ∧
      buf[4]? = some MAGIC ∧ buf[5]? = some VERSION ∧
      payload = (buf.take consumed).drop 10

/-- A legal magic and version in front of a length field that counts less than the header. -/
structure ShortFrame (buf : Bytes) : Prop where
  ten_le : 10 ≤ buf.length
  length_lt : frameLength buf < 10
  legal : LegalHeader buf

/-- A buffer too short for a header is kept for later. -/
theorem tryDecode_short {buf : Bytes} (h : buf.length < 10) : tryDecode buf = some (.fail 0) := by
  unfold tryDecode
  rw [if_pos h]
  rfl

/-- The ways through `TryDecode`, for a buffer that holds a header. -/
theorem tryDecode_header {buf : Bytes} (hten : 10 ≤ buf.length) :
    tryDecode buf =
      if buf.length < frameLength buf then some (.fail 0)
      else if LegalHeader buf then
        (bytesAt buf 10 (payloadLen (frameLength buf))).map
          (.ok (frameLength buf) (frameRequest buf).1)
      else some (.fail 1) := by
  have hlen : numAt buf 0 4 = some (frameLength buf) := numAt_of_le (by omega)
  have hid : numAt buf 6 4 = some (readBE ((buf.drop 6).take 4)) := numAt_of_le (by omega)
  have hfour : buf[4]? = some buf[4] := List.getElem?_eq_getElem (by omega)
  have hfive : buf[5]? = some buf[5] := List.getElem?_eq_getElem (by omega)
  have hiff : LegalHeader buf ↔ buf[4] = MAGIC ∧ buf[5] = VERSION := by
    rw [LegalHeader, hfour, hfive, Option.some_inj, Option.some_inj]
  unfold tryDecode
  simp only [Option.bind_eq_bind]
  rw [if_neg (Nat.not_lt.mpr hten), hlen, Option.bind_some, hfour, hfive, hid]
  by_cases hshort : buf.length < frameLength buf
  · rw [if_pos hshort, if_pos hshort]
    rfl
  rw [if_neg hshort, if_neg hshort, Option.bind_some]
  by_cases hmagic : buf[4] = MAGIC
  · rw [if_neg (not_not.mpr hmagic), Option.bind_some]
    by_cases hversion : buf[5] = VERSION
    · rw [if_neg (not_not.mpr hversion), if_pos (hiff.mpr ⟨hmagic, hversion⟩), Option.bind_some]
      rcases bytesAt buf 10 (payloadLen (frameLength buf)) with _ | payload
      · rfl
      · rfl
    · rw [if_pos hversion, if_neg fun h => hversion (hiff.mp h).2]
      rfl
  · rw [if_pos hmagic, if_neg fun h => hmagic (hiff.mp h).1]
    rfl

/-- From ten on, the length of the payload does not wrap. -/
theorem payloadLen_frameLength {buf : Bytes} (h : 10 ≤ frameLength buf) :
    payloadLen (frameLength buf) = frameLength buf - 10 := by
  have hlt := frameLength_lt buf
  unfold payloadLen
  omega

/-- `TryDecode` keeps its contract on every buffer but those whose length field counts less than the
ten header bytes. -/
theorem decodesExactly_iff (buf : Bytes) : DecodesExactly buf (tryDecode buf) ↔ ¬ShortFrame buf := by
  rcases Nat.lt_or_ge buf.length 10 with hlt | hten
  · rw [tryDecode_short hlt]
    exact ⟨fun _ h => absurd h.ten_le (Nat.not_le.mpr hlt), fun _ => .inl rfl⟩
  rw [tryDecode_header hten]
  by_cases hle : buf.length < frameLength buf
  · rw [if_pos hle]
    refine ⟨fun _ h => ?_, fun _ => .inl rfl⟩
    have hshort := h.length_lt
    omega
  rw [if_neg hle]
  by_cases hlegal : LegalHeader buf
  · rw [if_pos hlegal]
    rcases Nat.lt_or_ge (frameLength buf) 10 with hshort | hlong
    · -- the subtraction wraps, and a length below ten is accepted or read past the end
      have hbad : ShortFrame buf := ⟨hten, hshort, hlegal⟩
      rcases bytesAt buf 10 (payloadLen (frameLength buf)) with _ | payload
      · exact iff_of_false id (not_not.mpr hbad)
      · exact iff_of_false (fun h => absurd h.1 (Nat.not_le.mpr hshort)) (not_not.mpr hbad)
    · rw [payloadLen_frameLength hlong, bytesAt_of_le (by omega), Option.map_some]
      refine iff_of_true ⟨hlong, not_lt.mp hle, rfl, hlegal.1, hlegal.2, ?_⟩ fun h => ?_
      · rw [List.drop_take]
      · exact absurd h.length_lt (Nat.not_lt.mpr hlong)
  · rw [if_neg hlegal]
    exact ⟨fun _ h => hlegal h.legal, fun _ => .inr rfl⟩

/-- Ten zero bytes but for magic and version: the payload is read past the end of the buffer. -/
theorem not_decodesExactly_zero : ¬∀ buf : Bytes, DecodesExactly buf (tryDecode buf) := by
  intro h
  have hnone : tryDecode [0, 0, 0, 0, 0x4C, 0x01, 0, 0, 0, 0] = none := by decide +kernel
  have hzero := h [0, 0, 0, 0, 0x4C, 0x01, 0, 0, 0, 0]
  rw [hnone] at hzero
  exact hzero

/-! ## The frames of a stream -/

/-- A stream cut into frames by its length fields, up to a length below ten or a frame of which not
all bytes came. -/
def cutFrames (bytes : Bytes) : List Bytes :=
  if FrontFrame bytes then
    bytes.take (frameLength bytes) :: cutFrames (bytes.drop (frameLength bytes))
  else []
termination_by bytes.length
decreasing_by
  rename_i h
  have hten := h.1
  have hle := h.2
  rw [List.length_drop]
  omega

theorem cutFrames_nil : cutFrames [] = [] := by
  rw [cutFrames, if_neg (by decide)]

/-- A complete frame in front is cut off. -/
theorem cutFrames_append {f : Bytes} (hf : IsFrame f) (rest : Bytes) :
    cutFrames (f ++ rest) = f :: cutFrames rest := by
  have hten := hf.ten_le
  have hlen : frameLength (f ++ rest) = f.length := by
    rw [frameLength_append rest (by omega), hf.length_eq]
  have hfront : FrontFrame (f ++ rest) :=
    ⟨by omega, by rw [hlen, List.length_append]; omega⟩
  rw [cutFrames, if_pos hfront, hlen, List.take_left, List.drop_left]

/-- The requests of the frames before the first illegal one. -/
def legalRequests (bytes : Bytes) : List (UInt32 × Bytes) :=
  ((cutFrames bytes).takeWhile fun f => LegalHeader f).map frameRequest

/-- Of a list of requests, those up to the first whose response cannot be sent. -/
def upToFailure {α : Type} : List Bool → List α → List α
  | _, [] => []
  | sends, a :: l => a :: if sends.headD true then upToFailure sends.tail l else []

/-- More requests make no difference exactly where a response fails before them. -/
theorem upToFailure_append_eq_iff {α : Type} (sends : List Bool) (l late : List α) :
    upToFailure sends (l ++ late) = upToFailure sends l ↔
      late = [] ∨ false ∈ sends.take l.length := by
  induction l generalizing sends with
  | nil =>
    rcases late with _ | ⟨a, late⟩
    · simp
    · simp [upToFailure]
  | cons a l ih =>
    rw [List.cons_append, upToFailure, upToFailure, List.cons.injEq]
    rcases sends with _ | ⟨b, sends⟩
    · have htail := ih []
      simpa using htail
    · rcases b with _ | _
      · simp
      · have htail := ih sends
        simpa using htail

/-- A complete frame is decoded by its header alone. -/
theorem IsFrame.tryDecode_eq {f : Bytes} (hf : IsFrame f) :
    tryDecode f = if LegalHeader f then
        some (.ok f.length (frameRequest f).1 (frameRequest f).2)
      else some (.fail 1) := by
  have hten := hf.ten_le
  have hlen := hf.length_eq
  rw [tryDecode_header hten, if_neg (by omega)]
  by_cases hlegal : LegalHeader f
  · have hall : (f.drop 10).take (f.length - 10) = f.drop 10 :=
      List.take_of_length_le (by rw [List.length_drop])
    rw [if_pos hlegal, if_pos hlegal, payloadLen_frameLength (by omega), bytesAt_of_le (by omega),
      Option.map_some, hlen, hall]
    rfl
  · rw [if_neg hlegal, if_neg hlegal]

/-! ## What `HandleClient` dispatches -/

/-- The requests a connection loop passed to the handler, in order. -/
def Session.dispatched (s : Session σ) : List (UInt32 × Bytes) :=
  s.calls.map fun c => (c.reqId, c.payload)

/-- Without a complete frame in front nothing is dispatched. -/
theorem calls_serveBytes_of_not_frontFrame (h : BinaryHandler σ) (s : σ) {bytes : Bytes}
    (hfront : ¬FrontFrame bytes) (sends : List Bool) : (serveBytes h s bytes sends).calls = [] := by
  rcases Nat.lt_or_ge bytes.length 4 with hshort | hfour
  · rw [serveBytes_short hshort]
  rcases Nat.lt_or_ge (frameLength bytes) 10 with hbad | hten
  · obtain ⟨b, heq⟩ := serveBytes_badLength (h := h) (s := s) hfour hbad sends
    rw [heq]
  · have hinc : bytes.length < frameLength bytes := not_le.mp fun hle => hfront ⟨hten, hle⟩
    rw [serveBytes_incomplete hfour hten hinc]

/-- The loop dispatches every legal frame of the stream, whatever it skipped before it. -/
theorem dispatched_serveBytes (g : UInt32 → Bytes → σ → Bytes × σ) (s : σ) (bytes : Bytes)
    (sends : List Bool) :
    (serveBytes (fun id p s => some (g id p s)) s bytes sends).dispatched
      = upToFailure sends (((cutFrames bytes).filter fun f => LegalHeader f).map frameRequest) := by
  generalize hn : bytes.length = n
  induction n using Nat.strong_induction_on generalizing s bytes sends with
  | _ n ih =>
    by_cases hfront : FrontFrame bytes
    · -- one frame is read: it is dispatched or skipped, and the loop goes on behind it
      obtain ⟨hten, hle⟩ := hfront
      have hf := isFrame_take hten hle
      have hlt : (bytes.drop (frameLength bytes)).length < n := by
        rw [List.length_drop]
        omega
      have hround := serveBytes_isFrame (fun id p s => some (g id p s)) s hf
        (bytes.drop (frameLength bytes)) sends
      rw [List.take_append_drop, serveFrame, hf.tryDecode_eq] at hround
      rw [cutFrames, if_pos ⟨hten, hle⟩]
      by_cases hlegal : LegalHeader (bytes.take (frameLength bytes))
      · rw [if_pos hlegal] at hround
        rw [List.filter_cons_of_pos (by simpa using hlegal), List.map_cons, upToFailure,
          Session.dispatched, hround.calls]
        dsimp only
        by_cases hsend : sends.headD true = true
        · rw [if_pos hsend, if_pos hsend]
          exact congrArg (_ :: ·) (ih _ hlt _ _ _ rfl)
        · rw [if_neg hsend, if_neg hsend]
          rfl
      · rw [if_neg hlegal] at hround
        rw [List.filter_cons_of_neg (by simpa using hlegal), Session.dispatched, hround.calls]
        exact ih _ hlt _ _ _ rfl
    · rw [cutFrames, if_neg hfront, Session.dispatched,
        calls_serveBytes_of_not_frontFrame _ s hfront sends]
      rfl

/-- The requests before the first illegal frame are dispatched and no others exactly when no legal frame
comes behind a frame with a wrong magic or version, or a response before that frame could not be
sent. -/
theorem dispatched_legal_iff (g : UInt32 → Bytes → σ → Bytes × σ) (s : σ) (chunks : List Bytes)
    (sends : List Bool) :
    (handleClient (fun id p s => some (g id p s)) s [] (chunks.map .data) sends).dispatched
        = upToFailure sends (legalRequests chunks.flatten) ↔
      (∀ f ∈ (cutFrames chunks.flatten).dropWhile fun f => LegalHeader f, ¬LegalHeader f) ∨
        false ∈ sends.take (legalRequests chunks.flatten).length := by
  have hchunks := handleClient_chunks (fun id p s => some (g id p s)) s [] chunks sends
  have hlegal : ∀ f ∈ (cutFrames chunks.flatten).takeWhile (fun f => LegalHeader f),
      decide (LegalHeader f) = true := by
    intro f hf
    simpa using List.mem_takeWhile_imp hf
  have hsplit : (cutFrames chunks.flatten).filter (fun f => LegalHeader f)
      = (cutFrames chunks.flatten).takeWhile (fun f => LegalHeader f)
        ++ ((cutFrames chunks.flatten).dropWhile fun f => LegalHeader f).filter
            fun f => LegalHeader f := by
    conv_lhs => rw [← List.takeWhile_append_dropWhile (p := fun f => decide (LegalHeader f))
      (l := cutFrames chunks.flatten)]
    rw [List.filter_append, List.filter_eq_self.mpr hlegal]
  rw [Session.dispatched, hchunks.calls, List.nil_append]
  have hserve := dispatched_serveBytes g s chunks.flatten sends
  rw [Session.dispatched] at hserve
  rw [hserve, hsplit, List.map_append, ← legalRequests, upToFailure_append_eq_iff,
    List.map_eq_nil_iff, List.filter_eq_nil_iff]
  simp only [decide_eq_true_eq]

/-! ## Where the loop is left -/

/-- Once the loop has been left, what comes later makes no difference. -/
theorem serveBytes_append_of_left (h : BinaryHandler σ) (s : σ) (front rest : Bytes)
    (sends : List Bool) (hleft : (serveBytes h s front sends).exit ≠ .recvFailed) :
    (serveBytes h s (front ++ rest) sends).Agrees (serveBytes h s front sends) := by
  generalize hn : front.length = n
  induction n using Nat.strong_induction_on generalizing s front sends with
  | _ n ih =>
    rcases Nat.lt_or_ge front.length 4 with hshort | hfour
    · exact absurd (by rw [serveBytes_short hshort]) hleft
    have hF : frameLength (front ++ rest) = frameLength front := frameLength_append rest hfour
    have hfour' : 4 ≤ (front ++ rest).length := by
      rw [List.length_append]
      omega
    rcases Nat.lt_or_ge (frameLength front) 10 with hbad | hten
    · obtain ⟨b, heq⟩ := serveBytes_badLength (h := h) (s := s) hfour hbad sends
      obtain ⟨b', heq'⟩ := serveBytes_badLength (h := h) (s := s) hfour' (by omega) sends
      rw [heq, heq']
      exact ⟨rfl, rfl, rfl, fun hexit => Exit.noConfusion hexit⟩
    rcases Nat.lt_or_ge front.length (frameLength front) with hinc | hle
    · exact absurd (by rw [serveBytes_incomplete hfour hten hinc]) hleft
    -- both loops read the frame in front, and the shorter one is left later on
    have hlt : (front.drop (frameLength front)).length < n := by
      rw [List.length_drop]
      omega
    have hround := serveBytes_complete h s front hfour hten hle sends
    have hround' := serveBytes_complete h s (front ++ rest) hfour' (by omega)
      (by rw [List.length_append]; omega) sends
    rw [hF, List.take_append_of_le_length hle, List.drop_append_of_le_length hle] at hround'
    refine hround'.trans (.trans ?_ hround.symm)
    rw [hround.exit] at hleft
    generalize serveFrame h s (front.take (frameLength front)) = served at hleft ⊢
    rcases served with _ | call | request
    · exact ih _ hlt s _ sends hleft rfl
    · by_cases hsend : sends.headD true = true
      · simp only [if_pos hsend] at hleft ⊢
        exact (ih _ hlt call.state _ sends.tail hleft rfl).after call
      · simp only [if_neg hsend]
        exact ⟨rfl, rfl, rfl, fun hexit => Exit.noConfusion hexit⟩
    · exact ⟨rfl, rfl, rfl, fun hexit => Exit.noConfusion hexit⟩

/-- The bytes of a stream up to the end of its first illegal frame; of a frame whose length field is
below ten, up to the end of this field. -/
def throughIllegal (bytes : Bytes) : Option Bytes :=
  if FrontFrame bytes then
    if LegalHeader (bytes.take (frameLength bytes)) then
      (throughIllegal (bytes.drop (frameLength bytes))).map (bytes.take (frameLength bytes) ++ ·)
    else some (bytes.take (frameLength bytes))
  else if 4 ≤ bytes.length ∧ frameLength bytes < 10 then some (bytes.take 4)
  else none
termination_by bytes.length
decreasing_by
  rename_i h _
  have hten := h.1
  have hle := h.2
  rw [List.length_drop]
  omega

/-- The connection is closed at the first illegal frame: once this frame has come, the loop is left, and
what it has done is not changed by anything that comes later. -/
def ClosedAtIllegal (h : BinaryHandler σ) (s : σ) (chunks : List Bytes) (sends : List Bool) : Prop :=
  ∀ front, throughIllegal chunks.flatten = some front →
    (serveBytes h s front sends).exit ≠ .recvFailed ∧
      (handleClient h s [] (chunks.map .data) sends).Agrees (serveBytes h s front sends)

theorem throughIllegal_prefix (bytes : Bytes) :
    ∀ front ∈ throughIllegal bytes, front <+: bytes := by
  induction bytes using throughIllegal.induct with
  | case1 bytes hfront hlegal ih =>
    intro front hin
    rw [throughIllegal, if_pos hfront, if_pos hlegal] at hin
    obtain ⟨front', hin', rfl⟩ := Option.map_eq_some_iff.mp hin
    have hrest := (List.prefix_append_right_inj (bytes.take (frameLength bytes))).mpr (ih front' hin')
    rwa [List.take_append_drop] at hrest
  | case2 bytes hfront hlegal =>
    intro front hin
    rw [throughIllegal, if_pos hfront, if_neg hlegal] at hin
    obtain rfl := Option.some.inj hin
    exact List.take_prefix _ _
  | case3 bytes hfront hshort =>
    intro front hin
    rw [throughIllegal, if_neg hfront, if_pos hshort] at hin
    obtain rfl := Option.some.inj hin
    exact List.take_prefix _ _
  | case4 bytes hfront hshort =>
    intro front hin
    rw [throughIllegal, if_neg hfront, if_neg hshort] at hin
    cases hin

/-- A complete frame with a wrong magic or version is an illegal one. -/
theorem throughIllegal_isSome {bytes f : Bytes} (hf : f ∈ cutFrames bytes) (hillegal : ¬LegalHeader f) :
    ∃ front, throughIllegal bytes = some front := by
  induction bytes using throughIllegal.induct with
  | case1 bytes hfront hlegal ih =>
    rw [cutFrames, if_pos hfront] at hf
    obtain ⟨front, hin⟩ := ih ((List.mem_cons.mp hf).resolve_left fun heq => hillegal (heq ▸ hlegal))
    exact ⟨_, by rw [throughIllegal, if_pos hfront, if_pos hlegal, hin, Option.map_some]⟩
  | case2 bytes hfront hlegal =>
    exact ⟨_, by rw [throughIllegal, if_pos hfront, if_neg hlegal]⟩
  | case3 bytes hfront hshort | case4 bytes hfront hshort =>
    rw [cutFrames, if_neg hfront] at hf
    exact absurd hf List.not_mem_nil

/-- The loop waits for more bytes behind the first illegal frame exactly when this frame is complete,
with a wrong magic or version, and no response before it has failed. -/
theorem exit_throughIllegal (g : UInt32 → Bytes → σ → Bytes × σ) (s : σ) {bytes front : Bytes}
    (hfront : throughIllegal bytes = some front) (sends : List Bool) :
    (serveBytes (fun id p s => some (g id p s)) s front sends).exit = .recvFailed ↔
      (∃ f ∈ cutFrames bytes, ¬LegalHeader f) ∧ false ∉ sends.take (legalRequests bytes).length := by
  induction bytes using throughIllegal.induct generalizing s front sends with
  | case1 bytes hcomplete hlegal ih =>
    rw [throughIllegal, if_pos hcomplete, if_pos hlegal] at hfront
    obtain ⟨front, hrest, rfl⟩ := Option.map_eq_some_iff.mp hfront
    have hf := isFrame_take hcomplete.1 hcomplete.2
    have hround := serveBytes_isFrame (fun id p s => some (g id p s)) s hf front sends
    rw [serveFrame, hf.tryDecode_eq, if_pos hlegal] at hround
    have hcut : cutFrames bytes
        = bytes.take (frameLength bytes) :: cutFrames (bytes.drop (frameLength bytes)) := by
      rw [cutFrames, if_pos hcomplete]
    have hrequests : (legalRequests bytes).length
        = (legalRequests (bytes.drop (frameLength bytes))).length + 1 := by
      rw [legalRequests, hcut, List.takeWhile_cons_of_pos (by simpa using hlegal), List.map_cons,
        List.length_cons]
      rfl
    have hexists : (∃ f ∈ cutFrames bytes, ¬LegalHeader f) ↔
        ∃ f ∈ cutFrames (bytes.drop (frameLength bytes)), ¬LegalHeader f := by
      rw [hcut, List.exists_mem_cons_iff]
      exact or_iff_right (not_not.mpr hlegal)
    rw [hround.exit, hexists, hrequests]
    dsimp only
    rcases sends with _ | ⟨_ | _, sends⟩
    · have htail := ih (g (frameRequest (bytes.take (frameLength bytes))).1
        (frameRequest (bytes.take (frameLength bytes))).2 s).2 hrest []
      simpa [Session.after] using htail
    · simp
    · have htail := ih (g (frameRequest (bytes.take (frameLength bytes))).1
        (frameRequest (bytes.take (frameLength bytes))).2 s).2 hrest sends
      simpa [Session.after] using htail
  | case2 bytes hcomplete hlegal =>
    rw [throughIllegal, if_pos hcomplete, if_neg hlegal] at hfront
    obtain rfl := Option.some.inj hfront
    have hf := isFrame_take hcomplete.1 hcomplete.2
    have hround := serveBytes_isFrame (fun id p s => some (g id p s)) s hf [] sends
    rw [serveFrame, hf.tryDecode_eq, if_neg hlegal, List.append_nil] at hround
    have hcut : cutFrames bytes
        = bytes.take (frameLength bytes) :: cutFrames (bytes.drop (frameLength bytes)) := by
      rw [cutFrames, if_pos hcomplete]
    have hnone : legalRequests bytes = [] := by
      rw [legalRequests, hcut, List.takeWhile_cons_of_neg (by simpa using hlegal), List.map_nil]
    refine iff_of_true ?_ ⟨⟨_, hcut ▸ List.mem_cons_self, hlegal⟩, by simp [hnone]⟩
    rw [hround.exit]
    dsimp only
    rw [serveBytes_short (by simp)]
  | case3 bytes hcomplete hshort =>
    rw [throughIllegal, if_neg hcomplete, if_pos hshort] at hfront
    obtain rfl := Option.some.inj hfront
    have hlen : (bytes.take 4).length = 4 := List.length_take_of_le hshort.1
    have hF : frameLength (bytes.take 4) = frameLength bytes := by
      rw [frameLength, List.take_take, Nat.min_self, ← frameLength]
    obtain ⟨b, heq⟩ := serveBytes_badLength (h := fun id p s => some (g id p s)) (s := s)
      hlen.ge (hF.trans_lt hshort.2) sends
    rw [heq, cutFrames, if_neg hcomplete]
    exact iff_of_false (fun hexit => Exit.noConfusion hexit) (by simp)
  | case4 bytes hcomplete hshort =>
    rw [throughIllegal, if_neg hcomplete, if_neg hshort] at hfront
    cases hfront

/-- The connection is closed at the first illegal frame exactly when all complete frames have the right
magic and version, or a response before the first one without has failed. -/
theorem closedAtIllegal_iff (g : UInt32 → Bytes → σ → Bytes × σ) (s : σ) (chunks : List Bytes)
    (sends : List Bool) :
    ClosedAtIllegal (fun id p s => some (g id p s)) s chunks sends ↔
      (∀ f ∈ cutFrames chunks.flatten, LegalHeader f) ∨
        false ∈ sends.take (legalRequests chunks.flatten).length := by
  have hcondition : ((∀ f ∈ cutFrames chunks.flatten, LegalHeader f) ∨
      false ∈ sends.take (legalRequests chunks.flatten).length) ↔
      ¬((∃ f ∈ cutFrames chunks.flatten, ¬LegalHeader f) ∧
        false ∉ sends.take (legalRequests chunks.flatten).length) := by
    rw [not_and_or, not_not]
    push Not
    rfl
  rw [hcondition]
  constructor
  · rintro hclosed ⟨⟨f, hf, hillegal⟩, hsent⟩
    obtain ⟨front, hfront⟩ := throughIllegal_isSome hf hillegal
    exact (hclosed front hfront).1 ((exit_throughIllegal g s hfront sends).mpr ⟨⟨f, hf, hillegal⟩, hsent⟩)
  · intro hnot front hfront
    have hleft := mt (exit_throughIllegal g s hfront sends).mp hnot
    obtain ⟨rest, hrest⟩ := throughIllegal_prefix _ front hfront
    refine ⟨hleft, (handleClient_chunks _ s [] chunks sends).trans ?_⟩
    rw [List.nil_append, ← hrest]
    exact serveBytes_append_of_left _ s front rest sends hleft

/-- Nothing is executed after an illegal frame: the requests before the first one are dispatched and no
others, and the connection is closed there. -/
structure StopsAtIllegal (h : BinaryHandler σ) (s : σ) (chunks : List Bytes) (sends : List Bool) : Prop where
  dispatched : (handleClient h s [] (chunks.map .data) sends).dispatched
    = upToFailure sends (legalRequests chunks.flatten)
  closed : ClosedAtIllegal h s chunks sends

/-- Nothing is executed after an illegal frame, and the connection is closed there, exactly when every
complete frame has the right magic and version, or a response before the first one without could not be
sent. -/
theorem dispatched_iff (g : UInt32 → Bytes → σ → Bytes × σ) (s : σ) (chunks : List Bytes)
    (sends : List Bool) :
    StopsAtIllegal (fun id p s => some (g id p s)) s chunks sends ↔
      (∀ f ∈ cutFrames chunks.flatten, LegalHeader f) ∨
        false ∈ sends.take (legalRequests chunks.flatten).length := by
  refine ⟨fun h => (closedAtIllegal_iff g s chunks sends).mp h.closed, fun h =>
    ⟨(dispatched_legal_iff g s chunks sends).mpr (h.imp_left fun hall f hf => ?_),
      (closedAtIllegal_iff g s chunks sends).mpr h⟩⟩
  -- all frames are legal, so nothing is left behind the legal ones
  have hnone : (cutFrames chunks.flatten).dropWhile (fun f => LegalHeader f) = [] :=
    List.dropWhile_eq_nil_iff.mpr fun f hf => by simpa using hall f hf
  rw [hnone] at hf
  exact absurd hf List.not_mem_nil

/-- A frame with magic 0 and a legal frame behind it: the second is dispatched. -/
theorem not_dispatched_legal_only :
    ¬∀ (g : UInt32 → Bytes → ℕ → Bytes × ℕ) (s : ℕ) (chunks : List Bytes) (sends : List Bool),
      StopsAtIllegal (fun id p s => some (g id p s)) s chunks sends := by
  intro h
  have hbad : IsFrame [0, 0, 0, 10, 0, 0x01, 0, 0, 0, 1] := ⟨by decide, by decide⟩
  have hgood : IsFrame [0, 0, 0, 11, 0x4C, 0x01, 0, 0, 0, 2, 0x04] := ⟨by decide, by decide⟩
  have hcut : cutFrames ([0, 0, 0, 10, 0, 0x01, 0, 0, 0, 1]
      ++ ([0, 0, 0, 11, 0x4C, 0x01, 0, 0, 0, 2, 0x04] ++ []))
        = [[0, 0, 0, 10, 0, 0x01, 0, 0, 0, 1], [0, 0, 0, 11, 0x4C, 0x01, 0, 0, 0, 2, 0x04]] := by
    rw [cutFrames_append hbad, cutFrames_append hgood, cutFrames_nil]
  have hall := (h (fun _ _ n => ([ST_OK], n + 1)) 0
    [[0, 0, 0, 10, 0, 0x01, 0, 0, 0, 1], [0, 0, 0, 11, 0x4C, 0x01, 0, 0, 0, 2, 0x04]] []).dispatched
  have hserve := dispatched_serveBytes (fun _ _ n => ([ST_OK], n + 1)) 0
    ([0, 0, 0, 10, 0, 0x01, 0, 0, 0, 1] ++ ([0, 0, 0, 11, 0x4C, 0x01, 0, 0, 0, 2, 0x04] ++ [])) []
  have hchunks := handleClient_chunks (fun _ _ n => some (([ST_OK] : Bytes), n + 1)) 0 []
    [[0, 0, 0, 10, 0, 0x01, 0, 0, 0, 1], [0, 0, 0, 11, 0x4C, 0x01, 0, 0, 0, 2, 0x04]] []
  rw [Session.dispatched, hchunks.calls] at hall
  have hnone := hserve.symm.trans hall
  rw [legalRequests, List.flatten_cons, List.flatten_cons, List.flatten_nil, hcut] at hnone
  exact absurd hnone (by decide)

end LeKV
