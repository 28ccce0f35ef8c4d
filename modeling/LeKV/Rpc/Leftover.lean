import LeKV.Rpc.Server

/-!
# Bytes in front of a request

A frame whose length field is too small leaves the rest of its bytes in the stream, in front of the
next request. `Skipped` describes the leftovers that do no harm: frames that `TryDecode` rejects, up
to the last byte. Behind any other leftover some request is not decoded as it was sent
(`exists_not_decoded`).
-/

namespace LeKV

open Bytes BinaryProtocol

variable {σ : Type}

/-- Well-formed frames end to end, each of them rejected by `TryDecode`. -/
inductive Skipped : Bytes → Prop where
  | nil : Skipped []
  | frame {f rest : Bytes} {consumed : ℕ} (hf : IsFrame f)
      (hdec : tryDecode f = some (.fail consumed)) (hrest : Skipped rest) : Skipped (f ++ rest)

/-- Skipped bytes leave no trace. -/
theorem Skipped.serveBytes {l : Bytes} (hl : Skipped l) (h : BinaryHandler σ) (s : σ) (rest : Bytes)
    (sends : List Bool) :
    (LeKV.serveBytes h s (l ++ rest) sends).Agrees (LeKV.serveBytes h s rest sends) := by
  induction hl with
  | nil => exact .refl _
  | @frame f _ _ hf hdec _ ih =>
    rw [List.append_assoc]
    exact (serveBytes_rejected h s hf _ sends hdec).trans ih

/-- The first request decoded on a connection that starts with the bytes of a request is that
request. -/
theorem decoded_request (h : BinaryHandler σ) (s : σ) {next : UInt32 × Bytes}
    (hfit : 10 + next.2.length < 2 ^ 32) (sends : List Bool) :
    (serveBytes h s (encodeCustomRequest next.1 next.2) sends).decoded.head? = some next := by
  rw [encodeCustomRequest_eq next.1 hfit, ← List.append_nil (frame _ _ _)]
  obtain ⟨l, heq, -⟩ := decoded_accepted h s (isFrame_frame next.1 hfit) [] sends
    (tryDecode_frame next.1 hfit)
  rw [heq]
  rfl

/-- The request `next` is not the first one decoded behind the bytes `l`, whatever the handler. -/
def NotDecoded (σ : Type) (l : Bytes) (next : UInt32 × Bytes) : Prop :=
  ∀ (h : BinaryHandler σ) (s : σ) (sends : List Bool),
    (serveBytes h s (l ++ encodeCustomRequest next.1 next.2) sends).decoded.head? ≠ some next

/-- A request is not decoded from fewer bytes than it has. -/
theorem head_decoded_ne (h : BinaryHandler σ) (s : σ) (sends : List Bool) {bytes : Bytes}
    {next : UInt32 × Bytes} (hlt : bytes.length < 10 + next.2.length) :
    (serveBytes h s bytes sends).decoded.head? ≠ some next := by
  intro heq
  have hle := length_of_mem_decoded h s bytes sends (List.mem_of_mem_head? heq)
  omega

/-- How a request can fail to be the first one decoded: the first complete frame, if there is one,
holds another request, or it is rejected and the request does not come first after it either. -/
theorem head_decoded_ne_of_round (h : BinaryHandler σ) (s : σ) (sends : List Bool) {bytes : Bytes}
    {next : UInt32 × Bytes}
    (hround : 10 ≤ frameLength bytes → frameLength bytes ≤ bytes.length →
      (∀ consumed reqId payload, tryDecode (bytes.take (frameLength bytes))
        = some (.ok consumed reqId payload) → (reqId, payload) ≠ next) ∧
      ∀ consumed, tryDecode (bytes.take (frameLength bytes)) = some (.fail consumed) →
        (serveBytes h s (bytes.drop (frameLength bytes)) sends).decoded.head? ≠ some next) :
    (serveBytes h s bytes sends).decoded.head? ≠ some next := by
  have hnil : (none : Option (UInt32 × Bytes)) ≠ some next := Option.some_ne_none next |>.symm
  rcases Nat.lt_or_ge bytes.length 4 with hshort | hfour
  · rw [serveBytes_short hshort]
    exact hnil
  rcases Nat.lt_or_ge (frameLength bytes) 10 with hbad | hten
  · obtain ⟨b, heq⟩ := serveBytes_badLength (h := h) (s := s) hfour hbad sends
    rw [heq]
    exact hnil
  rcases Nat.lt_or_ge bytes.length (frameLength bytes) with hinc | hle
  · rw [serveBytes_incomplete hfour hten hinc]
    exact hnil
  obtain ⟨hok, hfail⟩ := hround hten hle
  have hf := isFrame_take hten hle
  rw [← List.take_append_drop (frameLength bytes) bytes]
  rcases hdec : tryDecode (bytes.take (frameLength bytes)) with _ | ⟨c⟩ | ⟨c, reqId, payload⟩
  · rw [decoded_none h s hf _ sends hdec]
    exact hnil
  · rw [(serveBytes_rejected h s hf _ sends hdec).decoded]
    exact hfail c hdec
  · obtain ⟨l, heq, -⟩ := decoded_accepted h s hf (bytes.drop (frameLength bytes)) sends hdec
    rw [heq]
    exact fun hsome => hok c reqId payload hdec (Option.some.inj hsome)

theorem length_encodeCustomRequest (reqId : UInt32) (payload : Bytes) :
    (encodeCustomRequest reqId payload).length = 10 + payload.length :=
  length_frame _ _ _

/-- Up to three bytes get in the way of the next length field: the frame cut off has a byte of that
field where its magic should be. -/
theorem notDecoded_of_short {l : Bytes} (hne : l ≠ []) (hshort : l.length < 4) :
    NotDecoded σ l (0, []) := by
  intro h s sends
  have hlen : (l ++ encodeCustomRequest 0 []).length = l.length + 10 := by
    rw [List.length_append, length_encodeCustomRequest]
    rfl
  have hmagic : (l ++ encodeCustomRequest 0 [])[4]? ≠ some MAGIC := by
    rcases l with _ | ⟨a, _ | ⟨b, _ | ⟨c, _ | ⟨d, l⟩⟩⟩⟩
    · exact absurd rfl hne
    · show (encodeCustomRequest 0 [])[3]? ≠ some MAGIC
      decide
    · show (encodeCustomRequest 0 [])[2]? ≠ some MAGIC
      decide
    · show (encodeCustomRequest 0 [])[1]? ≠ some MAGIC
      decide
    · simp only [List.length_cons] at hshort
      omega
  refine head_decoded_ne_of_round h s sends fun hten hle => ⟨?_, ?_⟩
  · intro consumed reqId payload hdec
    have hfour := (accepted_of_tryDecode hdec).magic
    rw [List.getElem?_take_of_lt (by omega)] at hfour
    exact absurd hfour hmagic
  · intro consumed hdec
    apply head_decoded_ne h s sends
    rw [List.length_drop, hlen, List.length_nil]
    omega

/-- A frame that reaches into the next request swallows it, as long as the sizes differ. -/
theorem notDecoded_of_incomplete {l : Bytes} (hfour : 4 ≤ l.length)
    (hinc : l.length < frameLength l) {next : UInt32 × Bytes}
    (hsize : 10 + next.2.length ≠ frameLength l) : NotDecoded σ l next := by
  intro h s sends
  have hlen : (l ++ encodeCustomRequest next.1 next.2).length = l.length + (10 + next.2.length) := by
    rw [List.length_append, length_encodeCustomRequest]
  have hfront : frameLength (l ++ encodeCustomRequest next.1 next.2) = frameLength l :=
    frameLength_append _ hfour
  refine head_decoded_ne_of_round h s sends fun hten hle => ⟨?_, ?_⟩
  · rintro consumed reqId payload hdec rfl
    have hpay := (isFrame_take hten hle).length_payload hdec
    rw [List.length_take_of_le hle, hfront] at hpay
    exact hsize hpay
  · intro consumed hdec
    apply head_decoded_ne h s sends
    rw [List.length_drop, hlen, hfront]
    omega

/-- Behind bytes that are not skipped, some request is not decoded as it was sent. -/
theorem exists_not_decoded {l : Bytes} (hl : ¬Skipped l) :
    ∃ next : UInt32 × Bytes, 10 + next.2.length < 2 ^ 32 ∧ NotDecoded σ l next := by
  generalize hn : l.length = n
  induction n using Nat.strong_induction_on generalizing l with
  | _ n ih =>
    have hne : l ≠ [] := fun hnil => hl (hnil ▸ .nil)
    rcases Nat.lt_or_ge l.length 4 with hshort | hfour
    · exact ⟨(0, []), by norm_num, notDecoded_of_short hne hshort⟩
    rcases Nat.lt_or_ge l.length (frameLength l) with hinc | hle
    · -- one of two sizes is not the size of the frame
      by_cases hsize : frameLength l = 10
      · exact ⟨(0, [0]), by norm_num, notDecoded_of_incomplete hfour hinc (by simp [hsize])⟩
      · exact ⟨(0, []), by norm_num,
          notDecoded_of_incomplete hfour hinc fun h => hsize (by simpa using h.symm)⟩
    have hsplit := List.take_append_drop (frameLength l) l
    have hfront : ∀ next : UInt32 × Bytes,
        frameLength (l ++ encodeCustomRequest next.1 next.2) = frameLength l :=
      fun next => frameLength_append _ hfour
    rcases Nat.lt_or_ge (frameLength l) 10 with hbad | hten
    · refine ⟨(0, []), by norm_num, fun h s sends => ?_⟩
      apply head_decoded_ne_of_round h s sends
      intro hten
      rw [hfront] at hten
      omega
    have hf := isFrame_take hten hle
    rcases hdec : tryDecode (l.take (frameLength l)) with _ | ⟨c⟩ | ⟨c, reqId, payload⟩
    · refine ⟨(0, []), by norm_num, fun h s sends => ?_⟩
      rw [← hsplit, List.append_assoc, decoded_none h s hf _ sends hdec]
      exact (Option.some_ne_none _).symm
    · -- the frame is skipped: what follows it decides
      have hrest : ¬Skipped (l.drop (frameLength l)) := fun hrest =>
        hl (hsplit ▸ .frame hf hdec hrest)
      obtain ⟨next, hfit, hnext⟩ := ih _ (by rw [List.length_drop]; omega) hrest rfl
      refine ⟨next, hfit, fun h s sends => ?_⟩
      rw [← hsplit, List.append_assoc, (serveBytes_rejected h s hf _ sends hdec).decoded]
      exact hnext h s sends
    · -- the frame holds a request of its own
      obtain ⟨next, hfit, hother⟩ : ∃ next : UInt32 × Bytes, 10 + next.2.length < 2 ^ 32 ∧
          (reqId, payload) ≠ next := by
        by_cases hpay : payload = []
        · exact ⟨(0, [0]), by norm_num, fun h => by simp [hpay] at h⟩
        · exact ⟨(0, []), by norm_num, fun h => hpay (congrArg Prod.snd h)⟩
      refine ⟨next, hfit, fun h s sends => ?_⟩
      obtain ⟨tail, heq, -⟩ := decoded_accepted h s hf
        (l.drop (frameLength l) ++ encodeCustomRequest next.1 next.2) sends hdec
      rw [← hsplit, List.append_assoc, heq]
      exact fun hsome => hother (Option.some.inj hsome)

end LeKV
