import LeKV.Rpc.Connection

/-!
# Requests and replies on a connection

A client that sends a request and then calls `RecvFrame` takes the frame in front of what is pending.
`Paired` says that this frame always is the whole reply to the request just sent. A reply that comes
after its call has given up stays in front of all later ones, so whether the calls are paired depends
on the lengths of the replies and on when their bytes arrive, and on nothing else: `InTime` is the
exact condition.
-/

namespace LeKV

open Bytes

/-- Each frame returned is the reply to the request before it, at that reply's place in the stream:
what was `taken` before it is what was `sent` before it. -/
def Paired : (sent taken : ℕ) → List Exchange → Prop
  | _, _, [] => True
  | sent, taken, e :: log =>
    (∀ f ∈ e.frame, f = e.reply ∧ taken = sent) ∧
      Paired (sent + e.reply.length) (taken + (e.frame.map List.length).getD 0) log

/-- The replies' lengths and the bytes that arrived during each call. Every reply is shorter than
`2 ^ 32` bytes and arrives during its call, up to the first for which this fails; of that one, as
long as its length field makes it, not all bytes ever arrive. A length field below ten blocks the
connection and counts as never arriving. -/
def InTime : List (ℕ × ℕ) → Prop
  | [] => True
  | (len, arrived) :: rest =>
    (len < 2 ^ 32 ∧ len ≤ arrived ∧ InTime rest) ∨
      len % 2 ^ 32 < 10 ∨ arrived + (rest.map Prod.snd).sum < len % 2 ^ 32

/-- The schedule an exchange took place in. -/
def Exchange.timing (e : Exchange) : ℕ × ℕ := (e.reply.length, e.arrived)

/-- What every reply satisfies: its length field is its length, narrowed to 32 bits. -/
structure IsReply (reply : Bytes) : Prop where
  frameLength_eq : frameLength reply = reply.length % 2 ^ 32
  four_le : 4 ≤ reply.length

namespace Connection

/-- A request that is sent and answered with `x.1`, and a `RecvFrame` with timeout `x.2`. -/
def exchange (c : Connection) (x : Bytes × ℤ) : Connection :=
  ((c.send.answer x.1).recvFrame x.2).2

/-- Exchanges one after another. -/
def exchanges (c : Connection) (xs : List (Bytes × ℤ)) : Connection := xs.foldl exchange c

/-- The record of one exchange. -/
def record (c : Connection) (x : Bytes × ℤ) : Exchange :=
  ⟨x.1, (c.send.answer x.1).arriving, ((c.send.answer x.1).recvFrame x.2).1⟩

/-- The records of many exchanges. -/
def records : Connection → List (Bytes × ℤ) → List Exchange
  | _, [] => []
  | c, x :: xs => c.record x :: records (c.exchange x) xs

theorem log_exchange (c : Connection) (x : Bytes × ℤ) :
    (c.exchange x).log = c.log ++ [c.record x] := by
  show (c.log ++ [_]).modifyLast _ = _
  rw [List.modifyLast_concat]
  rfl

theorem log_exchanges (c : Connection) (xs : List (Bytes × ℤ)) :
    (c.exchanges xs).log = c.log ++ c.records xs := by
  induction xs generalizing c with
  | nil => exact (List.append_nil _).symm
  | cons x xs ih =>
    have htail := ih (c.exchange x)
    rw [log_exchange, List.append_assoc] at htail
    exact htail

/-- One exchange, seen from the pending bytes before it: the call takes the frame in front of them
and the new reply, if it is there in time. -/
theorem exchange_spec (c : Connection) (x : Bytes × ℤ) :
    let bytes := c.pending ++ x.1
    let here := c.here.length + (c.record x).arrived
    if 10 ≤ frameLength bytes ∧ frameLength bytes ≤ here then
      (c.record x).frame = some (bytes.take (frameLength bytes)) ∧
        (c.exchange x).pending = bytes.drop (frameLength bytes)
    else (c.record x).frame = none ∧ (c.exchange x).pending = bytes ∧
      (c.exchange x).here.length = here := by
  intro bytes here
  have hpending : (c.send.answer x.1).pending = bytes := pending_answer _ _
  have hready : (c.send.answer x.1).Ready
      ↔ 10 ≤ frameLength bytes ∧ frameLength bytes ≤ here := by
    unfold Ready
    rw [hpending]
    rfl
  obtain ⟨hframe, hrest, hhere⟩ := (c.send.answer x.1).recvFrame_spec x.2
  rw [hpending] at hframe hrest
  split_ifs with h
  · exact ⟨hframe.trans (if_pos (hready.mpr h)), hrest.trans (if_pos (hready.mpr h))⟩
  · have hnot := mt hready.mp h
    exact ⟨hframe.trans (if_neg hnot), hrest.trans (if_neg hnot), hhere.trans (if_neg hnot)⟩

/-- The bytes that arrive during exchanges. -/
def arrivedIn (log : List Exchange) : ℕ := ((log.map Exchange.timing).map Prod.snd).sum

theorem arrivedIn_cons (e : Exchange) (log : List Exchange) :
    arrivedIn (e :: log) = e.arrived + arrivedIn log := by
  rw [arrivedIn, List.map_cons, List.map_cons, List.sum_cons]
  rfl

/-- With bytes of an earlier reply in front, the calls stay paired only if none of them returns
anything. -/
theorem paired_records_stale {c : Connection} {xs : List (Bytes × ℤ)} {sent taken : ℕ}
    (hlt : taken < sent) (hfour : 4 ≤ c.pending.length)
    (hstale : frameLength c.pending < 10 ∨ c.here.length < frameLength c.pending) :
    Paired sent taken (c.records xs) ↔ frameLength c.pending < 10 ∨
      c.here.length + arrivedIn (c.records xs) < frameLength c.pending := by
  induction xs generalizing c sent with
  | nil => exact iff_of_true trivial hstale
  | cons x xs ih =>
    have hspec := c.exchange_spec x
    have hF : frameLength (c.pending ++ x.1) = frameLength c.pending := frameLength_append _ hfour
    simp only [hF] at hspec
    rw [records, arrivedIn_cons, Paired]
    by_cases hready : 10 ≤ frameLength c.pending
        ∧ frameLength c.pending ≤ c.here.length + (c.record x).arrived
    · rw [if_pos hready] at hspec
      refine iff_of_false (fun h => ?_) (by omega)
      exact hlt.ne (h.1 _ hspec.1).2
    · rw [if_neg hready] at hspec
      obtain ⟨hframe, hpending, hhere⟩ := hspec
      have hF' : frameLength (c.exchange x).pending = frameLength c.pending := hpending ▸ hF
      have hrest := @ih (c.exchange x) (sent + (c.record x).reply.length) (by omega)
        (by rw [hpending, List.length_append]; omega) (by rw [hF', hhere]; omega)
      rw [hF', hhere] at hrest
      rw [hframe, Option.map_none, Option.getD_none, Nat.add_zero, hrest, ← Nat.add_assoc]
      simp

/-- From a connection with nothing pending, the calls are paired exactly when the replies are in
time. -/
theorem paired_records {c : Connection} {xs : List (Bytes × ℤ)} (hxs : ∀ x ∈ xs, IsReply x.1)
    (hclean : c.pending = []) (sent : ℕ) :
    Paired sent sent (c.records xs) ↔ InTime ((c.records xs).map Exchange.timing) := by
  induction xs generalizing c sent with
  | nil => exact iff_of_true trivial trivial
  | cons x xs ih =>
    have hreply := hxs x List.mem_cons_self
    have hspec := c.exchange_spec x
    have hhere : c.here.length = 0 := by
      have hle := c.length_here
      rw [hclean] at hle
      exact Nat.le_zero.mp hle
    have hlen : (c.record x).reply.length = x.1.length := rfl
    simp only [hclean, List.nil_append, hhere, Nat.zero_add] at hspec
    have hF := hreply.frameLength_eq
    have hmod := Nat.mod_le x.1.length (2 ^ 32)
    rw [records, List.map_cons, Paired, InTime, Exchange.timing, hlen]
    have hsum : (((c.exchange x).records xs).map Exchange.timing |>.map Prod.snd).sum
        = arrivedIn ((c.exchange x).records xs) := rfl
    rw [hsum]
    by_cases hready : 10 ≤ frameLength x.1 ∧ frameLength x.1 ≤ (c.record x).arrived
    · rw [if_pos hready] at hspec
      obtain ⟨hframe, hpending⟩ := hspec
      rw [hframe]
      by_cases hwhole : x.1.length < 2 ^ 32
      · -- the whole reply was taken, and the connection is as before
        have hFlen : frameLength x.1 = x.1.length := by rw [hF, Nat.mod_eq_of_lt hwhole]
        rw [hFlen, List.drop_length] at hpending
        have hrest := ih (fun y hy => hxs y (List.mem_cons_of_mem _ hy)) hpending
          (sent + x.1.length)
        rw [hFlen, List.take_length, Option.map_some, Option.getD_some, hrest]
        constructor
        · exact fun h => .inl ⟨hwhole, by omega, h.2⟩
        · rintro (h | h | h)
          · exact ⟨fun f hf => ⟨(Option.some.inj hf).symm, rfl⟩, h.2.2⟩
          · omega
          · omega
      · -- a part of the reply was taken
        refine iff_of_false (fun h => ?_) (by omega)
        have htake := congrArg List.length (h.1 _ rfl).1
        rw [List.length_take, hlen] at htake
        have hlt : x.1.length % 2 ^ 32 < 2 ^ 32 := Nat.mod_lt _ (by norm_num)
        omega
    · rw [if_neg hready] at hspec
      obtain ⟨hframe, hpending, hhere'⟩ := hspec
      have hfour := hreply.four_le
      have hrest := @paired_records_stale (c.exchange x) xs (sent + x.1.length) sent (by omega)
        (by rw [hpending]; exact hfour) (by rw [hpending, hhere']; omega)
      rw [hpending, hhere'] at hrest
      rw [hframe, Option.map_none, Option.getD_none, Nat.add_zero, hrest, ← hF]
      constructor
      · exact fun h => .inr h.2
      · rintro (h | h)
        · have hFlen : frameLength x.1 = x.1.length := by rw [hF, Nat.mod_eq_of_lt h.1]
          exact ⟨fun f hf => absurd hf (by simp), .inl (by omega)⟩
        · exact ⟨fun f hf => absurd hf (by simp), h⟩

end Connection

end LeKV
