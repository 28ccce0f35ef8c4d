import LeKV.Rpc.Stream
import Mathlib.Data.List.ModifyLast

/-!
# A management connection (`rpc/rpc_client.h`)

An `RpcClient` and what lies between it and the DataNode: the receive buffer `buf_`, the bytes in the
socket, and the replies under way. Two schedules say what the network does: the outcome of each
`Send`, and how many bytes reach the socket before each `RecvFrame` returns or gives up. A schedule
that has run out stands for a network without failures or delays. How the bytes of one `RecvFrame`
are cut into chunks does not matter (`recvFrame_eq`).

`pending` is all that was answered and not yet taken. `RecvFrame` takes the frame in front of it, if
enough bytes are there, whatever request this frame answers.
-/

namespace LeKV

open Bytes BinaryProtocol

/-- What `Send` returns, and whether the request reaches the DataNode. -/
structure SendOutcome where
  ok : Bool
  executed : Bool
deriving DecidableEq, Repr

/-- The record of one request: the DataNode's reply, the bytes that reached the socket during the
`RecvFrame` after it, and the frame this call returned. -/
structure Exchange where
  reply : Bytes
  arrived : ℕ
  frame : Option Bytes
deriving DecidableEq, Repr

/-- An `RpcClient` (`connected` is `fd_ >= 0`) and its side of the network. -/
structure Connection where
  connected : Bool
  buf : Bytes
  socket : Bytes
  wire : Bytes
  sends : List SendOutcome
  arrivals : List ℕ
  log : List Exchange
deriving DecidableEq, Repr

namespace Connection

/-- A connection on which nothing has happened yet and nothing will fail. -/
def fresh : Connection := ⟨true, [], [], [], [], [], []⟩

/-- What has reached the client and was not yet taken. -/
def here (c : Connection) : Bytes := c.buf ++ c.socket

/-- What the DataNode has answered and the client has not yet taken. -/
def pending (c : Connection) : Bytes := c.here ++ c.wire

/-- The outcome of the next `Send`. -/
def sendOutcome (c : Connection) : SendOutcome := c.sends.headD ⟨true, true⟩

/-- `RpcClient::Send`, as far as the client sees it. -/
def send (c : Connection) : Connection := { c with sends := c.sends.tail }

/-- The DataNode answers a request. -/
def answer (c : Connection) (reply : Bytes) : Connection :=
  { c with wire := c.wire ++ reply, log := c.log ++ [⟨reply, 0, none⟩] }

/-- The number of bytes that reach the socket during the next `RecvFrame`. -/
def arriving (c : Connection) : ℕ := min (c.arrivals.headD c.wire.length) c.wire.length

/-- The bytes in the socket by the end of the next `RecvFrame`. -/
def arrivedSocket (c : Connection) : Bytes := c.socket ++ c.wire.take c.arriving

/-- `RpcClient::RecvFrame`. -/
def recvFrame (c : Connection) (timeoutMs : ℤ) : Option Bytes × Connection :=
  let chunks := if c.arrivedSocket = [] then [] else [c.arrivedSocket]
  let result := LeKV.recvFrame timeoutMs c.buf (chunks.map .data)
  (result.1,
    { c with
      buf := result.2.1
      socket := Recv.bytes result.2.2
      wire := c.wire.drop c.arriving
      arrivals := c.arrivals.tail
      log := c.log.modifyLast fun e => { e with arrived := c.arriving, frame := result.1 } })

/-! ## What is there and what is pending -/

@[simp] theorem pending_send (c : Connection) : c.send.pending = c.pending := rfl

@[simp] theorem here_answer (c : Connection) (reply : Bytes) : (c.answer reply).here = c.here := rfl

@[simp] theorem pending_answer (c : Connection) (reply : Bytes) :
    (c.answer reply).pending = c.pending ++ reply := by
  show c.here ++ (c.wire ++ reply) = c.here ++ c.wire ++ reply
  rw [List.append_assoc]

theorem length_here (c : Connection) : c.here.length ≤ c.pending.length := by
  rw [pending, List.length_append]
  exact Nat.le_add_right _ _

theorem arriving_le (c : Connection) : c.arriving ≤ c.wire.length := min_le_right _ _

/-- A frame is complete in the first part of some bytes exactly when the first part reaches its
end. -/
theorem frontFrame_iff (a b : Bytes) :
    FrontFrame a ↔ 10 ≤ frameLength (a ++ b) ∧ frameLength (a ++ b) ≤ a.length := by
  rcases Nat.lt_or_ge a.length 4 with hshort | hfour
  · refine iff_of_false (fun h => ?_) fun h => ?_
    · have hle := h.1.trans h.2
      omega
    · have hle := h.1.trans h.2
      omega
  · rw [frameLength_append b hfour, FrontFrame]

/-- Whether the next `RecvFrame` returns a frame. -/
def Ready (c : Connection) : Prop :=
  10 ≤ frameLength c.pending ∧ frameLength c.pending ≤ c.here.length + c.arriving

instance (c : Connection) : Decidable c.Ready := inferInstanceAs (Decidable (_ ∧ _))

/-- `RecvFrame` takes the frame in front of the pending bytes when it is there in time; otherwise
nothing is lost. -/
theorem recvFrame_spec (c : Connection) (timeoutMs : ℤ) :
    (c.recvFrame timeoutMs).1
        = (if c.Ready then some (c.pending.take (frameLength c.pending)) else none) ∧
      (c.recvFrame timeoutMs).2.pending
        = (if c.Ready then c.pending.drop (frameLength c.pending) else c.pending) ∧
      (c.recvFrame timeoutMs).2.here.length
        = (if c.Ready then c.here.length + c.arriving - frameLength c.pending
          else c.here.length + c.arriving) := by
  obtain ⟨b, rest, hrecv, hb⟩ := recvFrame_eq timeoutMs c.buf
    (if c.arrivedSocket = [] then [] else [c.arrivedSocket])
  have hflat : (if c.arrivedSocket = [] then [] else [c.arrivedSocket]).flatten
      = c.arrivedSocket := by
    split_ifs with hnil
    · rw [hnil, List.flatten_nil]
    · rw [List.flatten_singleton]
  rw [hflat] at hrecv hb
  -- the bytes that are there in time are the front of the pending ones
  have hfront : c.pending = (c.buf ++ c.arrivedSocket) ++ c.wire.drop c.arriving := by
    rw [pending, here, arrivedSocket]
    simp only [List.append_assoc, List.take_append_drop]
  have hlen : (c.buf ++ c.arrivedSocket).length = c.here.length + c.arriving := by
    have hle := c.arriving_le
    simp only [arrivedSocket, here, List.length_append, List.length_take_of_le hle]
    omega
  have hready : FrontFrame (c.buf ++ c.arrivedSocket) ↔ c.Ready := by
    rw [frontFrame_iff _ (c.wire.drop c.arriving), ← hfront, hlen, Ready]
  have hhere : (c.recvFrame timeoutMs).2.here = b ++ rest.flatten := by
    simp only [recvFrame, here, hrecv, Recv.bytes_data]
  have hpending : (c.recvFrame timeoutMs).2.pending
      = (b ++ rest.flatten) ++ c.wire.drop c.arriving := by
    rw [pending, hhere]
    rfl
  have hresult : (c.recvFrame timeoutMs).1 = if FrontFrame (c.buf ++ c.arrivedSocket) then
      some ((c.buf ++ c.arrivedSocket).take (frameLength (c.buf ++ c.arrivedSocket))) else none :=
    congrArg Prod.fst hrecv
  rw [hresult, hpending, hhere, hb]
  by_cases h : c.Ready
  · have hfour : 4 ≤ (c.buf ++ c.arrivedSocket).length := by
      have hle := h.1.trans h.2
      omega
    have hF : frameLength (c.buf ++ c.arrivedSocket) = frameLength c.pending := by
      rw [hfront, frameLength_append _ hfour]
    have hle : frameLength c.pending ≤ (c.buf ++ c.arrivedSocket).length := hlen ▸ h.2
    have htake : ∀ n ≤ (c.buf ++ c.arrivedSocket).length,
        c.pending.take n = (c.buf ++ c.arrivedSocket).take n := by
      intro n hn
      rw [hfront, List.take_append_of_le_length hn]
    have hdrop : ∀ n ≤ (c.buf ++ c.arrivedSocket).length, c.pending.drop n
        = (c.buf ++ c.arrivedSocket).drop n ++ c.wire.drop c.arriving := by
      intro n hn
      rw [hfront, List.drop_append_of_le_length hn]
    simp only [if_pos h, if_pos (hready.mpr h), hF, htake _ hle, hdrop _ hle, List.length_drop,
      hlen, and_self]
  · simp only [if_neg h, if_neg (mt hready.mp h), ← hfront, hlen, and_self]

section Outcomes

variable {c : Connection} {timeoutMs : ℤ}

theorem recvFrame_of_ready (h : c.Ready) :
    (c.recvFrame timeoutMs).1 = some (c.pending.take (frameLength c.pending)) ∧
      (c.recvFrame timeoutMs).2.pending = c.pending.drop (frameLength c.pending) := by
  have hspec := c.recvFrame_spec timeoutMs
  rw [if_pos h, if_pos h] at hspec
  exact ⟨hspec.1, hspec.2.1⟩

theorem recvFrame_of_not_ready (h : ¬c.Ready) :
    (c.recvFrame timeoutMs).1 = none ∧ (c.recvFrame timeoutMs).2.pending = c.pending := by
  have hspec := c.recvFrame_spec timeoutMs
  rw [if_neg h, if_neg h] at hspec
  exact ⟨hspec.1, hspec.2.1⟩

end Outcomes

@[simp] theorem connected_recvFrame (c : Connection) (timeoutMs : ℤ) :
    (c.recvFrame timeoutMs).2.connected = c.connected := rfl

@[simp] theorem sends_recvFrame (c : Connection) (timeoutMs : ℤ) :
    (c.recvFrame timeoutMs).2.sends = c.sends := rfl

@[simp] theorem arrivals_recvFrame (c : Connection) (timeoutMs : ℤ) :
    (c.recvFrame timeoutMs).2.arrivals = c.arrivals.tail := rfl

end Connection

end LeKV
