import LeKV.Lib.Lines
import LeKV.Rpc.Stream
import LeKV.Rpc.TextProtocol

/-!
# The text server's connection loop (`rpc/rpc_server.cpp`)

`round` is one pass of the loop of `TextRpcServer::HandleClient`. The received bytes are appended as
a C string, so those behind a NUL byte of a chunk are lost (`handled_eq_pieces`). The loop is left
when `recv` fails, but not when it returns 0: after the end of the stream it runs on until the server
stops (`not_handlesThenLeaves`).
-/

namespace LeKV

namespace TextServer

open TextProtocol

variable {σ : Type}

/-- A `Handler` that works on a state. -/
abbrev Handler (σ : Type) : Type := Command → σ → Bytes × σ

/-- A connection: the buffer, the handler's state, the lines handled and the responses passed to
`send` so far, and whether the loop was left and the descriptor closed. -/
structure TextConn (σ : Type) where
  lineBuf : Bytes
  state : σ
  handled : List Bytes
  sent : List Bytes
  closed : Bool
deriving DecidableEq, Repr

/-- A connection at its start. -/
def TextConn.accepted (s : σ) : TextConn σ := ⟨[], s, [], [], false⟩

/-- `BAD_CMD` and `Invalid format`. -/
def badCommand : Bytes :=
  err [0x42, 0x41, 0x44, 0x5F, 0x43, 0x4D, 0x44]
    [0x49, 0x6E, 0x76, 0x61, 0x6C, 0x69, 0x64, 0x20, 0x66, 0x6F, 0x72, 0x6D, 0x61, 0x74]

/-- Parse one line and answer it. -/
def handleLine (h : Handler σ) (c : TextConn σ) (line : Bytes) : TextConn σ :=
  match parse line with
  | some cmd =>
    let r := h cmd c.state
    { c with state := r.2, handled := c.handled ++ [line], sent := c.sent ++ [r.1] }
  | none => { c with handled := c.handled ++ [line], sent := c.sent ++ [badCommand] }

/-- The inner loop: complete lines are taken from the buffer, at most `n` of them. -/
def handleLines (h : Handler σ) : ℕ → TextConn σ → TextConn σ
  | 0, c => c
  | n + 1, c =>
    if LF ∈ c.lineBuf then
      let pos := c.lineBuf.idxOf LF
      let line := c.lineBuf.take (pos + 1)
      handleLines h n (handleLine h { c with lineBuf := c.lineBuf.drop (pos + 1) } line)
    else c

/-- What `line_buf += buf` appends of a chunk that is followed by a NUL byte. -/
def cString (chunk : Bytes) : Bytes := chunk.takeWhile (· ≠ 0)

/-- Append received bytes and handle the lines that are complete now. Each takes at least its line
break, so the buffer's length bounds their number. -/
def receive (h : Handler σ) (c : TextConn σ) (chunk : Bytes) : TextConn σ :=
  let c := { c with lineBuf := c.lineBuf ++ cString chunk }
  handleLines h c.lineBuf.length c

/-- One pass of `while (running_)`; nothing happens after the loop was left. -/
def round (h : Handler σ) (running : Bool) (recv : Recv) (c : TextConn σ) : TextConn σ :=
  if c.closed then c
  else if running = false then { c with closed := true }
  else
    match recv with
    | .data chunk => receive h c chunk
    | .closed => receive h c []
    | .again | .error => { c with closed := true }

/-- The connection after `n` passes. -/
def afterRounds (h : Handler σ) (running : ℕ → Bool) (recvs : ℕ → Recv) (c : TextConn σ) :
    ℕ → TextConn σ
  | 0 => c
  | n + 1 => round h (running n) (recvs n) (afterRounds h running recvs c n)

/-- What `recv` returns for a stream that comes in these chunks and then ends. -/
def recvsOf (chunks : List Bytes) (i : ℕ) : Recv :=
  match chunks[i]? with
  | some chunk => .data chunk
  | none => .closed

/-- While the server runs, the lines of the stream are handled in order and once each, and the loop is
left. -/
def HandlesThenLeaves (h : Handler σ) (s : σ) (chunks : List Bytes) : Prop :=
  ∃ n, (afterRounds h (fun _ => true) (recvsOf chunks) (.accepted s) n).closed = true ∧
    (afterRounds h (fun _ => true) (recvsOf chunks) (.accepted s) n).handled
      = Lines.pieces LF chunks.flatten

/-! ## One pass -/

section Round

variable {h : Handler σ} {c : TextConn σ}

theorem handleLine_eq (h : Handler σ) (c : TextConn σ) (line : Bytes) :
    (handleLine h c line).lineBuf = c.lineBuf ∧ (handleLine h c line).handled = c.handled ++ [line] ∧
      (handleLine h c line).closed = c.closed := by
  unfold handleLine
  rcases parse line with _ | cmd
  · exact ⟨rfl, rfl, rfl⟩
  · exact ⟨rfl, rfl, rfl⟩

/-- The inner loop handles the complete lines of the buffer and keeps the unfinished one. -/
theorem handleLines_eq {n : ℕ} (hn : c.lineBuf.length ≤ n) :
    (handleLines h n c).lineBuf = (Lines.feed LF [] c.lineBuf).2 ∧
      (handleLines h n c).handled = c.handled ++ (Lines.feed LF [] c.lineBuf).1 ∧
      (handleLines h n c).closed = c.closed := by
  induction n generalizing c with
  | zero =>
    have hnil : c.lineBuf = [] := List.eq_nil_of_length_eq_zero (Nat.le_zero.mp hn)
    rw [handleLines, hnil]
    exact ⟨rfl, (List.append_nil _).symm, rfl⟩
  | succ n ih =>
    rw [handleLines]
    by_cases hlf : LF ∈ c.lineBuf
    · obtain ⟨body, rest, hbuf, hbody⟩ := List.eq_append_cons_of_mem hlf
      have hpos : c.lineBuf.idxOf LF = body.length := by
        rw [hbuf, List.idxOf_append_of_notMem hbody, List.idxOf_cons_self, Nat.add_zero]
      have hsplit : c.lineBuf = (body ++ [LF]) ++ rest := by simp [hbuf]
      have hlen : (body ++ [LF]).length = body.length + 1 := List.length_append
      have hline : c.lineBuf.take (body.length + 1) = body ++ [LF] := by
        rw [hsplit, List.take_left' hlen]
      have hrest : c.lineBuf.drop (body.length + 1) = rest := by
        rw [hsplit, List.drop_left' hlen]
      have hlen' : rest.length ≤ n := by
        have := congrArg List.length hsplit
        rw [List.length_append, hlen] at this
        omega
      simp only [if_pos hlf, hpos, hline, hrest]
      obtain ⟨hbuf', hhandled', hclosed'⟩ :=
        handleLine_eq h { c with lineBuf := rest } (body ++ [LF])
      obtain ⟨hb, hh, hc⟩ := ih (c := handleLine h { c with lineBuf := rest } (body ++ [LF]))
        (by rw [hbuf']; exact hlen')
      rw [hbuf'] at hb hh
      have hfeed : Lines.feed LF [] (body ++ LF :: rest) = _ := Lines.feed_append_cons hbody
      rw [hb, hh, hc, hhandled', hclosed', hbuf, hfeed]
      exact ⟨rfl, by simp, rfl⟩
    · rw [if_neg hlf, Lines.feed_of_notMem hlf]
      exact ⟨rfl, (List.append_nil _).symm, rfl⟩

theorem receive_eq (h : Handler σ) (c : TextConn σ) (chunk : Bytes) :
    (receive h c chunk).lineBuf = (Lines.feed LF [] (c.lineBuf ++ cString chunk)).2 ∧
      (receive h c chunk).handled
        = c.handled ++ (Lines.feed LF [] (c.lineBuf ++ cString chunk)).1 ∧
      (receive h c chunk).closed = c.closed := handleLines_eq le_rfl

/-- Received bytes continue what came before them. -/
theorem receive_feed {stream : Bytes} (hc : (c.handled, c.lineBuf) = Lines.feed LF [] stream)
    (chunk : Bytes) : ((receive h c chunk).handled, (receive h c chunk).lineBuf)
      = Lines.feed LF [] (stream ++ cString chunk) := by
  obtain ⟨hhandled, hbuf⟩ := Prod.ext_iff.mp hc
  obtain ⟨hb, hh, -⟩ := receive_eq h c chunk
  have hopen : LF ∉ (Lines.feed LF [] stream).2 := Lines.notMem_feed List.not_mem_nil
  dsimp only at hhandled hbuf
  rw [hb, hh, hbuf, hhandled, Lines.feed_nil_append hopen, Lines.feed_append]

/-- The end of the stream counts as no bytes. -/
theorem round_recvsOf {chunks : List Bytes} {i : ℕ} (hopen : c.closed = false) :
    round h true (recvsOf chunks i) c = receive h c (chunks[i]?.getD []) := by
  unfold round recvsOf
  rw [if_neg (by simp [hopen]), if_neg (by simp)]
  rcases chunks[i]? with _ | chunk
  · rfl
  · rfl

/-- Bytes, or the end of the stream, do not end the loop. -/
theorem closed_round {chunks : List Bytes} {i : ℕ} (running : Bool) :
    (round h running (recvsOf chunks i) c).closed = true ↔ c.closed = true ∨ running = false := by
  cases hclosed : c.closed with
  | true =>
    have hsame : round h running (recvsOf chunks i) c = c := if_pos hclosed
    exact iff_of_true ((congrArg TextConn.closed hsame).trans hclosed) (.inl rfl)
  | false =>
    cases running with
    | true => simp [round_recvsOf hclosed, (receive_eq h c _).2.2, hclosed]
    | false => simp [round, hclosed]

end Round

/-! ## All passes -/

section Rounds

variable (h : Handler σ) (s : σ) (chunks : List Bytes)

/-- The loop is left only when the server stops. -/
theorem closed_afterRounds (running : ℕ → Bool) (n : ℕ) :
    (afterRounds h running (recvsOf chunks) (.accepted s) n).closed = true ↔
      ∃ i < n, running i = false := by
  induction n with
  | zero => simp [afterRounds, TextConn.accepted]
  | succ n ih =>
    rw [afterRounds, closed_round, ih]
    constructor
    · rintro (⟨i, hi, hstop⟩ | hstop)
      · exact ⟨i, Nat.lt_succ_of_lt hi, hstop⟩
      · exact ⟨n, Nat.lt_succ_self n, hstop⟩
    · rintro ⟨i, hi, hstop⟩
      rcases Nat.lt_succ_iff_lt_or_eq.mp hi with hlt | rfl
      · exact .inl ⟨i, hlt, hstop⟩
      · exact .inr hstop

theorem closed_afterRounds_running (n : ℕ) :
    (afterRounds h (fun _ => true) (recvsOf chunks) (.accepted s) n).closed = false := by
  rw [← Bool.not_eq_true, closed_afterRounds]
  rintro ⟨i, -, hstop⟩
  exact absurd hstop (by simp)

/-- After `n` passes the lines of the first `n` chunks are handled, each chunk up to its first NUL
byte. -/
theorem afterRounds_eq (n : ℕ) :
    ((afterRounds h (fun _ => true) (recvsOf chunks) (.accepted s) n).handled,
      (afterRounds h (fun _ => true) (recvsOf chunks) (.accepted s) n).lineBuf)
      = Lines.feed LF [] ((chunks.take n).map cString).flatten := by
  induction n with
  | zero => rfl
  | succ n ih =>
    have hopen := closed_afterRounds_running h s chunks n
    have hnext : cString (chunks[n]?.getD []) = (chunks[n]?.toList.map cString).flatten := by
      rcases chunks[n]? with _ | chunk
      · rfl
      · exact (List.append_nil _).symm
    rw [afterRounds, round_recvsOf hopen, receive_feed ih, hnext, List.take_add_one, List.map_append,
      List.flatten_append]

/-- Once all chunks are received, all their lines are handled, each chunk up to its first NUL byte. -/
theorem handled_eq_pieces {n : ℕ} (hn : chunks.length ≤ n) :
    (afterRounds h (fun _ => true) (recvsOf chunks) (.accepted s) n).handled
      = Lines.pieces LF (chunks.map cString).flatten := by
  have heq := afterRounds_eq h s chunks n
  rw [List.take_of_length_le hn] at heq
  exact congrArg Prod.fst heq

/-- A stream without NUL bytes is handled line by line, however it is cut. -/
theorem handled_eq_pieces_of_notMem {n : ℕ} (hn : chunks.length ≤ n)
    (hnul : ∀ chunk ∈ chunks, 0 ∉ chunk) :
    (afterRounds h (fun _ => true) (recvsOf chunks) (.accepted s) n).handled
      = Lines.pieces LF chunks.flatten := by
  have hwhole : chunks.map cString = chunks := by
    rw [List.map_congr_left (g := id), List.map_id]
    intro chunk hmem
    refine List.takeWhile_eq_self_iff.mpr fun b hb => ?_
    rw [decide_eq_true_eq]
    rintro rfl
    exact hnul chunk hmem hb
  rw [handled_eq_pieces h s chunks hn, hwhole]

/-- Whatever the stream and its cutting, the loop is not left while the server runs: `recv` returning
0 counts as no bytes. Only `Stop` ends it. -/
theorem not_handlesThenLeaves :
    ¬HandlesThenLeaves h s chunks ∧
      ∀ running n, (afterRounds h running (recvsOf chunks) (.accepted s) n).closed = true ↔
        ∃ i < n, running i = false := by
  refine ⟨?_, closed_afterRounds h s chunks⟩
  rintro ⟨n, hclosed, -⟩
  rw [closed_afterRounds_running] at hclosed
  exact absurd hclosed (by simp)

end Rounds

/-- One line and the end of the stream. The same line with a NUL byte in it is not handled either. -/
theorem not_handlesThenLeaves_line :
    ¬HandlesThenLeaves (fun _ s => ([], s)) () [[0x67, LF]] ∧
      (∀ n, (afterRounds (fun _ s => ([], s)) (fun _ => true) (recvsOf [[0x67, 0x00, LF]])
        (.accepted ()) (n + 1)).handled = []) := by
  constructor
  · rintro ⟨n, hclosed, -⟩
    rw [closed_afterRounds_running] at hclosed
    exact absurd hclosed (by simp)
  · intro n
    rw [handled_eq_pieces _ _ _ (Nat.le_add_left 1 n)]
    decide

end TextServer

end LeKV
