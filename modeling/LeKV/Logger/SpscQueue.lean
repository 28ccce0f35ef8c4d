import LeKV.Lib.ByteString
import LeKV.Lib.RingBuffer

/-!
# The logger's ring buffer (`logger/spsc_queue.cpp`)

One producer writes whole regions, one consumer reads them. `write_pos_` and `read_pos_` count bytes
in `size_t` and wrap; `mask_` maps them into the buffer. A pointer into the buffer is its offset, and
`none` is `nullptr`. `spsc_fifo` says that the bytes come out in the order in which they went in, and
that no write touches an unread byte.
-/

namespace LeKV

/-- `SpscQueue`. -/
structure SpscQueue where
  writePos : UInt64
  readPos : UInt64
  capacity : UInt64
  mask : UInt64
  buffer : Bytes
deriving DecidableEq, Repr

namespace SpscQueue

/-! ## The producer's interface -/

/-- `prepare_write`. -/
def prepareWrite (q : SpscQueue) (len : UInt64) : Option UInt64 :=
  if len = 0 then some (q.writePos &&& q.mask)
  else
    let used := q.writePos - q.readPos
    if q.capacity - used - 1 < len then none
    else
      let pos := q.writePos &&& q.mask
      let toEnd := q.capacity - pos
      if toEnd < len then none else some pos

/-- `commit_write`. -/
def commitWrite (q : SpscQueue) (len : UInt64) : SpscQueue :=
  { q with writePos := q.writePos + len }

/-- `writable_bytes`. -/
def writableBytes (q : SpscQueue) : UInt64 :=
  let freeTotal := q.capacity - (q.writePos - q.readPos) - 1
  let pos := q.writePos &&& q.mask
  let toEnd := q.capacity - pos
  min freeTotal toEnd

/-- What the producer does with a region: it copies `data` to it. -/
def fill (q : SpscQueue) (pos : UInt64) (data : Bytes) : SpscQueue :=
  { q with buffer := Ring.splice q.buffer pos.toNat data }

/-! ## The consumer's interface -/

/-- `peek`. -/
def peek (q : SpscQueue) : Option UInt64 :=
  if q.readPos = q.writePos then none else some (q.readPos &&& q.mask)

/-- `readable_bytes`. -/
def readableBytes (q : SpscQueue) : UInt64 :=
  let readableTotal := q.writePos - q.readPos
  if readableTotal = 0 then 0
  else
    let pos := q.readPos &&& q.mask
    let toEnd := q.capacity - pos
    min readableTotal toEnd

/-- `consume`. -/
def consume (q : SpscQueue) (len : UInt64) : SpscQueue := { q with readPos := q.readPos + len }

/-- `empty`. -/
def empty (q : SpscQueue) : Bool := decide (q.readPos = q.writePos)

/-- The `n` bytes the consumer finds at the pointer that `peek` returns. -/
def front (q : SpscQueue) (n : UInt64) : Bytes :=
  match q.peek with
  | none => []
  | some pos => (q.buffer.drop pos.toNat).take n.toNat

/-! ## Runs -/

/-- The queue at its start: the constructor's capacity, and both counters at one value. -/
structure Fresh (q : SpscQueue) : Prop where
  capacity_eq : ∃ k, 1 ≤ k ∧ q.capacity.toNat = 2 ^ k
  mask_eq : q.mask = q.capacity - 1
  length_buffer : q.buffer.length = q.capacity.toNat
  pos_eq : q.readPos = q.writePos

/-- The queues after complete calls of the producer and the consumer, in any order, with the bytes
committed and those consumed so far. A refused write changes nothing. -/
inductive Used : SpscQueue → Bytes → Bytes → Prop where
  | init {q : SpscQueue} (h : q.Fresh) : Used q [] []
  | write {q : SpscQueue} {committed consumed data : Bytes} {len pos : UInt64}
      (h : Used q committed consumed) (hlen : data.length = len.toNat)
      (hgrant : q.prepareWrite len = some pos) :
      Used ((q.fill pos data).commitWrite len) (committed ++ data) consumed
  | consume {q : SpscQueue} {committed consumed : Bytes} {n : UInt64}
      (h : Used q committed consumed) (hn : n ≤ q.readableBytes) :
      Used (q.consume n) committed (consumed ++ q.front n)

/-- The number of unread bytes. -/
def unreadLength (q : SpscQueue) : ℕ := (q.writePos - q.readPos).toNat

/-- The place of the `i`-th unread byte in the buffer. -/
def unreadAt (q : SpscQueue) (i : ℕ) : ℕ := ((q.readPos + UInt64.ofNat i) &&& q.mask).toNat

/-- The unread bytes, in order. -/
def unread (q : SpscQueue) : Bytes :=
  (List.range q.unreadLength).filterMap fun i => q.buffer[q.unreadAt i]?

/-! ## The invariant -/

theorem toNat_min (a b : UInt64) : (min a b).toNat = min a.toNat b.toNat := by
  show (if a ≤ b then a else b).toNat = _
  split_ifs with h
  · exact (Nat.min_eq_left (UInt64.le_iff_toNat_le.mp h)).symm
  · rw [UInt64.le_iff_toNat_le, Nat.not_le] at h
    exact (Nat.min_eq_right h.le).symm

theorem filterMap_range_getElem? {α : Type*} (l : List α) :
    ((List.range l.length).filterMap fun i => l[i]?) = l := by
  induction l with
  | nil => rfl
  | cons a l ih =>
    rw [List.length_cons, List.range_succ_eq_map, List.filterMap_cons, List.filterMap_map]
    exact congrArg (a :: ·) ih

/-- The queue of `2 ^ k` bytes holds what was committed and is not consumed yet. -/
structure Holds (q : SpscQueue) (k : ℕ) (committed consumed : Bytes) : Prop where
  capacity_eq : q.capacity.toNat = 2 ^ k
  mask_eq : q.mask.toNat = 2 ^ k - 1
  length_buffer : q.buffer.length = 2 ^ k
  unread_lt : q.unreadLength < 2 ^ k
  content : consumed ++ Ring.window q.buffer q.readPos.toNat q.unreadLength = committed

section Holds

variable {q : SpscQueue} {k : ℕ} {committed consumed : Bytes}

theorem Holds.capacity_lt (h : q.Holds k committed consumed) : 2 ^ k < 2 ^ 64 :=
  h.capacity_eq ▸ q.capacity.toNat_lt

/-- The buffer's size divides the range of the counters. -/
theorem Holds.mod_mod (h : q.Holds k committed consumed) (n : ℕ) : n % 2 ^ 64 % 2 ^ k = n % 2 ^ k := by
  have hk : k ≤ 64 := ((Nat.pow_lt_pow_iff_right (by norm_num)).mp h.capacity_lt).le
  exact Nat.mod_mod_of_dvd n (pow_dvd_pow 2 hk)

/-- The mask takes a counter modulo the capacity. -/
theorem Holds.toNat_and_mask (h : q.Holds k committed consumed) (x : UInt64) :
    (x &&& q.mask).toNat = x.toNat % 2 ^ k := by
  rw [UInt64.toNat_and, h.mask_eq, Nat.and_two_pow_sub_one_eq_mod]

theorem Holds.toNat_and_mask_lt (h : q.Holds k committed consumed) (x : UInt64) :
    (x &&& q.mask).toNat < 2 ^ k := by
  rw [h.toNat_and_mask]
  exact Nat.mod_lt _ (Nat.two_pow_pos k)

theorem Holds.unreadAt_eq (h : q.Holds k committed consumed) (i : ℕ) :
    q.unreadAt i = (q.readPos.toNat + i) % 2 ^ k := by
  rw [unreadAt, h.toNat_and_mask, UInt64.toNat_add, UInt64.toNat_ofNat', Nat.add_mod_mod, h.mod_mod]

/-- The next byte goes behind the unread ones. -/
theorem Holds.writePos_mod (h : q.Holds k committed consumed) :
    (q.writePos &&& q.mask).toNat = (q.readPos.toNat + q.unreadLength) % 2 ^ k := by
  have hpos : q.writePos = q.readPos + (q.writePos - q.readPos) := by
    rw [UInt64.add_comm, UInt64.sub_add_cancel]
  rw [h.toNat_and_mask]
  conv_lhs => rw [hpos]
  rw [UInt64.toNat_add, h.mod_mod, unreadLength]

/-- The unread bytes are a window of the buffer. -/
theorem Holds.unread_eq (h : q.Holds k committed consumed) :
    q.unread = Ring.window q.buffer q.readPos.toNat q.unreadLength := by
  have hle : q.unreadLength ≤ q.buffer.length := by
    rw [h.length_buffer]
    exact h.unread_lt.le
  have hlength : (Ring.window q.buffer q.readPos.toNat q.unreadLength).length = q.unreadLength :=
    Ring.length_window hle
  have helem : ∀ i ∈ List.range q.unreadLength, q.buffer[q.unreadAt i]?
      = (Ring.window q.buffer q.readPos.toNat q.unreadLength)[i]? := by
    intro i hi
    rw [Ring.getElem?_window (List.mem_range.mp hi) hle, h.unreadAt_eq, h.length_buffer]
  have hall := filterMap_range_getElem? (Ring.window q.buffer q.readPos.toNat q.unreadLength)
  rw [hlength] at hall
  rw [unread, List.filterMap_congr helem, hall]

/-! ## The calls -/

theorem Holds.toNat_free (h : q.Holds k committed consumed) :
    (q.capacity - (q.writePos - q.readPos) - 1).toNat = 2 ^ k - q.unreadLength - 1 := by
  have hlt := h.unread_lt
  have hle : q.writePos - q.readPos ≤ q.capacity := by
    rw [UInt64.le_iff_toNat_le, h.capacity_eq]
    exact hlt.le
  have hfree : (q.capacity - (q.writePos - q.readPos)).toNat = 2 ^ k - q.unreadLength := by
    rw [UInt64.toNat_sub_of_le _ _ hle, h.capacity_eq, unreadLength]
  rw [UInt64.toNat_sub_of_le _ _ (by rw [UInt64.le_iff_toNat_le, hfree]; exact Nat.sub_pos_of_lt hlt),
    hfree]
  rfl

theorem Holds.toNat_toEnd (h : q.Holds k committed consumed) (x : UInt64) :
    (q.capacity - (x &&& q.mask)).toNat = 2 ^ k - (x &&& q.mask).toNat := by
  have hle : x &&& q.mask ≤ q.capacity := by
    rw [UInt64.le_iff_toNat_le, h.capacity_eq]
    exact (h.toNat_and_mask_lt x).le
  rw [UInt64.toNat_sub_of_le _ _ hle, h.capacity_eq]

/-- When a region is granted, and where. -/
theorem Holds.prepareWrite_eq_some (h : q.Holds k committed consumed) {len pos : UInt64} :
    q.prepareWrite len = some pos ↔ pos = q.writePos &&& q.mask ∧
      q.unreadLength + len.toNat < 2 ^ k ∧ pos.toNat + len.toNat ≤ 2 ^ k := by
  have hunread := h.unread_lt
  have hpos := h.toNat_and_mask_lt q.writePos
  unfold prepareWrite
  by_cases hzero : len = 0
  · subst hzero
    rw [if_pos rfl, Option.some_inj]
    refine ⟨?_, fun hspec => hspec.1.symm⟩
    rintro rfl
    exact ⟨rfl, hunread, hpos.le⟩
  rw [if_neg hzero]
  dsimp only
  split_ifs with hfree hend
  · rw [UInt64.lt_iff_toNat_lt, h.toNat_free] at hfree
    apply iff_of_false (by simp)
    rintro ⟨-, hlt, -⟩
    omega
  · rw [UInt64.lt_iff_toNat_lt, h.toNat_toEnd] at hend
    apply iff_of_false (by simp)
    rintro ⟨rfl, -, hle⟩
    omega
  · rw [UInt64.lt_iff_toNat_lt, h.toNat_free] at hfree
    rw [UInt64.lt_iff_toNat_lt, h.toNat_toEnd] at hend
    rw [Option.some_inj]
    refine ⟨?_, fun hspec => hspec.1.symm⟩
    rintro rfl
    exact ⟨rfl, by omega, by omega⟩

theorem Holds.toNat_writableBytes (h : q.Holds k committed consumed) :
    q.writableBytes.toNat
      = min (2 ^ k - q.unreadLength - 1) (2 ^ k - (q.writePos &&& q.mask).toNat) := by
  unfold writableBytes
  dsimp only
  rw [toNat_min, h.toNat_free, h.toNat_toEnd]

theorem Holds.toNat_readableBytes (h : q.Holds k committed consumed) :
    q.readableBytes.toNat = min q.unreadLength (2 ^ k - (q.readPos &&& q.mask).toNat) := by
  unfold readableBytes
  dsimp only
  split_ifs with hzero
  · have hnone : q.unreadLength = 0 := by
      rw [unreadLength, hzero]
      rfl
    rw [hnone, Nat.zero_min]
    rfl
  · rw [toNat_min, h.toNat_toEnd]
    rfl

/-- The consumer finds the first unread bytes. -/
theorem Holds.front_eq (h : q.Holds k committed consumed) {n : UInt64} (hn : n ≤ q.readableBytes) :
    q.front n = Ring.window q.buffer q.readPos.toNat n.toNat := by
  rw [UInt64.le_iff_toNat_le, h.toNat_readableBytes] at hn
  have hpos := h.toNat_and_mask_lt q.readPos
  unfold front peek
  split_ifs with hempty
  · have hzero : n.toNat = 0 := by
      have : q.unreadLength = 0 := by
        rw [unreadLength, hempty, UInt64.sub_self]
        rfl
      omega
    rw [hzero, Ring.window_zero]
  · have hfit : q.readPos.toNat % q.buffer.length + n.toNat ≤ q.buffer.length := by
      rw [h.length_buffer, ← h.toNat_and_mask]
      omega
    show (q.buffer.drop (q.readPos &&& q.mask).toNat).take n.toNat = _
    rw [Ring.window_eq_take_drop hfit, h.length_buffer, h.toNat_and_mask]

/-- A granted and filled region is the new end of the unread bytes. -/
theorem Holds.write (h : q.Holds k committed consumed) {len pos : UInt64} {data : Bytes}
    (hlen : data.length = len.toNat) (hgrant : q.prepareWrite len = some pos) :
    ((q.fill pos data).commitWrite len).Holds k (committed ++ data) consumed := by
  obtain ⟨hpos, hfree, hend⟩ := h.prepareWrite_eq_some.mp hgrant
  have hk := h.capacity_lt
  have hlength : ((q.fill pos data).commitWrite len).unreadLength
      = q.unreadLength + data.length := by
    have hsub : q.writePos + len - q.readPos = q.writePos - q.readPos + len := by
      grind
    show (q.writePos + len - q.readPos).toNat = _
    rw [hsub, UInt64.toNat_add, hlen, unreadLength]
    exact Nat.mod_eq_of_lt (hfree.trans hk)
  have hbehind : pos.toNat = (q.readPos.toNat + q.unreadLength) % q.buffer.length := by
    rw [h.length_buffer, hpos, h.writePos_mod]
  have hfit : pos.toNat + data.length ≤ q.buffer.length := by rwa [h.length_buffer, hlen]
  refine ⟨h.capacity_eq, h.mask_eq, ?_, ?_, ?_⟩
  · exact (Ring.length_splice hfit).trans h.length_buffer
  · rw [hlength, hlen]
    exact hfree
  · rw [hlength]
    show consumed ++ Ring.window (Ring.splice q.buffer pos.toNat data) q.readPos.toNat _ = _
    rw [Ring.window_splice hbehind hfit (by rw [h.length_buffer, hlen]; exact hfree.le),
      ← List.append_assoc, h.content]

/-- Consumed bytes are the first unread ones, and the others stay. -/
theorem Holds.consume (h : q.Holds k committed consumed) {n : UInt64} (hn : n ≤ q.readableBytes) :
    (q.consume n).Holds k committed (consumed ++ q.front n) := by
  have hfront := h.front_eq hn
  rw [UInt64.le_iff_toNat_le, h.toNat_readableBytes] at hn
  have hle : n ≤ q.writePos - q.readPos := by
    rw [UInt64.le_iff_toNat_le]
    exact hn.trans (min_le_left _ _)
  have hunread := h.unread_lt
  have hlength : q.unreadLength = n.toNat + (q.consume n).unreadLength := by
    have hsub : q.writePos - (q.readPos + n) = q.writePos - q.readPos - n := by grind
    have hrest : (q.consume n).unreadLength = q.unreadLength - n.toNat := by
      show (q.writePos - (q.readPos + n)).toNat = _
      rw [hsub, UInt64.toNat_sub_of_le _ _ hle, unreadLength]
    rw [hrest, unreadLength]
    exact (Nat.add_sub_of_le (UInt64.le_iff_toNat_le.mp hle)).symm
  refine ⟨h.capacity_eq, h.mask_eq, h.length_buffer, by omega, ?_⟩
  have hstart : (q.readPos.toNat + n.toNat) % q.buffer.length
      = (q.readPos + n).toNat % q.buffer.length := by
    rw [h.length_buffer, UInt64.toNat_add, h.mod_mod]
  show consumed ++ q.front n
    ++ Ring.window q.buffer (q.readPos + n).toNat (q.consume n).unreadLength = _
  rw [hfront, List.append_assoc, ← Ring.window_congr hstart,
    ← Ring.window_add (by rw [← hlength, h.length_buffer]; exact hunread.le), ← hlength, h.content]

end Holds

theorem Fresh.holds {q : SpscQueue} (h : q.Fresh) : ∃ k, 1 ≤ k ∧ q.Holds k [] [] := by
  obtain ⟨⟨k, hk, hcap⟩, hmask, hbuffer, hpos⟩ := h
  have hone : (1 : UInt64) ≤ q.capacity := by
    rw [UInt64.le_iff_toNat_le, hcap]
    exact Nat.one_le_two_pow
  have hunread : q.unreadLength = 0 := by
    rw [unreadLength, hpos, UInt64.sub_self]
    rfl
  refine ⟨k, hk, hcap, ?_, hbuffer.trans hcap, ?_, ?_⟩
  · rw [hmask, UInt64.toNat_sub_of_le _ _ hone, hcap]
    rfl
  · rw [hunread]
    exact Nat.two_pow_pos k
  · rw [hunread, Ring.window_zero]
    rfl

/-- In every queue that was used as intended, the invariant holds. -/
theorem Used.holds {q : SpscQueue} {committed consumed : Bytes} (h : Used q committed consumed) :
    ∃ k, 1 ≤ k ∧ q.Holds k committed consumed := by
  induction h with
  | init h => exact h.holds
  | write h hlen hgrant ih =>
    obtain ⟨k, hk, hholds⟩ := ih
    exact ⟨k, hk, hholds.write hlen hgrant⟩
  | consume h hn ih =>
    obtain ⟨k, hk, hholds⟩ := ih
    exact ⟨k, hk, hholds.consume hn⟩

/-! ## The result -/

/-- A ring buffer is a FIFO: its counters never differ by the capacity or more, a granted region lies
inside the buffer and holds no unread byte, a region is granted whenever `writable_bytes` promises
it, and the bytes consumed and those unread are the bytes committed, in order. -/
theorem spsc_fifo {q : SpscQueue} {committed consumed : Bytes} (h : Used q committed consumed) :
    (q.writePos - q.readPos).toNat ≤ q.capacity.toNat - 1 ∧
      (∀ len pos, q.prepareWrite len = some pos → pos.toNat + len.toNat ≤ q.buffer.length ∧
        ∀ i < q.unreadLength,
          ¬(pos.toNat ≤ q.unreadAt i ∧ q.unreadAt i < pos.toNat + len.toNat)) ∧
      (∀ len, 1 ≤ len → ((q.prepareWrite len).isSome ↔ len ≤ q.writableBytes)) ∧
      consumed ++ q.unread = committed := by
  obtain ⟨k, -, hholds⟩ := h.holds
  have hunread := hholds.unread_lt
  refine ⟨?_, ?_, ?_, ?_⟩
  · rw [hholds.capacity_eq]
    exact Nat.le_sub_one_of_lt hunread
  · intro len pos hgrant
    obtain ⟨hpos, hfree, hend⟩ := hholds.prepareWrite_eq_some.mp hgrant
    refine ⟨hholds.length_buffer ▸ hend, fun i hi => ?_⟩
    rw [hpos, hholds.writePos_mod] at hend ⊢
    rw [hholds.unreadAt_eq]
    exact Ring.window_disjoint hfree.le hend hi
  · intro len hlen
    rw [UInt64.le_iff_toNat_le] at hlen
    have hone : 1 ≤ len.toNat := hlen
    have hpos := hholds.toNat_and_mask_lt q.writePos
    rw [Option.isSome_iff_exists, UInt64.le_iff_toNat_le, hholds.toNat_writableBytes]
    constructor
    · rintro ⟨pos, hgrant⟩
      obtain ⟨rfl, hfree, hend⟩ := hholds.prepareWrite_eq_some.mp hgrant
      omega
    · intro hle
      exact ⟨_, hholds.prepareWrite_eq_some.mpr ⟨rfl, by omega, by omega⟩⟩
  · rw [hholds.unread_eq, hholds.content]

/-- Four bytes through a buffer of four, with counters that wrap on the way. -/
theorem spsc_fifo_wrap : ∃ q : SpscQueue, q.writePos = 2 ∧ q.readPos = 18446744073709551615 ∧
    Used q [1, 2, 3, 4] [1] ∧ [1] ++ q.unread = [1, 2, 3, 4] := by
  have hfresh : Fresh ⟨18446744073709551614, 18446744073709551614, 4, 3, [0, 0, 0, 0]⟩ :=
    ⟨⟨2, by norm_num, rfl⟩, by decide, rfl, rfl⟩
  have htwo : ∀ a b : UInt8, ([a, b] : Bytes).length = (2 : UInt64).toNat := fun _ _ => rfl
  have hfirst := (Used.init hfresh).write (htwo 1 2) (show _ = some 2 by decide)
  have hread := hfirst.consume (n := 1) (by decide)
  have hsecond := hread.write (htwo 3 4) (show _ = some 0 by decide)
  exact ⟨_, by decide, by decide, hsecond, (spsc_fifo hsecond).2.2.2⟩

end SpscQueue

end LeKV
