import LeKV.Common.BitCeil
import LeKV.Logger.SpscQueue

/-!
# Which writes a drained ring buffer accepts (`logger/spsc_queue.cpp`)

`construct` is the constructor. A queue of requested size 1 gets a buffer of one byte and accepts
nothing, every larger one can take the requested size at once (`usable_construct_iff`). Draining does
not move the writer's place in the buffer: an idle queue accepts a write exactly when the bytes
written so far, modulo the capacity, leave it room before the end (`prepareWrite_idle_iff`).
-/

namespace LeKV

namespace SpscQueue

/-! ## The constructor -/

/-- `SpscQueue::SpscQueue`. `memory` is what the allocated bytes happen to hold. -/
def construct (capacity : UInt64) (memory : ℕ → UInt8) : SpscQueue :=
  let capacity_ := bitCeil (capacity ||| 1)
  { writePos := 0
    readPos := 0
    capacity := capacity_
    mask := capacity_ - 1
    buffer := (List.range capacity_.toNat).map memory }

section Construct

variable {c : UInt64}

theorem toNat_or_one (c : UInt64) : (c ||| 1).toNat = 2 * (c.toNat / 2) + 1 := by
  have hhalf : (c.toNat ||| 1) / 2 = c.toNat / 2 := by rw [Nat.or_div_two]; simp
  have hodd : (c.toNat ||| 1) % 2 = 1 := by rw [Nat.or_mod_two_eq_one]; simp
  rw [UInt64.toNat_or, UInt64.toNat_one]
  omega

/-- Sizes below `2 ^ 63` are rounded up to a power of two, and all but 1 to a larger one. -/
theorem construct_capacity (hpos : 1 ≤ c) (hlt : c.toNat < 2 ^ 63) (memory : ℕ → UInt8) :
    ∃ k, (construct c memory).capacity.toNat = 2 ^ k ∧ (c ≠ 1 → 1 ≤ k ∧ c.toNat < 2 ^ k) ∧
      (c = 1 → k = 0) := by
  have hor := toNat_or_one c
  have hone : 1 ≤ c.toNat := UInt64.le_iff_toNat_le.mp hpos
  have hcap := toNat_bitCeil (n := c ||| 1) (by omega)
  have hle := BitSmear.le_two_pow_size_pred (c ||| 1).toNat
  refine ⟨((c ||| 1).toNat - 1).size, hcap, ?_, ?_⟩
  · intro hne
    have htwo : c.toNat ≠ 1 := fun h => hne (UInt64.toNat_inj.mp h)
    obtain ⟨k, hk⟩ : ∃ k, ((c ||| 1).toNat - 1).size = k + 1 := by
      apply Nat.exists_eq_succ_of_ne_zero
      rw [Ne, Nat.size_eq_zero]
      omega
    -- the rounded size is odd, so it is not the power of two itself
    rw [hk, pow_succ] at hle ⊢
    omega
  · rintro rfl
    rfl

theorem fresh_construct (hpos : 1 ≤ c) (hlt : c.toNat < 2 ^ 63) (memory : ℕ → UInt8) (hne : c ≠ 1) :
    (construct c memory).Fresh := by
  obtain ⟨k, hk, hlarge, -⟩ := construct_capacity hpos hlt memory
  exact ⟨⟨k, (hlarge hne).1, hk⟩, rfl, by simp [construct], rfl⟩

/-- What a caller of the constructor expects of the queue of `c` bytes. -/
structure Usable (q : SpscQueue) (c : UInt64) : Prop where
  capacity_eq : ∃ k, q.capacity.toNat = 2 ^ k
  two_le : 2 ≤ q.capacity.toNat
  mask_eq : q.mask = q.capacity - 1
  and_mask : ∀ pos : UInt64, (pos &&& q.mask).toNat = pos.toNat % q.capacity.toNat
  grants : (q.prepareWrite c).isSome = true

/-- Every requested size from 2 on is usable at once; size 1 is not. -/
theorem usable_construct_iff (hpos : 1 ≤ c) (hlt : c.toNat < 2 ^ 63) (memory : ℕ → UInt8) :
    (construct c memory).Usable c ↔ c ≠ 1 := by
  obtain ⟨k, hcap, hlarge, hsmall⟩ := construct_capacity hpos hlt memory
  constructor
  · rintro h rfl
    have htwo := h.two_le
    rw [hcap, hsmall rfl] at htwo
    exact absurd htwo (by norm_num)
  · intro hne
    obtain ⟨hk, hc⟩ := hlarge hne
    obtain ⟨k', -, hholds⟩ := (fresh_construct hpos hlt memory hne).holds
    obtain rfl : k' = k := Nat.pow_right_injective le_rfl (hholds.capacity_eq.symm.trans hcap)
    have hunread : (construct c memory).unreadLength = 0 := by
      show ((0 : UInt64) - 0).toNat = 0
      rfl
    have hgrant : (construct c memory).prepareWrite c = some 0 := by
      refine hholds.prepareWrite_eq_some.mpr ⟨?_, ?_, ?_⟩
      · exact UInt64.zero_and.symm
      · rwa [hunread, Nat.zero_add]
      · exact (Nat.zero_add _).trans_le hc.le
    refine ⟨⟨k', hcap⟩, ?_, rfl, ?_, ?_⟩
    · rw [hcap]
      exact Nat.pow_le_pow_right Nat.two_pos hk
    · intro pos
      rw [hholds.toNat_and_mask, hcap]
    · rw [hgrant]
      rfl

/-- Sixteen bytes get a buffer of 32. -/
theorem usable_construct_sixteen : (construct 16 fun _ => 0).Usable 16 :=
  (usable_construct_iff (by decide) (by decide) _).mpr (by decide)

/-- One byte gets a buffer of one, and no byte of it can be written. -/
theorem not_usable_construct_one :
    (construct 1 fun _ => 0).capacity = 1 ∧ (construct 1 fun _ => 0).prepareWrite 1 = none ∧
      ¬(construct 1 fun _ => 0).Usable 1 :=
  ⟨by decide, by decide, fun h => absurd h.two_le (by decide)⟩

end Construct

/-! ## A history of granted writes -/

/-- A call of the producer that fills and commits a region, or one of the consumer. -/
inductive Call where
  | write (data : Bytes)
  | consume (len : UInt64)
deriving DecidableEq, Repr

/-- One call; `none` where the region is refused, or the consumer takes more than it may. -/
def Call.apply (q : SpscQueue) : Call → Option SpscQueue
  | .write data =>
    if data.length < 2 ^ 64 then
      let len := UInt64.ofNat data.length
      (q.prepareWrite len).map fun pos => (q.fill pos data).commitWrite len
    else none
  | .consume len => if len ≤ q.readableBytes then some (q.consume len) else none

/-- The calls of a history, one after the other. -/
def run (q : SpscQueue) (calls : List Call) : Option SpscQueue := calls.foldlM Call.apply q

/-- The bytes a history has written. -/
def written : List Call → ℕ
  | [] => 0
  | .write data :: calls => data.length + written calls
  | .consume _ :: calls => written calls

section History

variable {q q' : SpscQueue} {committed consumed : Bytes}

/-- A granted call is a use as intended. -/
theorem Call.used_of_apply {call : Call} (hused : Used q committed consumed)
    (h : call.apply q = some q') : ∃ committed' consumed', Used q' committed' consumed' := by
  cases call with
  | write data =>
    simp only [Call.apply] at h
    split_ifs at h with hlen
    obtain ⟨pos, hgrant, rfl⟩ := Option.map_eq_some_iff.mp h
    have hdata : data.length = (UInt64.ofNat data.length).toNat :=
      (UInt64.toNat_ofNat_of_lt hlen).symm
    exact ⟨_, _, hused.write hdata hgrant⟩
  | consume len =>
    simp only [Call.apply] at h
    split_ifs at h with hle
    obtain rfl := Option.some.inj h
    exact ⟨_, _, hused.consume hle⟩

theorem used_of_run {calls : List Call} (hused : Used q committed consumed)
    (h : q.run calls = some q') : ∃ committed' consumed', Used q' committed' consumed' := by
  induction calls generalizing q committed consumed with
  | nil =>
    obtain rfl : q = q' := Option.some.inj h
    exact ⟨_, _, hused⟩
  | cons call calls ih =>
    rw [run, List.foldlM_cons] at h
    obtain ⟨q₁, hcall, hrest⟩ := Option.bind_eq_some_iff.mp h
    obtain ⟨committed₁, consumed₁, hused₁⟩ := Call.used_of_apply hused hcall
    exact ih hused₁ hrest

/-- A call moves the writer by the bytes it writes. -/
theorem Call.writePos_of_apply {call : Call} (h : call.apply q = some q') :
    q'.capacity = q.capacity ∧ q'.writePos = q.writePos + UInt64.ofNat (written [call]) := by
  cases call with
  | write data =>
    simp only [Call.apply] at h
    split_ifs at h with hlen
    obtain ⟨pos, -, rfl⟩ := Option.map_eq_some_iff.mp h
    exact ⟨rfl, rfl⟩
  | consume len =>
    simp only [Call.apply] at h
    split_ifs at h with hle
    obtain rfl := Option.some.inj h
    exact ⟨rfl, (UInt64.add_zero _).symm⟩

theorem written_cons (call : Call) (calls : List Call) :
    written (call :: calls) = written [call] + written calls := by
  cases call with
  | write data => rfl
  | consume len => exact (Nat.zero_add _).symm

/-- A history moves the writer by the bytes it writes. -/
theorem writePos_of_run {calls : List Call} (h : q.run calls = some q') :
    q'.capacity = q.capacity ∧ q'.writePos = q.writePos + UInt64.ofNat (written calls) := by
  induction calls generalizing q with
  | nil =>
    obtain rfl : q = q' := Option.some.inj h
    exact ⟨rfl, (UInt64.add_zero _).symm⟩
  | cons call calls ih =>
    rw [run, List.foldlM_cons] at h
    obtain ⟨q₁, hcall, hrest⟩ := Option.bind_eq_some_iff.mp h
    obtain ⟨hcap₁, hpos₁⟩ := Call.writePos_of_apply hcall
    obtain ⟨hcap, hpos⟩ := ih hrest
    refine ⟨hcap.trans hcap₁, ?_⟩
    rw [hpos, hpos₁, UInt64.add_assoc, ← UInt64.ofNat_add, ← written_cons]

/-! ## The drained queue -/

/-- A buffer that can take a byte was asked for with a size that `bit_ceil` can round. -/
theorem fresh_of_one_lt_capacity {c : UInt64} {memory : ℕ → UInt8}
    (h : 1 < (construct c memory).capacity.toNat) : (construct c memory).Fresh := by
  have hor := toNat_or_one c
  have hbound := (c ||| 1).toNat_lt
  have hcap : (construct c memory).capacity = bitCeil (c ||| 1) := rfl
  rw [hcap] at h
  have hlt : c.toNat < 2 ^ 63 := by
    by_contra hge
    rw [bitCeil_eq_zero (by omega)] at h
    exact absurd h (by decide)
  have hsmall : ∀ d : UInt64, d.toNat ≤ 1 → d ||| 1 = 1 := by
    intro d hd
    have hor' := toNat_or_one d
    rw [UInt64.ext_iff, UInt64.toNat_one]
    omega
  have htwo : 2 ≤ c.toNat := by
    by_contra hle
    rw [hsmall c (by omega)] at h
    exact absurd h (by decide)
  refine fresh_construct (UInt64.le_iff_toNat_le.mpr ?_) hlt memory ?_
  · exact Nat.le_of_succ_le htwo
  · rintro rfl
    exact absurd htwo (by decide)

/-- After any history of granted writes and consumes that leaves the queue empty, a write that is
smaller than the buffer is accepted exactly when the bytes written so far, modulo the capacity, leave
it room before the end of the buffer. -/
theorem prepareWrite_idle_iff {c : UInt64} {memory : ℕ → UInt8} {calls : List Call}
    (hrun : (construct c memory).run calls = some q) (hidle : q.empty = true) {len : UInt64}
    (hlen : 1 ≤ len.toNat) (hroom : len.toNat < q.capacity.toNat) :
    (q.prepareWrite len).isSome = true ↔
      written calls % q.capacity.toNat + len.toNat ≤ q.capacity.toNat := by
  obtain ⟨hcap, hpos⟩ := writePos_of_run hrun
  have hfresh := fresh_of_one_lt_capacity (hcap ▸ hlen.trans_lt hroom)
  obtain ⟨committed, consumed, hused⟩ := used_of_run (Used.init hfresh) hrun
  obtain ⟨k, -, hholds⟩ := hused.holds
  have hunread : q.unreadLength = 0 := by
    rw [unreadLength, of_decide_eq_true hidle, UInt64.sub_self]
    rfl
  have hoffset : (q.writePos &&& q.mask).toNat = written calls % 2 ^ k := by
    have hzero : (construct c memory).writePos = 0 := rfl
    rw [hholds.toNat_and_mask, hpos, hzero, UInt64.zero_add, UInt64.toNat_ofNat', hholds.mod_mod]
  rw [hholds.capacity_eq] at hroom ⊢
  rw [Option.isSome_iff_exists, ← hoffset]
  constructor
  · rintro ⟨pos, hgrant⟩
    obtain ⟨rfl, -, hend⟩ := hholds.prepareWrite_eq_some.mp hgrant
    exact hend
  · intro hend
    refine ⟨_, hholds.prepareWrite_eq_some.mpr ⟨rfl, ?_, hend⟩⟩
    rwa [hunread, Nat.zero_add]

/-- One byte through a buffer of four leaves room for three. -/
theorem prepareWrite_idle_three : ∃ q, (construct 2 fun _ => 0).run [.write [1], .consume 1] = some q ∧
    q.empty = true ∧ (q.prepareWrite 3).isSome = true := by
  have hrun : (construct 2 fun _ => 0).run [.write [1], .consume 1] = some ⟨1, 1, 4, 3, [1, 0, 0, 0]⟩ := by
    decide
  exact ⟨_, hrun, by decide,
    (prepareWrite_idle_iff hrun (by decide) (by decide) (by decide)).mpr (by decide)⟩

/-- Three bytes through a buffer of four leave one byte before its end: the drained queue refuses
two bytes. -/
theorem not_prepareWrite_idle : ¬∀ (c : UInt64) (memory : ℕ → UInt8) (calls : List Call) (q : SpscQueue),
    (construct c memory).run calls = some q → q.empty = true → ∀ len : UInt64, 1 ≤ len.toNat →
      len.toNat < q.capacity.toNat → (q.prepareWrite len).isSome = true := by
  intro h
  have hrun : (construct 2 fun _ => 0).run [.write [1, 2, 3], .consume 3]
      = some ⟨3, 3, 4, 3, [1, 2, 3, 0]⟩ := by decide
  exact absurd (h _ _ _ _ hrun (by decide) 2 (by decide) (by decide)) (by decide)

end History

end SpscQueue

end LeKV
