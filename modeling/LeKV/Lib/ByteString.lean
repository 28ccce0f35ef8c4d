import Mathlib.Data.List.Lex
import Mathlib.Tactic.NormNum
import Mathlib.Tactic.Ring

/-!
# Byte strings and big-endian fields

Byte strings are lists of `UInt8`, ordered lexicographically by unsigned bytes. `be w n` writes the
low `w` bytes of `n`, most significant first, so it narrows a number that is too large in the way a
conversion to a `w`-byte unsigned integer does; `readBE_be` states it. `bytesAt` reads a slice and
answers `none` where the slice leaves the byte string.
-/

/-- Unsigned comparison of bytes. -/
instance Bytes.instLinearOrderUInt8 : LinearOrder UInt8 where
  le_refl a := UInt8.le_refl a
  le_trans _ _ _ := UInt8.le_trans
  le_antisymm _ _ := UInt8.le_antisymm
  le_total := UInt8.le_total
  lt_iff_le_not_ge a b := by
    simp only [UInt8.le_iff_toNat_le, UInt8.lt_iff_toNat_lt]
    omega
  toDecidableLE := inferInstance
  toDecidableEq := inferInstance
  toDecidableLT := inferInstance

/-- A byte string. -/
abbrev Bytes : Type := List UInt8

namespace Bytes

/-- The empty byte string is the least one. -/
theorem nil_le (a : Bytes) : [] ≤ a := by
  rw [← not_lt]
  exact List.not_lt_nil a

theorem nil_lt_iff {a : Bytes} : [] < a ↔ a ≠ [] := by
  rcases a with _ | ⟨x, xs⟩
  · simp
  · simp [List.nil_lt_cons]

/-- A byte string above another one is not empty. -/
theorem ne_nil_of_lt {a b : Bytes} (h : a < b) : b ≠ [] :=
  nil_lt_iff.mp ((nil_le a).trans_lt h)

/-! ## Fixed-width big-endian numbers -/

/-- The low `w` bytes of `n`, most significant first. -/
def be : ℕ → ℕ → Bytes
  | 0, _ => []
  | w + 1, n => UInt8.ofNat (n / 256 ^ w) :: be w n

/-- The number a byte string writes, most significant byte first. -/
def readBE (l : Bytes) : ℕ := l.foldl (fun acc b => acc * 256 + b.toNat) 0

@[simp] theorem length_be (w n : ℕ) : (be w n).length = w := by
  induction w with
  | zero => rfl
  | succ w ih => rw [be, List.length_cons, ih]

private theorem foldl_be (w n acc : ℕ) :
    (be w n).foldl (fun acc b => acc * 256 + b.toNat) acc = acc * 256 ^ w + n % 256 ^ w := by
  induction w generalizing acc with
  | zero => simp [be, Nat.mod_one]
  | succ w ih =>
    have hdigit : n % 256 ^ (w + 1) = n / 256 ^ w % 256 * 256 ^ w + n % 256 ^ w := by
      rw [pow_succ, Nat.mod_mul, Nat.mul_comm, Nat.add_comm]
    rw [be, List.foldl_cons, ih, UInt8.toNat_ofNat', hdigit]
    ring

/-- Writing a number in `w` bytes keeps its residue modulo `256 ^ w`. -/
theorem readBE_be (w n : ℕ) : readBE (be w n) = n % 256 ^ w := by
  rw [readBE, foldl_be, Nat.zero_mul, Nat.zero_add]

/-- A number of `w` bytes is below `256 ^ w`. -/
theorem readBE_lt (l : Bytes) : readBE l < 256 ^ l.length := by
  have hfold : ∀ (l : Bytes) (acc : ℕ),
      l.foldl (fun acc b => acc * 256 + b.toNat) acc < (acc + 1) * 256 ^ l.length := by
    intro l
    induction l with
    | nil => intro acc; simp
    | cons b l ih =>
      intro acc
      have hb : b.toNat < 256 := b.toNat_lt
      calc (b :: l).foldl (fun acc b => acc * 256 + b.toNat) acc
          < (acc * 256 + b.toNat + 1) * 256 ^ l.length := ih _
        _ ≤ ((acc + 1) * 256) * 256 ^ l.length := Nat.mul_le_mul_right _ (by omega)
        _ = (acc + 1) * 256 ^ (b :: l).length := by rw [List.length_cons, pow_succ]; ring
  simpa [readBE] using hfold l 0

/-- The first `w` bytes write a number below `256 ^ w`. -/
theorem readBE_take_lt (l : Bytes) (w : ℕ) : readBE (l.take w) < 256 ^ w :=
  (readBE_lt (l.take w)).trans_le (Nat.pow_le_pow_right (by norm_num) (List.length_take_le w l))

/-! ## Slices -/

/-- The `len` bytes of `l` from offset `off` on, `none` where `l` ends before. -/
def bytesAt (l : Bytes) (off len : ℕ) : Option Bytes :=
  if off + len ≤ l.length then some ((l.drop off).take len) else none

/-- The big-endian number in the `w` bytes from offset `off` on. -/
def numAt (l : Bytes) (off w : ℕ) : Option ℕ := (bytesAt l off w).map readBE

/-- A slice that ends inside the byte string is read. -/
theorem bytesAt_of_le {l : Bytes} {off len : ℕ} (h : off + len ≤ l.length) :
    bytesAt l off len = some ((l.drop off).take len) := if_pos h

theorem numAt_of_le {l : Bytes} {off w : ℕ} (h : off + w ≤ l.length) :
    numAt l off w = some (readBE ((l.drop off).take w)) := by
  rw [numAt, bytesAt_of_le h, Option.map_some]

theorem bytesAt_eq_some {l b : Bytes} {off len : ℕ} :
    bytesAt l off len = some b ↔ off + len ≤ l.length ∧ (l.drop off).take len = b := by
  unfold bytesAt
  split_ifs with h <;> simp [h]

theorem bytesAt_eq_none {l : Bytes} {off len : ℕ} :
    bytesAt l off len = none ↔ l.length < off + len := by
  unfold bytesAt
  split_ifs with h <;> simp <;> omega

theorem numAt_eq_none {l : Bytes} {off w : ℕ} : numAt l off w = none ↔ l.length < off + w := by
  rw [numAt, Option.map_eq_none_iff, bytesAt_eq_none]

/-- Reading the middle part of a concatenation. -/
theorem bytesAt_append (a b c : Bytes) {off len : ℕ} (hoff : off = a.length)
    (hlen : len = b.length) : bytesAt (a ++ (b ++ c)) off len = some b := by
  subst hoff hlen
  rw [bytesAt_eq_some]
  refine ⟨by simp only [List.length_append]; omega, ?_⟩
  rw [List.drop_left, List.take_left]

/-- Reading back a big-endian field of a concatenation. -/
theorem numAt_append (a c : Bytes) (w n : ℕ) {off : ℕ} (hoff : off = a.length) :
    numAt (a ++ (be w n ++ c)) off w = some (n % 256 ^ w) := by
  rw [numAt, bytesAt_append a (be w n) c hoff (length_be w n).symm, Option.map_some, readBE_be]

theorem num16At_append (a c : Bytes) (n : ℕ) {off : ℕ} (hoff : off = a.length) :
    numAt (a ++ (be 2 n ++ c)) off 2 = some (n % 2 ^ 16) :=
  numAt_append a c 2 n hoff

theorem num32At_append (a c : Bytes) (n : ℕ) {off : ℕ} (hoff : off = a.length) :
    numAt (a ++ (be 4 n ++ c)) off 4 = some (n % 2 ^ 32) := by
  rw [numAt_append a c 4 n hoff]
  norm_num

/-- The bytes read have the length asked for. -/
theorem length_of_bytesAt {l b : Bytes} {off len : ℕ} (h : bytesAt l off len = some b) :
    b.length = len := by
  obtain ⟨hle, rfl⟩ := bytesAt_eq_some.mp h
  rw [List.length_take, List.length_drop]
  omega

/-- A number read from `w` bytes is below `256 ^ w`. -/
theorem numAt_lt {l : Bytes} {off w n : ℕ} (h : numAt l off w = some n) : n < 256 ^ w := by
  obtain ⟨b, hb, rfl⟩ := Option.map_eq_some_iff.mp h
  exact length_of_bytesAt hb ▸ readBE_lt b

/-- A slice inside the first part of a concatenation does not see the second part. -/
theorem bytesAt_append_left {l b : Bytes} {off len : ℕ} (h : bytesAt l off len = some b)
    (c : Bytes) : bytesAt (l ++ c) off len = some b := by
  obtain ⟨hle, hb⟩ := bytesAt_eq_some.mp h
  refine bytesAt_eq_some.mpr ⟨by rw [List.length_append]; omega, ?_⟩
  rw [List.drop_append_of_le_length (by omega), List.take_append_of_le_length, hb]
  rw [List.length_drop]
  omega

end Bytes
