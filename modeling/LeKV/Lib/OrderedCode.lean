import LeKV.Lib.ByteString
import Mathlib.Data.Char
import Mathlib.Order.Monotone.Basic

/-!
# Codes that keep the order

A code writes each letter of one alphabet as a word of another one. `OrderedCode` says that the words
of two letters already differ, the way the letters do, whatever follows them. Strings and their codes
are then in the same lexicographic order (`OrderedCode.flatMap_le_iff`). UTF-8 is such a code
(`orderedCode_utf8`): comparing code points is comparing the bytes of the encodings.
-/

/-- The words are not empty, and keep the order of the letters whatever follows them. -/
structure OrderedCode {α β : Type*} [LinearOrder α] [LinearOrder β] (code : α → List β) : Prop where
  ne_nil : ∀ a, code a ≠ []
  append_lt : ∀ {a b}, a < b → ∀ x y, code a ++ x < code b ++ y

namespace OrderedCode

variable {α β : Type*} [LinearOrder α] [LinearOrder β] {code : α → List β} (h : OrderedCode code)

include h

theorem strictMono : StrictMono fun s : List α => s.flatMap code := by
  intro s t hst
  show s.flatMap code < t.flatMap code
  induction s generalizing t with
  | nil =>
    rcases t with _ | ⟨b, t⟩
    · exact absurd hst (lt_irrefl _)
    · obtain ⟨x, w, hw⟩ := List.exists_cons_of_ne_nil (h.ne_nil b)
      rw [List.flatMap_nil, List.flatMap_cons, hw]
      exact List.nil_lt_cons _ _
  | cons a s ih =>
    rcases t with _ | ⟨b, t⟩
    · exact absurd hst (List.not_lt_nil _)
    · rw [List.flatMap_cons, List.flatMap_cons]
      rcases List.cons_lt_cons_iff.mp hst with hab | ⟨rfl, hrest⟩
      · exact h.append_lt hab _ _
      · exact List.append_left_lt (ih hrest)

/-- Codes are in the order of the strings. -/
theorem flatMap_le_iff {s t : List α} : s.flatMap code ≤ t.flatMap code ↔ s ≤ t :=
  h.strictMono.le_iff_le

theorem flatMap_injective : Function.Injective fun s : List α => s.flatMap code :=
  h.strictMono.injective

end OrderedCode

/-! ## UTF-8 -/

/-- The order of two byte strings by the numbers in front. -/
theorem Bytes.ofNat_cons_lt_iff {a b : ℕ} {x y : Bytes} (ha : a < 256) (hb : b < 256) :
    UInt8.ofNat a :: x < UInt8.ofNat b :: y ↔ a < b ∨ a = b ∧ x < y := by
  have hlt : UInt8.ofNat a < UInt8.ofNat b ↔ a < b := by
    rw [UInt8.lt_iff_toNat_lt, UInt8.toNat_ofNat', UInt8.toNat_ofNat', Nat.mod_eq_of_lt ha,
      Nat.mod_eq_of_lt hb]
  have heq : UInt8.ofNat a = UInt8.ofNat b ↔ a = b := by
    rw [UInt8.ext_iff, UInt8.toNat_ofNat', UInt8.toNat_ofNat', Nat.mod_eq_of_lt ha,
      Nat.mod_eq_of_lt hb]
  rw [List.cons_lt_cons_iff, hlt, heq]

/-- A longer form starts with a larger byte; in one form the bytes are the digits of the code
point. -/
theorem orderedCode_utf8 : OrderedCode String.utf8EncodeChar where
  ne_nil _ := String.utf8EncodeChar_ne_nil
  append_lt := by
    intro c d hlt x y
    have hval : c.val.toNat < d.val.toNat := hlt
    have hmax : d.val.toNat < 0x110000 := by
      rcases d.valid with h | h
      · exact h.trans (by norm_num)
      · exact h.2
    unfold String.utf8EncodeChar
    generalize c.val.toNat = v at hval
    generalize d.val.toNat = w at hval hmax
    -- the digits of the code point, one taken from the other
    have hdiv : ∀ n : ℕ, n / 4096 = n / 64 / 64 ∧ n / 262144 = n / 64 / 64 / 64 := by omega
    simp only [hdiv]
    split_ifs
    all_goals
      simp (disch := omega) only [List.cons_append, List.nil_append, Bytes.ofNat_cons_lt_iff]
      omega
