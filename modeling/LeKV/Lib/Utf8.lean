import LeKV.Lib.OrderedCode

/-!
# Decoding UTF-8 with replacement characters

`decodeReplace` reads any bytes as text. Where the bytes at hand do not start with the code of a
character, it puts a replacement character and goes on behind the longest piece that could have begun
one. `decodeReplace_flatMap_append`: the code of a text is read back as this text, whatever follows.
-/

namespace Utf8

/-- The character that the bytes start with. -/
def char? (b : Bytes) : Option Char := b.toByteArray.utf8DecodeChar? 0

/-- A byte `10xxxxxx`. -/
def continues (b : UInt8) : Bool := 0x80 ≤ b && b ≤ 0xBF

/-- Whether a byte can be the second one of a longer form: some of them would begin a code that is too
long, a surrogate, or a number beyond the last character. -/
def second (lead b : UInt8) : Bool :=
  continues b && (lead ≠ 0xE0 || 0xA0 ≤ b) && (lead ≠ 0xED || b ≤ 0x9F) &&
    (lead ≠ 0xF0 || 0x90 ≤ b) && (lead ≠ 0xF4 || b ≤ 0x8F)

/-- The number of bytes behind the first one that one replacement character stands for, where no
character starts. -/
def invalidRest (lead : UInt8) (b : Bytes) : ℕ :=
  match b with
  | [] => 0
  | b₁ :: b =>
    if 0xE0 ≤ lead && lead ≤ 0xF4 && second lead b₁ then
      if 0xF0 ≤ lead && b.head?.any continues then 2 else 1
    else 0

/-- Decode with replacement characters. `skip` bytes belong to the character in front. -/
def decodeFrom : (skip : ℕ) → Bytes → List Char
  | _, [] => []
  | skip + 1, _ :: b => decodeFrom skip b
  | 0, lead :: b =>
    match char? (lead :: b) with
    | some c => c :: decodeFrom (c.utf8Size - 1) b
    | none => '\uFFFD' :: decodeFrom (invalidRest lead b) b

/-- Decode with replacement characters. -/
def decodeReplace (b : Bytes) : List Char := decodeFrom 0 b

/-! ## Text comes back -/

theorem char?_utf8EncodeChar_append (c : Char) (b : Bytes) :
    char? (String.utf8EncodeChar c ++ b) = some c := by
  rw [char?, List.toByteArray_append]
  exact ByteArray.utf8DecodeChar?_utf8EncodeChar_append

theorem decodeFrom_append (a b : Bytes) : decodeFrom a.length (a ++ b) = decodeFrom 0 b := by
  induction a with
  | nil => rfl
  | cons x a ih => exact ih

theorem decodeReplace_utf8EncodeChar_append (c : Char) (b : Bytes) :
    decodeReplace (String.utf8EncodeChar c ++ b) = c :: decodeReplace b := by
  have hchar := char?_utf8EncodeChar_append c b
  have hlen := String.length_utf8EncodeChar c
  obtain ⟨x, l, hl⟩ := List.exists_cons_of_ne_nil (@String.utf8EncodeChar_ne_nil c)
  rw [hl, List.cons_append] at hchar ⊢
  rw [hl, List.length_cons] at hlen
  have hskip : c.utf8Size - 1 = l.length := by omega
  simp only [decodeReplace, decodeFrom, hchar, hskip, decodeFrom_append]

/-- The code of a text is read back. -/
theorem decodeReplace_flatMap_append (s : List Char) (b : Bytes) :
    decodeReplace (s.flatMap String.utf8EncodeChar ++ b) = s ++ decodeReplace b := by
  induction s with
  | nil => rfl
  | cons c s ih =>
    rw [List.flatMap_cons, List.append_assoc, decodeReplace_utf8EncodeChar_append, ih, List.cons_append]

theorem decodeReplace_flatMap (s : List Char) :
    decodeReplace (s.flatMap String.utf8EncodeChar) = s := by
  have h := decodeReplace_flatMap_append s []
  rwa [List.append_nil, decodeReplace, decodeReplace, decodeFrom, List.append_nil] at h

/-- A byte of ASCII stands for itself. -/
theorem toNat_of_ascii {c : Char} {b : UInt8} (hb : b ∈ String.utf8EncodeChar c)
    (hlow : b.toNat < 0x80) : b.toNat = c.toNat := by
  have hval : c.toNat = c.val.toNat := rfl
  unfold String.utf8EncodeChar at hb
  dsimp only at hb
  split_ifs at hb
  all_goals
    simp only [List.mem_cons, List.not_mem_nil, or_false, UInt8.ext_iff, UInt8.toNat_ofNat'] at hb
    omega

/-- A surrogate is three bytes that start nothing, a code that is cut off is one piece. -/
example : decodeReplace [0x61, 0xED, 0xA0, 0x80, 0xF0, 0x9F, 0x98]
    = ['a', '\uFFFD', '\uFFFD', '\uFFFD', '\uFFFD'] := by decide +kernel

end Utf8
