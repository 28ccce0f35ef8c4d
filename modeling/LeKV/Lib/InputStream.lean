import LeKV.Lib.Text
import Mathlib.Data.List.TakeWhile

/-!
# Input streams over a string

What `std::istringstream` does with `>>` into a string and with `std::getline`. Both start with a
sentry: on a stream that has met its end or failed they set the failbit and leave the string as it
was, and so does `>>` where only whitespace is left. Reading up to the last byte meets the end.
-/

namespace InputStream

open Text

/-- The unread bytes, the eofbit and the failbit. -/
structure IStream where
  rest : Bytes
  eof : Bool
  fail : Bool
deriving DecidableEq, Repr

/-- A stream over a string. -/
def IStream.ofBytes (s : Bytes) : IStream := ⟨s, false, false⟩

/-- `good()`. -/
def IStream.good (is : IStream) : Bool := !is.eof && !is.fail

/-- `is >> str`. -/
def IStream.extract (is : IStream) (str : Bytes) : IStream × Bytes :=
  if is.good then
    let s := is.rest.dropWhile isSpace
    if s = [] then (⟨[], true, true⟩, str)
    else
      let after := s.dropWhile fun b => !isSpace b
      (⟨after, after.isEmpty, false⟩, s.takeWhile fun b => !isSpace b)
  else ({ is with fail := true }, str)

/-- `std::getline(is, str)`. -/
def IStream.getline (is : IStream) (str : Bytes) : IStream × Bytes :=
  if is.good then
    let line := is.rest.takeWhile (· ≠ 0x0A)
    match is.rest.dropWhile (· ≠ 0x0A) with
    | [] => (⟨[], true, line.isEmpty⟩, line)
    | _ :: after => (⟨after, false, false⟩, line)
  else ({ is with fail := true }, str)

/-- A stream whose last reading stopped in front of `s`. -/
def IStream.before (s : Bytes) : IStream := ⟨s, s.isEmpty, false⟩

variable {is : IStream} {str w s space : Bytes}

/-! ## The sentry -/

theorem extract_of_not_good (h : is.good = false) (str : Bytes) :
    is.extract str = ({ is with fail := true }, str) := if_neg (by simp [h])

theorem getline_of_not_good (h : is.good = false) (str : Bytes) :
    is.getline str = ({ is with fail := true }, str) := if_neg (by simp [h])

/-! ## Reading a word, and the rest of a line -/

/-- A word is read up to the whitespace behind it. -/
theorem extract_word (hspace : ∀ b ∈ space, isSpace b = true) (hne : w ≠ [])
    (hw : ∀ b ∈ w, isSpace b = false) (hs : ∀ b ∈ s.head?, isSpace b = true) (str : Bytes) :
    (IStream.ofBytes (space ++ (w ++ s))).extract str = (IStream.before s, w) := by
  have hskip : (space ++ (w ++ s)).dropWhile isSpace = w ++ s := by
    obtain ⟨b, w, rfl⟩ := List.exists_cons_of_ne_nil hne
    rw [List.dropWhile_append_of_pos hspace, List.cons_append,
      List.dropWhile_cons_of_neg (by simp [hw b List.mem_cons_self])]
  have hw' : ∀ b ∈ w, (!isSpace b) = true := fun b hb => by rw [hw b hb]; rfl
  have hafter : (w ++ s).dropWhile (fun b => !isSpace b) = s := by
    rw [List.dropWhile_append_of_pos hw']
    rcases s with _ | ⟨b, s⟩
    · rfl
    · exact List.dropWhile_cons_of_neg (by simp [hs b rfl])
  have hread : (w ++ s).takeWhile (fun b => !isSpace b) = w := by
    rw [List.takeWhile_append_of_pos hw']
    rcases s with _ | ⟨b, s⟩
    · exact List.append_nil w
    · rw [List.takeWhile_cons_of_neg (by simp [hs b rfl]), List.append_nil]
  have hgood : (IStream.ofBytes (space ++ (w ++ s))).good = true := rfl
  rw [IStream.extract, if_pos hgood]
  simp only [IStream.ofBytes, hskip, hafter, hread,
    if_neg (List.append_ne_nil_of_left_ne_nil hne s), IStream.before]

/-- A word has no whitespace. -/
theorem isSpace_of_mem_extract {b : UInt8} (h : b ∈ (is.extract []).2) : isSpace b = false := by
  unfold IStream.extract at h
  by_cases hgood : is.good = true
  · rw [if_pos hgood] at h
    dsimp only at h
    split_ifs at h
    · exact absurd h List.not_mem_nil
    · simpa using List.mem_takeWhile_imp h
  · rw [if_neg hgood] at h
    exact absurd h List.not_mem_nil

/-- A text without a line break is read whole. -/
theorem getline_ofBytes (hs : 0x0A ∉ s) (str : Bytes) :
    (IStream.ofBytes s).getline str = (⟨[], true, s.isEmpty⟩, s) := by
  have hall : ∀ b ∈ s, decide (b ≠ 0x0A) = true := fun b hb => by
    rw [decide_eq_true_eq]
    rintro rfl
    exact hs hb
  have hread : s.takeWhile (fun b => decide (b ≠ 0x0A)) = s := List.takeWhile_eq_self_iff.mpr hall
  have hafter : s.dropWhile (fun b => decide (b ≠ 0x0A)) = [] := List.dropWhile_eq_nil_iff.mpr hall
  have hgood : (IStream.ofBytes s).good = true := rfl
  rw [IStream.getline, if_pos hgood]
  simp only [IStream.ofBytes, hread, hafter]

end InputStream
