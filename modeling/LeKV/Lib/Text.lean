import LeKV.Lib.ByteString
import Mathlib.Data.List.DropRight
import Mathlib.Data.Nat.Digits.Defs
import Mathlib.Data.Nat.Digits.Lemmas

/-!
# Text in byte strings

What C++ streams and strings do with ASCII text: words separated by whitespace (`words`), fields
separated by one byte (`List.splitOn`), and decimal numbers (`decimal`, `parseDecimal`). Words and
fields undo the joining of pieces that are free of the separators.
-/

namespace Text

/-- `isspace` in the C locale. -/
def isSpace (b : UInt8) : Bool := b = 0x20 || (0x09 ≤ b && b ≤ 0x0D)

/-- `isdigit`. -/
def isDigit (b : UInt8) : Bool := 0x30 ≤ b && b ≤ 0x39

/-- No digit is whitespace. -/
theorem isSpace_of_isDigit {b : UInt8} (h : isDigit b = true) : isSpace b = false := by
  simp only [isDigit, isSpace, Bool.and_eq_true, decide_eq_true_eq, UInt8.le_iff_toNat_le] at h ⊢
  rw [Bool.or_eq_false_iff, Bool.and_eq_false_iff, decide_eq_false_iff_not, decide_eq_false_iff_not,
    decide_eq_false_iff_not, UInt8.ext_iff]
  simp only [UInt8.reduceToNat] at h ⊢
  omega

/-! ## Separators -/

/-- A piece of a split list consists of elements of the list, none of them a separator. -/
theorem of_mem_splitOnP {α : Type*} {p : α → Bool} {l part : List α} (h : part ∈ l.splitOnP p) :
    ∀ x ∈ part, x ∈ l ∧ p x = false := by
  induction l generalizing part with
  | nil =>
    rw [List.splitOnP_nil, List.mem_singleton] at h
    exact fun x hx => absurd (h ▸ hx) List.not_mem_nil
  | cons a l ih =>
    have hcons : ∀ q ∈ l.splitOnP p, ∀ x ∈ q, x ∈ a :: l ∧ p x = false := fun q hq x hx =>
      ⟨List.mem_cons_of_mem _ (ih hq x hx).1, (ih hq x hx).2⟩
    rw [List.splitOnP_cons_eq_if_modifyHead] at h
    by_cases hp : p a = true
    · rw [if_pos hp] at h
      rcases List.mem_cons.mp h with rfl | h
      · exact fun x hx => absurd hx List.not_mem_nil
      · exact hcons part h
    · rw [if_neg hp] at h
      obtain ⟨q, qs, hq⟩ := List.exists_cons_of_ne_nil (List.splitOnP_ne_nil p l)
      rw [hq, List.modifyHead_cons] at h
      rcases List.mem_cons.mp h with rfl | h
      · intro x hx
        rcases List.mem_cons.mp hx with rfl | hx
        · exact ⟨List.mem_cons_self, Bool.eq_false_iff.mpr hp⟩
        · exact hcons q (hq ▸ List.mem_cons_self) x hx
      · exact hcons part (hq ▸ List.mem_cons_of_mem _ h)

/-- The pieces of a list between the separators, without the empty ones. -/
def wordsBy {α : Type*} [DecidableEq α] (p : α → Bool) (s : List α) : List (List α) :=
  (s.splitOnP p).filter fun w => w ≠ []

section WordsBy

variable {α : Type*} [DecidableEq α] {p : α → Bool} {sep : α} {w : List α}

theorem wordsBy_append_cons (hsep : p sep = true) (s t : List α) :
    wordsBy p (s ++ sep :: t) = wordsBy p s ++ wordsBy p t := by
  rw [wordsBy, List.splitOnP_append_cons _ _ hsep, List.filter_append]
  rfl

theorem wordsBy_cons (hsep : p sep = true) (s : List α) : wordsBy p (sep :: s) = wordsBy p s := by
  have h := wordsBy_append_cons hsep [] s
  rwa [List.nil_append] at h

/-- Separators in front are nothing. -/
theorem wordsBy_dropWhile (p : α → Bool) (s : List α) : wordsBy p (s.dropWhile p) = wordsBy p s := by
  induction s with
  | nil => rfl
  | cons a s ih =>
    by_cases ha : p a = true
    · rw [List.dropWhile_cons_of_pos ha, ih, wordsBy_cons ha]
    · rw [List.dropWhile_cons_of_neg ha]

/-- Separators at the end are nothing. -/
theorem wordsBy_rdropWhile (p : α → Bool) (s : List α) :
    wordsBy p (s.rdropWhile p) = wordsBy p s := by
  induction s using List.reverseRecOn with
  | nil => rfl
  | append_singleton s a ih =>
    by_cases ha : p a = true
    · rw [List.rdropWhile_concat_pos _ _ _ ha, ih, wordsBy_append_cons ha]
      exact (List.append_nil _).symm
    · rw [List.rdropWhile_concat_neg _ _ _ ha]

theorem wordsBy_word (hne : w ≠ []) (hw : ∀ b ∈ w, p b = false) : wordsBy p w = [w] := by
  rw [wordsBy, List.splitOnP_eq_singleton hw, List.filter_cons_of_pos (by simpa using hne),
    List.filter_nil]

/-- The words of pieces joined by one separator are the pieces. -/
theorem wordsBy_intercalate (hsep : p sep = true) {ws : List (List α)}
    (h : ∀ w ∈ ws, w ≠ [] ∧ ∀ b ∈ w, p b = false) : wordsBy p ([sep].intercalate ws) = ws := by
  induction ws with
  | nil => simp [wordsBy]
  | cons w ws ih =>
    obtain ⟨hne, hw⟩ := h w List.mem_cons_self
    rcases ws with _ | ⟨v, ws⟩
    · rw [List.intercalate_singleton, wordsBy_word hne hw]
    · rw [List.intercalate_cons_cons, List.append_assoc, List.singleton_append,
        wordsBy_append_cons hsep, wordsBy_word hne hw,
        ih fun u hu => h u (List.mem_cons_of_mem _ hu)]
      rfl

end WordsBy

/-- The words of a text, as repeated `>>` into a string reads them. -/
def words (s : Bytes) : List Bytes := (s.splitOnP isSpace).filter fun w => w ≠ []

/-- A word is not empty and contains no whitespace. -/
theorem of_mem_words {s w : Bytes} (h : w ∈ words s) : w ≠ [] ∧ ∀ b ∈ w, isSpace b = false := by
  obtain ⟨hmem, hne⟩ := List.mem_filter.mp h
  exact ⟨by simpa using hne, fun b hb => (of_mem_splitOnP hmem b hb).2⟩

/-- The words of pieces joined by one whitespace byte are the pieces. -/
theorem words_intercalate {sep : UInt8} (hsep : isSpace sep = true) {ws : List Bytes}
    (h : ∀ w ∈ ws, w ≠ [] ∧ ∀ b ∈ w, isSpace b = false) :
    words (sep :: [sep].intercalate ws) = ws :=
  (wordsBy_cons hsep _).trans (wordsBy_intercalate hsep h)

/-! ## Decimal numbers -/

/-- `std::to_string` of an unsigned number. -/
def decimal (n : ℕ) : Bytes :=
  if n = 0 then [0x30] else (Nat.digits 10 n).reverse.map fun d => UInt8.ofNat (0x30 + d)

/-- The number a string of digits writes. -/
def digitsValue (s : Bytes) : ℕ := s.foldl (fun acc b => acc * 10 + (b.toNat - 0x30)) 0

theorem decimal_ne_nil (n : ℕ) : decimal n ≠ [] := by
  unfold decimal
  split_ifs with h
  · simp
  · simpa using Nat.digits_ne_nil_iff_ne_zero.mpr h

theorem isDigit_of_mem_decimal {n : ℕ} {b : UInt8} (h : b ∈ decimal n) : isDigit b = true := by
  have hdigit : ∀ d < 10, isDigit (UInt8.ofNat (0x30 + d)) = true := by decide
  unfold decimal at h
  split_ifs at h with hn
  · rw [List.mem_singleton.mp h]
    decide
  · obtain ⟨d, hd, rfl⟩ := List.mem_map.mp h
    exact hdigit d (Nat.digits_lt_base (by norm_num) (List.mem_reverse.mp hd))

/-- Reading back a number that was written. -/
theorem digitsValue_decimal (n : ℕ) : digitsValue (decimal n) = n := by
  have hfold : ∀ (ds : List ℕ), (∀ d ∈ ds, d < 10) →
      (ds.reverse.map fun d => UInt8.ofNat (0x30 + d)).foldl
        (fun acc b => acc * 10 + (b.toNat - 0x30)) 0 = Nat.ofDigits 10 ds := by
    intro ds hds
    induction ds with
    | nil => rfl
    | cons d ds ih =>
      have hd : d < 10 := hds d List.mem_cons_self
      rw [List.reverse_cons, List.map_append, List.foldl_append,
        ih fun e he => hds e (List.mem_cons_of_mem _ he), List.map_singleton, List.foldl_cons,
        List.foldl_nil, Nat.ofDigits_cons, UInt8.toNat_ofNat', Nat.mod_eq_of_lt (by omega)]
      omega
  unfold decimal
  split_ifs with hn
  · rw [hn]
    rfl
  · rw [digitsValue, hfold _ fun d hd => Nat.digits_lt_base (by norm_num) hd, Nat.ofDigits_digits]

/-- The leading number of a string, as `strtoull` reads it: whitespace, a sign, digits; with the
rest. `none` where there is no digit. -/
def parseDecimal (s : Bytes) : Option (Bool × ℕ × Bytes) :=
  let s := s.dropWhile isSpace
  let negative := s.head? = some 0x2D
  let s := if negative ∨ s.head? = some 0x2B then s.tail else s
  if s.takeWhile isDigit = [] then none
  else some (decide negative, digitsValue (s.takeWhile isDigit), s.dropWhile isDigit)

/-- A number that was written is read back up to the byte after it. -/
theorem parseDecimal_decimal (n : ℕ) {rest : Bytes} (hrest : ∀ b ∈ rest.head?, isDigit b = false) :
    parseDecimal (decimal n ++ rest) = some (false, n, rest) := by
  obtain ⟨b, bs, hbs⟩ := List.exists_cons_of_ne_nil (decimal_ne_nil n)
  have hall : ∀ c ∈ decimal n, isDigit c = true := fun c => isDigit_of_mem_decimal
  have hb : isDigit b = true := hall b (hbs ▸ List.mem_cons_self)
  have hspace : (decimal n ++ rest).dropWhile isSpace = decimal n ++ rest := by
    rw [hbs, List.cons_append, List.dropWhile_cons_of_neg (by simp [isSpace_of_isDigit hb])]
  have hhead : (decimal n ++ rest).head? = some b := by
    rw [hbs]
    rfl
  have hminus : b ≠ 0x2D := fun h => absurd (h ▸ hb) (by decide)
  have hplus : b ≠ 0x2B := fun h => absurd (h ▸ hb) (by decide)
  have htake : (decimal n ++ rest).takeWhile isDigit = decimal n := by
    rw [List.takeWhile_append_of_pos hall]
    rcases rest with _ | ⟨c, rest⟩
    · simp
    · rw [List.takeWhile_cons_of_neg (by simp [hrest c rfl]), List.append_nil]
  have hdrop : (decimal n ++ rest).dropWhile isDigit = rest := by
    rw [List.dropWhile_append_of_pos hall]
    rcases rest with _ | ⟨c, rest⟩
    · rfl
    · rw [List.dropWhile_cons_of_neg (by simp [hrest c rfl])]
  have hsign : ¬(some b = some (0x2D : UInt8) ∨ some b = some (0x2B : UInt8)) := by
    rintro (h | h)
    · exact hminus (Option.some.inj h)
    · exact hplus (Option.some.inj h)
  simp only [parseDecimal, hspace, hhead, if_neg hsign, htake, hdrop, if_neg (decimal_ne_nil n),
    digitsValue_decimal]
  simp [hminus]

end Text
