import Mathlib.Order.Lattice
import Mathlib.Data.List.Basic
import Mathlib.Data.List.Pairwise

/-!
# Finite maps over a linear order, kept as sorted lists

A `SortedMap κ ν` is a list of entries with strictly increasing keys: the map an ordered store
presents to an iterator. `find?` is the map it denotes, and every update is described by what
`find?` gives afterwards. `range lo hi` is what an iterator visits that seeks to the first key at or
after `lo` and walks on until a key reaches `hi`; `mem_range` says that it visits exactly the
entries whose keys lie in `[lo, hi)`.
-/

/-- A finite map from `κ` to `ν`, as the list of its entries in strictly increasing key order. -/
structure SortedMap (κ ν : Type*) [LinearOrder κ] where
  entries : List (κ × ν)
  sorted : entries.Pairwise fun a b => a.1 < b.1

namespace SortedMap

variable {κ ν : Type*} [LinearOrder κ]

/-- The map with no entry. -/
def empty : SortedMap κ ν := ⟨[], List.Pairwise.nil⟩

/-- The value stored under `k`. -/
def find? (m : SortedMap κ ν) (k : κ) : Option ν :=
  (m.entries.find? fun e => e.1 = k).map Prod.snd

/-- Keep the entries whose key satisfies `p`. -/
def filter (m : SortedMap κ ν) (p : κ → Bool) : SortedMap κ ν :=
  ⟨m.entries.filter fun e => p e.1, m.sorted.filter _⟩

/-- Remove the entry under `k`. -/
def erase (m : SortedMap κ ν) (k : κ) : SortedMap κ ν := m.filter fun j => j ≠ k

/-- Store `v` under `k`, in place of the value that was there. -/
def insert (m : SortedMap κ ν) (k : κ) (v : ν) : SortedMap κ ν where
  entries := (m.entries.filter fun e => e.1 < k) ++ (k, v) :: m.entries.filter fun e => k < e.1
  sorted := by
    refine List.pairwise_append.mpr ⟨m.sorted.filter _, ?_, ?_⟩
    · refine List.pairwise_cons.mpr ⟨fun e he => ?_, m.sorted.filter _⟩
      simpa using (List.mem_filter.mp he).2
    · intro a ha b hb
      have hak : a.1 < k := by simpa using (List.mem_filter.mp ha).2
      rcases List.mem_cons.mp hb with rfl | hb
      · exact hak
      · have hkb : k < b.1 := by simpa using (List.mem_filter.mp hb).2
        exact hak.trans hkb

/-- `k` is below the upper end `hi`; every key is below `none`. -/
def below (hi : Option κ) (k : κ) : Bool := hi.all fun h => k < h

@[simp] theorem below_none (k : κ) : below none k = true := rfl

@[simp] theorem below_some (h k : κ) : below (some h) k = decide (k < h) := rfl

/-- What an iterator visits from the first key at or after `lo` until a key reaches `hi`. -/
def range (m : SortedMap κ ν) (lo : κ) (hi : Option κ) : List (κ × ν) :=
  (m.entries.dropWhile fun e => e.1 < lo).takeWhile fun e => below hi e.1

/-! ## Entries and lookups -/

/-- Two entries under one key are the same entry. -/
theorem eq_of_mem_of_mem (m : SortedMap κ ν) {a b : κ × ν} (ha : a ∈ m.entries)
    (hb : b ∈ m.entries) (h : a.1 = b.1) : a = b := by
  have hsymm : Std.Symm fun a b : κ × ν => a.1 ≠ b.1 := ⟨fun _ _ hab => hab.symm⟩
  have hne : m.entries.Pairwise fun a b => a.1 ≠ b.1 := m.sorted.imp fun hlt => hlt.ne
  by_contra hab
  exact hne.forall ha hb hab h

/-- A key's value is the one its entry holds. -/
theorem find?_eq_some {m : SortedMap κ ν} {k : κ} {v : ν} :
    m.find? k = some v ↔ (k, v) ∈ m.entries := by
  constructor
  · intro h
    obtain ⟨⟨j, w⟩, hfind, rfl⟩ := Option.map_eq_some_iff.mp h
    have hj : j = k := by simpa using List.find?_some hfind
    exact hj ▸ List.mem_of_find?_eq_some hfind
  · intro h
    rcases hfind : m.entries.find? fun e => e.1 = k with _ | e
    · exact absurd (List.find?_eq_none.mp hfind (k, v) h) (by simp)
    · have he : e.1 = k := by simpa using List.find?_some hfind
      have heq : e = (k, v) := m.eq_of_mem_of_mem (List.mem_of_find?_eq_some hfind) h he
      rw [find?, hfind, heq]
      rfl

theorem find?_eq_none {m : SortedMap κ ν} {k : κ} :
    m.find? k = none ↔ ∀ v, (k, v) ∉ m.entries := by
  rw [← not_iff_not, ← Ne, Option.ne_none_iff_exists']
  simp only [find?_eq_some, not_forall, not_not]

@[simp] theorem find?_empty (k : κ) : (empty : SortedMap κ ν).find? k = none := rfl

theorem find?_filter (m : SortedMap κ ν) (p : κ → Bool) (k : κ) :
    (m.filter p).find? k = if p k then m.find? k else none := by
  ext v
  rw [find?_eq_some, filter, List.mem_filter]
  by_cases hp : p k = true
  · simp [hp, find?_eq_some]
  · simp [hp]

@[simp] theorem find?_erase_self (m : SortedMap κ ν) (k : κ) : (m.erase k).find? k = none := by
  simp [erase, find?_filter]

theorem find?_erase_of_ne (m : SortedMap κ ν) {j k : κ} (h : j ≠ k) :
    (m.erase k).find? j = m.find? j := by
  simp [erase, find?_filter, h]

theorem mem_insert {m : SortedMap κ ν} {k : κ} {v : ν} {e : κ × ν} :
    e ∈ (m.insert k v).entries ↔ e = (k, v) ∨ (e ∈ m.entries ∧ e.1 ≠ k) := by
  rw [insert, List.mem_append, List.mem_cons, List.mem_filter, List.mem_filter]
  simp only [decide_eq_true_eq, ne_iff_lt_or_gt (a := e.1)]
  tauto

@[simp] theorem find?_insert_self (m : SortedMap κ ν) (k : κ) (v : ν) :
    (m.insert k v).find? k = some v :=
  find?_eq_some.mpr (mem_insert.mpr (Or.inl rfl))

theorem find?_insert_of_ne (m : SortedMap κ ν) {j k : κ} (v : ν) (h : j ≠ k) :
    (m.insert k v).find? j = m.find? j := by
  ext w
  rw [find?_eq_some, mem_insert, find?_eq_some]
  constructor
  · rintro (heq | ⟨hmem, -⟩)
    · exact absurd (congrArg Prod.fst heq) h
    · exact hmem
  · exact fun hmem => Or.inr ⟨hmem, h⟩

/-! ## Range scans -/

/-- In a sorted list, dropping the keys below `lo` keeps exactly the others. -/
theorem dropWhile_eq_filter {l : List (κ × ν)} (hl : l.Pairwise fun a b => a.1 < b.1) (lo : κ) :
    (l.dropWhile fun e => e.1 < lo) = l.filter fun e => lo ≤ e.1 := by
  induction l with
  | nil => rfl
  | cons a l ih =>
    obtain ⟨hhead, htail⟩ := List.pairwise_cons.mp hl
    by_cases ha : a.1 < lo
    · rw [List.dropWhile_cons_of_pos (by simpa using ha), List.filter_cons_of_neg (by simpa using ha)]
      exact ih htail
    · rw [List.dropWhile_cons_of_neg (by simpa using ha)]
      refine (List.filter_eq_self.mpr fun b hb => ?_).symm
      rcases List.mem_cons.mp hb with rfl | hb
      · simpa using ha
      · simpa using (not_lt.mp ha).trans (hhead b hb).le

/-- In a sorted list, the keys up to the first that reaches `hi` are those below `hi`. -/
theorem takeWhile_eq_filter {l : List (κ × ν)} (hl : l.Pairwise fun a b => a.1 < b.1)
    (hi : Option κ) :
    (l.takeWhile fun e => below hi e.1) = l.filter fun e => below hi e.1 := by
  induction l with
  | nil => rfl
  | cons a l ih =>
    obtain ⟨hhead, htail⟩ := List.pairwise_cons.mp hl
    by_cases ha : below hi a.1 = true
    · rw [List.takeWhile_cons, List.filter_cons, if_pos ha, if_pos ha, ih htail]
    · rw [List.takeWhile_cons, List.filter_cons, if_neg ha, if_neg ha, eq_comm,
        List.filter_eq_nil_iff]
      intro b hb hbhi
      rcases hi with _ | h
      · exact ha rfl
      · simp only [below_some, decide_eq_true_eq] at ha hbhi
        exact ha ((hhead b hb).trans hbhi)

/-- The scan of `[lo, hi)` visits the entries whose keys lie in `[lo, hi)`. -/
theorem range_eq_filter (m : SortedMap κ ν) (lo : κ) (hi : Option κ) :
    m.range lo hi = m.entries.filter fun e => lo ≤ e.1 && below hi e.1 := by
  rw [range, dropWhile_eq_filter m.sorted, takeWhile_eq_filter (m.sorted.filter _),
    List.filter_filter]
  apply List.filter_congr
  intro e _
  rw [Bool.and_comm]

theorem mem_range {m : SortedMap κ ν} {lo : κ} {hi : Option κ} {e : κ × ν} :
    e ∈ m.range lo hi ↔ e ∈ m.entries ∧ lo ≤ e.1 ∧ ∀ h ∈ hi, e.1 < h := by
  rw [range_eq_filter, List.mem_filter]
  rcases hi with _ | h <;> simp

theorem range_sorted (m : SortedMap κ ν) (lo : κ) (hi : Option κ) :
    (m.range lo hi).Pairwise fun a b => a.1 < b.1 := by
  rw [range_eq_filter]
  exact m.sorted.filter _

/-! ## Many removals -/

/-- Remove the keys of `ks`, from left to right. -/
def eraseAll (m : SortedMap κ ν) (ks : List κ) : SortedMap κ ν := ks.foldl erase m

/-- Removing keys removes these keys and no other. -/
theorem find?_eraseAll (m : SortedMap κ ν) (ks : List κ) (k : κ) :
    (m.eraseAll ks).find? k = if k ∈ ks then none else m.find? k := by
  induction ks generalizing m with
  | nil => simp [eraseAll]
  | cons j ks ih =>
    rw [eraseAll, List.foldl_cons, ← eraseAll, ih]
    by_cases hmem : k ∈ ks
    · simp [hmem]
    · by_cases hjk : k = j
      · simp [hjk]
      · simp [hmem, hjk, find?_erase_of_ne]

end SortedMap
