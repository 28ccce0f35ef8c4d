import LeKV.Lib.Effects
import LeKV.Storage.StorageEngine

/-!
# The storage engine, one LevelDB call at a time

LevelDB makes each of its calls atomic; the engine's functions are programs over them. `Put`, `Delete`
and `Get` make one call. `RangeQuery` reads an iterator, which shows the database as it was when the
iterator was made, so it makes one call too. `DeleteRange` makes an iterator and then one call for each
key. The `run_*` lemmas say that a function that runs alone does what the model of it in
`StorageEngine` does; `mem_trace_deleteRange` says what others can see while `DeleteRange` runs.
-/

namespace LeKV

open Effects Prog

/-- The calls of LevelDB. -/
inductive LevelDbOp where
  | put (key value : Bytes)
  | delete (key : Bytes)
  | get (key : Bytes)
  | newIterator

/-- A write returns whether its status is ok, an iterator is the map it runs over. -/
def LevelDb : Signature where
  Op := LevelDbOp
  Res
    | .put .. => Bool
    | .delete _ => Bool
    | .get _ => Option Bytes
    | .newIterator => SortedMap Bytes Bytes

namespace LevelDb

/-- What the calls do. -/
def handler : Handler LevelDb StorageEngine
  | .put key value, s => some (s.put key value)
  | .delete key, s => some (s.delete key)
  | .get key, s => some (s.get key, s)
  | .newIterator, s => some (s.db, s)

/-- `StorageEngine::Put`. -/
def put (key value : Bytes) : Prog LevelDb Bool := .op (.put key value) .ret

/-- `StorageEngine::Delete`. -/
def delete (key : Bytes) : Prog LevelDb Bool := .op (.delete key) .ret

/-- `StorageEngine::Get`. -/
def get (key : Bytes) : Prog LevelDb (Option Bytes) := .op (.get key) .ret

/-- `StorageEngine::RangeQuery`, with a callback that never stops it. -/
def rangeQuery (start end_ : Bytes) : Prog LevelDb (List (Bytes × Bytes)) :=
  .op .newIterator fun db => .ret (db.range start (endBound end_))

/-- `StorageEngine::RangeStats`. -/
def rangeStats (start end_ : Bytes) : Prog LevelDb (ℕ × Bytes) := do
  let pairs ← rangeQuery start end_
  let keys := pairs.map Prod.fst
  return (keys.length, keys.getD (keys.length / 2) [])

/-- The second loop of `StorageEngine::DeleteRange`. -/
def deleteKeys : List Bytes → Prog LevelDb Unit
  | [] => .ret ()
  | key :: keys => .op (.delete key) fun _ => deleteKeys keys

/-- `StorageEngine::DeleteRange`. -/
def deleteRange (start end_ : Bytes) : Prog LevelDb Bool := do
  let pairs ← rangeQuery start end_
  deleteKeys (pairs.map Prod.fst)
  return true

/-! ## A function that runs alone -/

section Run

variable (s : StorageEngine) (key value start end_ : Bytes)

theorem run_put : run handler (put key value) s = (some (s.put key value).1, (s.put key value).2) := rfl

theorem run_delete : run handler (delete key) s = (some (s.delete key).1, (s.delete key).2) := rfl

theorem run_get : run handler (get key) s = (some (s.get key), s) := rfl

theorem run_rangeQuery : run handler (rangeQuery start end_) s = (some (s.rangeQuery start end_), s) :=
  rfl

theorem run_rangeStats : run handler (rangeStats start end_) s = (some (s.rangeStats start end_), s) :=
  rfl

/-- The store after the single deletions. -/
def deleted (s : StorageEngine) (keys : List Bytes) : StorageEngine :=
  keys.foldl (fun s key => (s.delete key).2) s

theorem run_deleteKeys (keys : List Bytes) :
    run handler (deleteKeys keys) s = (some (), deleted s keys) := by
  induction keys generalizing s with
  | nil => rfl
  | cons key keys ih => exact ih (s.delete key).2

theorem run_deleteRange : run handler (deleteRange start end_) s
    = (some (s.deleteRange start end_).1, (s.deleteRange start end_).2) := by
  rw [deleteRange, run_bind_some handler (run_rangeQuery s start end_),
    run_bind_some handler (run_deleteKeys s _)]
  rfl

end Run

/-! ## What others see meanwhile -/

section Trace

variable {s s' : StorageEngine} {keys : List Bytes} {key : Bytes}

/-- A deletion of several keys passes through the states in which some first keys are done. -/
theorem mem_trace_deleteKeys {α : Type} {f : Unit → Prog LevelDb α} (hf : ∀ s, trace handler (f ()) s = [s]) :
    s' ∈ trace handler (deleteKeys keys >>= f) s ↔ ∃ done, done <+: keys ∧ s' = deleted s done := by
  induction keys generalizing s with
  | nil =>
    show s' ∈ trace handler (f ()) s ↔ _
    simp [hf, deleted]
  | cons key keys ih =>
    show s' ∈ s :: trace handler (deleteKeys keys >>= f) (s.delete key).2 ↔ _
    rw [List.mem_cons, ih]
    constructor
    · rintro (rfl | ⟨done, hdone, rfl⟩)
      · exact ⟨[], List.nil_prefix, rfl⟩
      · exact ⟨key :: done, List.cons_prefix_cons.mpr ⟨rfl, hdone⟩, rfl⟩
    · rintro ⟨done, hdone, rfl⟩
      cases done with
      | nil => exact .inl rfl
      | cons key' done =>
        obtain ⟨rfl, hrest⟩ := List.cons_prefix_cons.mp hdone
        exact .inr ⟨done, hrest, rfl⟩

/-- While a range is deleted, some first keys of the range are gone. -/
theorem mem_trace_deleteRange {start end_ : Bytes} :
    s' ∈ trace handler (deleteRange start end_) s ↔
      ∃ done, done <+: (s.rangeQuery start end_).map Prod.fst ∧ s' = deleted s done := by
  show s' ∈ s :: trace handler (deleteKeys ((s.rangeQuery start end_).map Prod.fst) >>= fun _ => .ret true) s ↔ _
  rw [List.mem_cons, mem_trace_deleteKeys fun _ => rfl]
  refine or_iff_right_of_imp ?_
  rintro rfl
  exact ⟨[], List.nil_prefix, rfl⟩

/-- A deletion leaves the other keys, and takes the key or leaves it. -/
theorem find?_delete (s : StorageEngine) (key k : Bytes) :
    (s.delete key).2.db.find? k = s.db.find? k ∨ k = key ∧ (s.delete key).2.db.find? k = none := by
  show (if s.outcomes.headD true = true then s.db.erase key else s.db).find? k = _ ∨ _
  by_cases hk : k = key
  · subst hk
    by_cases hok : s.outcomes.headD true = true
    · refine .inr ⟨rfl, ?_⟩
      show (if s.outcomes.headD true = true then s.db.erase k else s.db).find? k = none
      rw [if_pos hok, SortedMap.find?_erase_self]
    · rw [if_neg hok]
      exact .inl rfl
  · refine .inl ?_
    split_ifs
    · exact SortedMap.find?_erase_of_ne _ hk
    · rfl

/-- Keys that are not among the deleted ones keep their values, the others keep them or are gone. -/
theorem find?_deleted (s : StorageEngine) (keys : List Bytes) (k : Bytes) :
    (deleted s keys).db.find? k = s.db.find? k ∨ k ∈ keys ∧ (deleted s keys).db.find? k = none := by
  induction keys generalizing s with
  | nil => exact .inl rfl
  | cons key keys ih =>
    rcases ih (s.delete key).2 with hlater | ⟨hmem, hgone⟩
    · rcases find?_delete s key k with hfirst | ⟨rfl, hgone⟩
      · exact .inl (hlater.trans hfirst)
      · exact .inr ⟨List.mem_cons_self, hlater.trans hgone⟩
    · exact .inr ⟨List.mem_cons_of_mem _ hmem, hgone⟩

end Trace

end LevelDb

end LeKV
