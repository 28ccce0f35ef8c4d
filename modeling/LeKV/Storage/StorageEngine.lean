import LeKV.Common
import LeKV.Lib.SortedMap

/-!
# The storage engine (`storage/storage_engine.cpp`)

LevelDB is an ordered map of byte strings. A write may fail and then leaves the map as it was: the
engine carries the outcomes its next writes will have, and writes beyond that list succeed.
-/

namespace LeKV

/-- A DataNode's store. -/
structure StorageEngine where
  db : SortedMap Bytes Bytes
  outcomes : List Bool

namespace StorageEngine

/-- An empty store whose writes all succeed. -/
def fresh : StorageEngine := ⟨.empty, []⟩

/-- One LevelDB write: its status, and the store afterwards. -/
def write (s : StorageEngine) (f : SortedMap Bytes Bytes → SortedMap Bytes Bytes) :
    Bool × StorageEngine :=
  (s.outcomes.headD true,
    ⟨if s.outcomes.headD true then f s.db else s.db, s.outcomes.tail⟩)

/-- `StorageEngine::Put`. -/
def put (s : StorageEngine) (key value : Bytes) : Bool × StorageEngine :=
  s.write fun db => db.insert key value

/-- `StorageEngine::Get`. -/
def get (s : StorageEngine) (key : Bytes) : Option Bytes := s.db.find? key

/-- `StorageEngine::Delete`. -/
def delete (s : StorageEngine) (key : Bytes) : Bool × StorageEngine :=
  s.write fun db => db.erase key

/-- `StorageEngine::RangeQuery` with a callback that never stops it: the pairs it visits. -/
def rangeQuery (s : StorageEngine) (start end_ : Bytes) : List (Bytes × Bytes) :=
  s.db.range start (endBound end_)

/-- `StorageEngine::RangeStats`: the number of keys in the range and the key in the middle. -/
def rangeStats (s : StorageEngine) (start end_ : Bytes) : ℕ × Bytes :=
  let keys := (s.rangeQuery start end_).map Prod.fst
  (keys.length, keys.getD (keys.length / 2) [])

/-- `StorageEngine::DeleteRange`: collect the keys of the range, then delete them one by one. The
outcome of a single deletion is not looked at. -/
def deleteRange (s : StorageEngine) (start end_ : Bytes) : Bool × StorageEngine :=
  (true, ((s.rangeQuery start end_).map Prod.fst).foldl (fun s key => (s.delete key).2) s)

/-! ## A store whose writes succeed -/

@[simp] theorem put_ok {s : StorageEngine} (h : s.outcomes = []) (key value : Bytes) :
    s.put key value = (true, ⟨s.db.insert key value, []⟩) := by
  simp [put, write, h]

@[simp] theorem delete_ok {s : StorageEngine} (h : s.outcomes = []) (key : Bytes) :
    s.delete key = (true, ⟨s.db.erase key, []⟩) := by
  simp [delete, write, h]

theorem mem_rangeQuery {s : StorageEngine} {start end_ : Bytes} {e : Bytes × Bytes} :
    e ∈ s.rangeQuery start end_ ↔
      s.db.find? e.1 = some e.2 ∧ start ≤ e.1 ∧ (end_ = [] ∨ e.1 < end_) := by
  rw [rangeQuery, SortedMap.mem_range, SortedMap.find?_eq_some]
  unfold endBound
  split_ifs with h <;> simp [h]

/-- The visited keys strictly increase. -/
theorem rangeQuery_sorted (s : StorageEngine) (start end_ : Bytes) :
    (s.rangeQuery start end_).Pairwise fun a b => a.1 < b.1 :=
  s.db.range_sorted _ _

/-- A range deletion whose single deletions succeed removes the keys of the range. -/
theorem deleteRange_ok {s : StorageEngine} (h : s.outcomes = []) (start end_ : Bytes) :
    s.deleteRange start end_
      = (true, ⟨s.db.eraseAll ((s.rangeQuery start end_).map Prod.fst), []⟩) := by
  rw [deleteRange]
  generalize (s.rangeQuery start end_).map Prod.fst = keys
  apply congrArg (true, ·)
  induction keys generalizing s with
  | nil => rw [List.foldl_nil, SortedMap.eraseAll, List.foldl_nil, ← h]
  | cons key keys ih =>
    rw [List.foldl_cons, delete_ok h, ih rfl, SortedMap.eraseAll, SortedMap.eraseAll,
      List.foldl_cons]

end StorageEngine

end LeKV
