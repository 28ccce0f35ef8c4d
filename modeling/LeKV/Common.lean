import LeKV.Lib.ByteString
import LeKV.Lib.KeySpace

/-!
# Shared data (`common/common.h`)

Tablets, peers and the constants of the Master. Keys are byte strings; an empty end key stands for
infinity, which `endBound` turns into `none`.
-/

namespace LeKV

/-- One peer of the configuration. -/
structure PeerInfo where
  id : UInt64
  ip : Bytes
  port : UInt16
deriving DecidableEq, Repr

/-- A range of keys and the node in charge of it. -/
structure Tablet where
  id : UInt64
  startKey : Bytes
  endKey : Bytes
  nodeId : UInt32
  keyCount : UInt64
deriving DecidableEq, Repr

def LEADER_PORT : UInt16 := 9001
def SPLIT_THRESHOLD : UInt64 := 6
def BALANCE_DIFF_THRESHOLD : UInt64 := 7

/-- The upper end an end key stands for. -/
def endBound (endKey : Bytes) : Option Bytes := if endKey = [] then none else some endKey

@[simp] theorem endBound_nil : endBound [] = none := rfl

theorem endBound_of_ne_nil {endKey : Bytes} (h : endKey ≠ []) : endBound endKey = some endKey :=
  if_neg h

/-- A byte string above another one is an upper end of its own. -/
theorem endBound_of_lt {a b : Bytes} (h : a < b) : endBound b = some b :=
  endBound_of_ne_nil (Bytes.ne_nil_of_lt h)

theorem endBound_eq_none {endKey : Bytes} : endBound endKey = none ↔ endKey = [] := by
  unfold endBound
  split_ifs with h <;> simp [h]

theorem eq_of_endBound_eq_some {endKey b : Bytes} (h : endBound endKey = some b) : endKey = b := by
  unfold endBound at h
  split_ifs at h
  exact Option.some.inj h

/-- The keys of a tablet. -/
def Tablet.interval (t : Tablet) : KeySpace.Interval Bytes := ⟨t.startKey, endBound t.endKey⟩

/-- `key` lies in `[startKey, endKey)`, with the empty end key as infinity. -/
def Tablet.Contains (t : Tablet) (key : Bytes) : Prop :=
  t.startKey ≤ key ∧ (t.endKey = [] ∨ key < t.endKey)

instance (t : Tablet) (key : Bytes) : Decidable (t.Contains key) :=
  inferInstanceAs (Decidable (_ ∧ _))

/-- A tablet's interval holds the keys it contains. -/
theorem Tablet.interval_has {t : Tablet} {key : Bytes} : t.interval.Has key ↔ t.Contains key := by
  unfold KeySpace.Interval.Has Tablet.interval Tablet.Contains endBound
  split_ifs with h <;> simp [h]

end LeKV
