import LeKV.Kv.DataNode

/-!
# The length checks of the key-value requests

`PUT`, `GET` and `DELETE` share one layout, `[opcode][2B key_len][4B val_len][key][value]`, and each
handler checks it on its own. `putChecked_iff` and `sameChecks_iff` say on which payloads of any
bytes the checks do what they are for.
-/

namespace LeKV.DataNode

open Bytes BinaryProtocol

/-- The length field of the key. -/
def keyLen (payload : Bytes) : ℕ := readBE ((payload.drop 1).take 2)

/-- The length field of the value. -/
def valLen (payload : Bytes) : ℕ := readBE ((payload.drop 3).take 4)

/-- The key that the length field delimits. -/
def keyBytes (payload : Bytes) : Bytes := (payload.drop 7).take (keyLen payload)

/-- The value behind the key. -/
def valueBytes (payload : Bytes) : Bytes :=
  (payload.drop (7 + keyLen payload)).take (valLen payload)

theorem numAt_keyLen {payload : Bytes} (h : 7 ≤ payload.length) :
    numAt payload 1 2 = some (keyLen payload) := numAt_of_le (by omega)

theorem numAt_valLen {payload : Bytes} (h : 7 ≤ payload.length) :
    numAt payload 3 4 = some (valLen payload) := numAt_of_le (by omega)

theorem keyLen_lt (payload : Bytes) : keyLen payload < 2 ^ 16 :=
  (readBE_take_lt _ 2).trans_le (by norm_num)

theorem valLen_lt (payload : Bytes) : valLen payload < 2 ^ 32 :=
  (readBE_take_lt _ 4).trans_le (by norm_num)

/-! ## `PUT` -/

/-- What the checks of `HandleDataNodePut` are for: a payload that ends before its value is refused,
and any other is stored under the key and with the value it delimits. -/
structure PutChecked (payload : Bytes) (n : DataNode) : Prop where
  refused : payload.length < 7 + keyLen payload + valLen payload →
    handleDataNodePut payload n = some ([ST_BAD_REQUEST], n)
  stored : 7 + keyLen payload + valLen payload ≤ payload.length →
    handleDataNodePut payload n = some (n.put (keyBytes payload) (valueBytes payload))

/-- The payload holds its length fields but not what they count, and their sum passes `2 ^ 32` by no
more than the payload holds. -/
structure SumWraps (payload : Bytes) : Prop where
  seven_le : 7 ≤ payload.length
  lt_sum : payload.length < 7 + keyLen payload + valLen payload
  wraps : 2 ^ 32 ≤ 7 + keyLen payload + valLen payload
  excess_le : 7 + keyLen payload + valLen payload - 2 ^ 32 ≤ payload.length

/-- `HandleDataNodePut` on a payload with its length fields. -/
theorem handleDataNodePut_eq {payload : Bytes} (h : 7 ≤ payload.length) (n : DataNode) :
    handleDataNodePut payload n =
      if payload.length < (7 + keyLen payload + valLen payload) % 2 ^ 32 then
        some ([ST_BAD_REQUEST], n)
      else
        (bytesAt payload 7 (keyLen payload)).bind fun key =>
          (bytesAt payload (7 + keyLen payload) (valLen payload)).map fun value =>
            n.put key value := by
  unfold handleDataNodePut
  rw [if_neg (Nat.not_lt.mpr h), numAt_keyLen h, numAt_valLen h]
  simp only [Option.bind_eq_bind, Option.bind_some]
  by_cases hshort : payload.length < (7 + keyLen payload + valLen payload) % 2 ^ 32
  · rw [if_pos hshort, if_pos hshort]
    rfl
  · rw [if_neg hshort, if_neg hshort]
    rcases bytesAt payload 7 (keyLen payload) with _ | key
    · rfl
    · rcases bytesAt payload (7 + keyLen payload) (valLen payload) with _ | value
      · rfl
      · rfl

/-- A payload without length fields is refused. -/
theorem handleDataNodePut_short {payload : Bytes} (h : payload.length < 7) (n : DataNode) :
    handleDataNodePut payload n = some ([ST_BAD_REQUEST], n) := by
  unfold handleDataNodePut
  rw [if_pos h]
  rfl

/-- The checks of `PUT` hold up on every payload but those whose lengths wrap. -/
theorem putChecked_iff (payload : Bytes) (n : DataNode) :
    PutChecked payload n ↔ ¬SumWraps payload := by
  rcases Nat.lt_or_ge payload.length 7 with hlt | hseven
  · refine iff_of_true ⟨fun _ => handleDataNodePut_short hlt n, fun hle => ?_⟩ fun hwraps => ?_
    · omega
    · exact absurd hwraps.seven_le (Nat.not_le.mpr hlt)
  have hkey := keyLen_lt payload
  have hval := valLen_lt payload
  constructor
  · -- where the lengths wrap the value is read past the end
    intro h hwraps
    have hover := hwraps.lt_sum
    have hexcess := hwraps.excess_le
    have hwrap := hwraps.wraps
    have hrefused := h.refused hover
    have hnone : bytesAt payload (7 + keyLen payload) (valLen payload) = none :=
      bytesAt_eq_none.mpr hover
    rw [handleDataNodePut_eq hseven, if_neg (by omega), hnone] at hrefused
    rcases bytesAt payload 7 (keyLen payload) with _ | key
    · exact absurd hrefused (by simp)
    · exact absurd hrefused (by simp)
  · intro hwraps
    refine ⟨fun hover => ?_, fun hle => ?_⟩
    · have hlt : payload.length < (7 + keyLen payload + valLen payload) % 2 ^ 32 := by
        by_contra hge
        exact hwraps ⟨hseven, hover, by omega, by omega⟩
      rw [handleDataNodePut_eq hseven, if_pos hlt]
    · have hmod := Nat.mod_le (7 + keyLen payload + valLen payload) (2 ^ 32)
      rw [handleDataNodePut_eq hseven, if_neg (by omega), bytesAt_of_le (by omega),
        Option.bind_some, bytesAt_of_le (by omega), Option.map_some]
      rfl

/-- Eleven bytes with `key_len` 4 and `val_len` `0xFFFFFFFF`: the sum wraps to 10. -/
theorem not_putChecked_wraps : ¬∀ (payload : Bytes) (n : DataNode), PutChecked payload n := by
  intro h
  have hrefused := (h [0x03, 0, 4, 0xFF, 0xFF, 0xFF, 0xFF, 1, 2, 3, 4] ⟨none⟩).refused (by decide)
  have hnone : handleDataNodePut [0x03, 0, 4, 0xFF, 0xFF, 0xFF, 0xFF, 1, 2, 3, 4] ⟨none⟩ = none := by
    decide +kernel
  exact absurd (hnone.symm.trans hrefused) (by simp)

/-! ## `GET` and `DELETE` -/

/-- The payloads that `GET` and `DELETE` are to refuse. -/
def BadKeyRequest (payload : Bytes) : Prop :=
  payload.length < 7 ∨ valLen payload ≠ 0 ∨ payload.length < 7 + keyLen payload

/-- `GET` and `DELETE` refuse the same payloads, act on the same key of any other, and read nothing
outside the payload. -/
structure SameChecks (payload : Bytes) (n : DataNode) : Prop where
  get_refused : (handleDataNodeGet payload n).map Prod.fst = some [ST_BAD_REQUEST] ↔
    BadKeyRequest payload
  delete_refused : (handleDataNodeDelete payload n).map Prod.fst = some [ST_BAD_REQUEST] ↔
    BadKeyRequest payload
  get_key : ¬BadKeyRequest payload →
    handleDataNodeGet payload n = some (n.get (keyBytes payload))
  delete_key : ¬BadKeyRequest payload →
    handleDataNodeDelete payload n = some (n.delete (keyBytes payload))

/-- `HandleDataNodeGet` on a payload with its length fields. -/
theorem handleDataNodeGet_eq {payload : Bytes} (h : 7 ≤ payload.length) (n : DataNode) :
    handleDataNodeGet payload n =
      if valLen payload ≠ 0 then some ([ST_BAD_REQUEST], n)
      else (bytesAt payload 7 (keyLen payload)).map n.get := by
  unfold handleDataNodeGet
  rw [if_neg (Nat.not_lt.mpr h), numAt_keyLen h, numAt_valLen h]
  simp only [Option.bind_eq_bind, Option.bind_some]
  by_cases hval : valLen payload ≠ 0
  · rw [if_pos hval, if_pos hval]
    rfl
  · rw [if_neg hval, if_neg hval]
    rcases bytesAt payload 7 (keyLen payload) with _ | key
    · rfl
    · rfl

/-- `HandleDataNodeDelete` on a payload with its length fields. -/
theorem handleDataNodeDelete_eq {payload : Bytes} (h : 7 ≤ payload.length) (n : DataNode) :
    handleDataNodeDelete payload n =
      if valLen payload ≠ 0 ∨ payload.length < 7 + keyLen payload then
        some ([ST_BAD_REQUEST], n)
      else some (n.delete (keyBytes payload)) := by
  unfold handleDataNodeDelete
  rw [if_neg (Nat.not_lt.mpr h), numAt_keyLen h, numAt_valLen h]
  simp only [Option.bind_eq_bind, Option.bind_some]
  by_cases hval : valLen payload ≠ 0
  · rw [if_pos hval, if_pos (.inl hval)]
    rfl
  rw [if_neg hval]
  by_cases hend : payload.length < 7 + keyLen payload
  · rw [if_pos hend, if_pos (.inr hend)]
    rfl
  · have hgood : ¬(valLen payload ≠ 0 ∨ payload.length < 7 + keyLen payload) :=
      fun h => h.elim hval hend
    rw [if_neg hend, if_neg hgood, bytesAt_of_le (not_lt.mp hend), Option.bind_some]
    rfl

/-- With storage open, a key is never answered with `ST_BAD_REQUEST`. -/
theorem get_fst_ne (s : StorageEngine) (key : Bytes) :
    (DataNode.get ⟨some s⟩ key).1 ≠ [ST_BAD_REQUEST] := by
  rcases hvalue : s.get key with _ | value
  · simp only [DataNode.get, hvalue]
    decide
  · simp only [DataNode.get, hvalue, ne_eq, List.cons.injEq, not_and]
    exact fun h => absurd h (by decide)

theorem delete_fst_ne (s : StorageEngine) (key : Bytes) :
    (DataNode.delete ⟨some s⟩ key).1 ≠ [ST_BAD_REQUEST] := by
  rcases hok : (s.delete key).1 with _ | _
  · simp only [DataNode.delete, hok]
    decide
  · simp only [DataNode.delete, hok]
    decide

/-- With storage open, `GET` and `DELETE` check alike on every payload but those that end inside
their key. -/
theorem sameChecks_iff (payload : Bytes) (s : StorageEngine) :
    SameChecks payload ⟨some s⟩ ↔
      ¬(7 ≤ payload.length ∧ valLen payload = 0 ∧ payload.length < 7 + keyLen payload) := by
  rcases Nat.lt_or_ge payload.length 7 with hlt | hseven
  · have hbad : BadKeyRequest payload := .inl hlt
    have hget : handleDataNodeGet payload ⟨some s⟩ = some ([ST_BAD_REQUEST], ⟨some s⟩) := if_pos hlt
    have hdelete : handleDataNodeDelete payload ⟨some s⟩ = some ([ST_BAD_REQUEST], ⟨some s⟩) :=
      if_pos hlt
    refine iff_of_true ⟨?_, ?_, fun h => absurd hbad h, fun h => absurd hbad h⟩ fun h => ?_
    · rw [hget]
      exact iff_of_true rfl hbad
    · rw [hdelete]
      exact iff_of_true rfl hbad
    · exact absurd h.1 (Nat.not_le.mpr hlt)
  have hget := handleDataNodeGet_eq hseven ⟨some s⟩
  have hdelete := handleDataNodeDelete_eq hseven ⟨some s⟩
  by_cases hval : valLen payload ≠ 0
  · have hbad : BadKeyRequest payload := .inr (.inl hval)
    rw [if_pos hval] at hget
    rw [if_pos (.inl hval)] at hdelete
    refine iff_of_true ⟨?_, ?_, fun h => absurd hbad h, fun h => absurd hbad h⟩ fun h => hval h.2.1
    · rw [hget]
      exact iff_of_true rfl hbad
    · rw [hdelete]
      exact iff_of_true rfl hbad
  rw [if_neg hval] at hget
  by_cases hend : payload.length < 7 + keyLen payload
  · -- `DELETE` refuses the payload, `GET` reads its key past the end
    refine iff_of_false (fun h => ?_) (not_not.mpr ⟨hseven, not_not.mp hval, hend⟩)
    have hrefused := h.get_refused.mpr (.inr (.inr hend))
    rw [hget, bytesAt_eq_none.mpr hend] at hrefused
    exact absurd hrefused (by simp)
  · have hgood : ¬BadKeyRequest payload := by
      rintro (h | h | h)
      · exact absurd hseven (Nat.not_le.mpr h)
      · exact hval h
      · exact hend h
    rw [bytesAt_of_le (not_lt.mp hend), Option.map_some] at hget
    rw [if_neg fun h => h.elim hval hend] at hdelete
    refine iff_of_true ⟨?_, ?_, fun _ => hget, fun _ => hdelete⟩ fun h => hend h.2.2
    · rw [hget]
      exact iff_of_false (fun h => get_fst_ne s _ (Option.some.inj h)) hgood
    · rw [hdelete]
      exact iff_of_false (fun h => delete_fst_ne s _ (Option.some.inj h)) hgood

/-- Seven bytes with `key_len` 1: `DELETE` refuses them, `GET` reads behind them. -/
theorem not_sameChecks_truncated :
    ¬∀ (payload : Bytes) (s : StorageEngine), SameChecks payload ⟨some s⟩ := by
  intro h
  have hrefused := (h [0x02, 0, 1, 0, 0, 0, 0] ⟨SortedMap.empty, []⟩).get_refused.mpr
    (.inr (.inr (by decide)))
  have hnone : handleDataNodeGet [0x02, 0, 1, 0, 0, 0, 0] ⟨some ⟨SortedMap.empty, []⟩⟩ = none := by
    decide +kernel
  rw [hnone] at hrefused
  exact absurd hrefused (by simp)

end LeKV.DataNode
