import LeKV.Lib.KeySpace
import LeKV.Lib.SortedMap

/-!
# Range scans along a tiling

The scans of the intervals of a tiling, one after the other, visit every entry of a sorted map from
the start of the tiling on, once and in order.
-/

namespace KeySpace

variable {κ ν : Type*} [LinearOrder κ]

/-- In a sorted list, the keys from `a` up to `b` and then those from `b` on are the keys from `a`
on. -/
theorem filter_append_filter {l : List (κ × ν)} (hl : l.Pairwise fun x y => x.1 < y.1) {a b : κ}
    (hab : a ≤ b) :
    (l.filter fun e => decide (a ≤ e.1) && decide (e.1 < b)) ++ l.filter (fun e => b ≤ e.1)
      = l.filter fun e => a ≤ e.1 := by
  induction l with
  | nil => rfl
  | cons e l ih =>
    obtain ⟨hhead, htail⟩ := List.pairwise_cons.mp hl
    rcases lt_or_ge e.1 b with hlt | hge
    · have hnot : ¬b ≤ e.1 := hlt.not_ge
      by_cases ha : a ≤ e.1
      · simp only [List.filter_cons, ha, hlt, hnot, decide_true, decide_false, Bool.and_self,
          if_true, Bool.false_eq_true, if_false, List.cons_append, ih htail]
      · simp only [List.filter_cons, ha, hlt, hnot, decide_false, Bool.false_and,
          Bool.false_eq_true, if_false, ih htail]
    · -- from here on all keys are past `b`
      have hpast : ∀ f ∈ e :: l, b ≤ f.1 := by
        intro f hf
        rcases List.mem_cons.mp hf with rfl | hf
        · exact hge
        · exact hge.trans (hhead f hf).le
      have hnone : (e :: l).filter (fun e => decide (a ≤ e.1) && decide (e.1 < b)) = [] := by
        apply List.filter_eq_nil_iff.mpr
        intro f hf
        simp [(hpast f hf).not_gt]
      have hall : (e :: l).filter (fun e => b ≤ e.1) = e :: l :=
        List.filter_eq_self.mpr fun f hf => decide_eq_true (hpast f hf)
      have hall' : (e :: l).filter (fun e => a ≤ e.1) = e :: l :=
        List.filter_eq_self.mpr fun f hf => decide_eq_true (hab.trans (hpast f hf))
      rw [hnone, hall, hall', List.nil_append]

/-- The scans of the intervals of a tiling. -/
theorem TilesFrom.flatten_range {a : κ} {l : List (Interval κ)} (h : TilesFrom a l)
    (m : SortedMap κ ν) :
    (l.map fun i => m.range i.lo i.hi).flatten = m.entries.filter fun e => a ≤ e.1 := by
  induction l generalizing a with
  | nil => exact h.elim
  | cons i l ih =>
    rcases l with _ | ⟨j, l⟩
    · obtain ⟨hlo, hhi⟩ := h
      simp only [List.map_cons, List.map_nil, List.flatten_cons, List.flatten_nil, List.append_nil,
        hlo, hhi, m.range_eq_filter, SortedMap.below_none, Bool.and_true]
    · obtain ⟨hlo, hhi, hlt, hrest⟩ := h
      rw [List.map_cons, List.flatten_cons, ih hrest, hlo, hhi, m.range_eq_filter]
      exact filter_append_filter m.sorted hlt.le

end KeySpace
