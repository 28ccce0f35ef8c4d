import LeKV.Lib.ByteString

/-!
# Pieces of a stream that a separator ends

`feed sep cur l` cuts `l`, which continues the unfinished piece `cur`: the pieces that end in `l`,
each with its separator, and the unfinished rest. A stream that comes in parts gives the pieces of the
whole (`feed_append`).
-/

namespace Lines

variable {α : Type*} [DecidableEq α] {sep : α} {cur l m : List α}

/-- The pieces that end in `l`, and the unfinished piece behind them. -/
def feed (sep : α) : List α → List α → List (List α) × List α
  | cur, [] => ([], cur)
  | cur, a :: l =>
    if a = sep then ((cur ++ [a]) :: (feed sep [] l).1, (feed sep [] l).2)
    else feed sep (cur ++ [a]) l

/-- The pieces of a whole stream. -/
def pieces (sep : α) (l : List α) : List (List α) := (feed sep [] l).1

theorem feed_append (sep : α) (cur l m : List α) :
    feed sep cur (l ++ m) = ((feed sep cur l).1 ++ (feed sep (feed sep cur l).2 m).1,
      (feed sep (feed sep cur l).2 m).2) := by
  induction l generalizing cur with
  | nil => rfl
  | cons a l ih =>
    rw [List.cons_append, feed, feed]
    by_cases ha : a = sep
    · simp only [if_pos ha, ih, List.cons_append]
    · simp only [if_neg ha, ih]

/-- Without a separator, the unfinished piece grows. -/
theorem feed_of_notMem (h : sep ∉ l) : feed sep cur l = ([], cur ++ l) := by
  induction l generalizing cur with
  | nil => rw [feed, List.append_nil]
  | cons a l ih =>
    rw [List.mem_cons, not_or] at h
    rw [feed, if_neg (Ne.symm h.1), ih h.2, List.append_assoc, List.singleton_append]

/-- The first separator ends the unfinished piece. -/
theorem feed_append_cons (h : sep ∉ l) :
    feed sep cur (l ++ sep :: m) = ((cur ++ l ++ [sep]) :: (feed sep [] m).1, (feed sep [] m).2) := by
  rw [feed_append, feed_of_notMem h, feed, if_pos rfl]
  rfl

/-- The unfinished piece contains no separator. -/
theorem notMem_feed (h : sep ∉ cur) : sep ∉ (feed sep cur l).2 := by
  induction l generalizing cur with
  | nil => exact h
  | cons a l ih =>
    rw [feed]
    split_ifs with ha
    · exact ih List.not_mem_nil
    · apply ih
      rw [List.mem_append, List.mem_singleton, not_or]
      exact ⟨h, Ne.symm ha⟩

/-- An unfinished piece may as well be part of what comes. -/
theorem feed_nil_append (h : sep ∉ cur) : feed sep [] (cur ++ l) = feed sep cur l := by
  rw [feed_append, feed_of_notMem h]
  rfl

end Lines
