import Mathlib.Data.List.Rotate

/-!
# Windows of a ring buffer

A buffer that is read and written round and round. `window buf start len` are the `len` elements from
position `start` on, where positions count on past the end of the buffer and are taken modulo its
length. `splice` overwrites a contiguous region; behind a window, and together with it not longer
than the buffer, the region extends the window (`window_splice`).
-/

namespace Ring

variable {α : Type*} {buf data : List α} {start len len' pos : ℕ}

/-- The `len` elements from position `start` on. -/
def window (buf : List α) (start len : ℕ) : List α := (buf.rotate start).take len

/-- The buffer with `data` written from `pos` on. -/
def splice (buf : List α) (pos : ℕ) (data : List α) : List α :=
  buf.take pos ++ data ++ buf.drop (pos + data.length)

theorem length_window (h : len ≤ buf.length) : (window buf start len).length = len := by
  rw [window, List.length_take_of_le (by rwa [List.length_rotate])]

theorem window_zero (buf : List α) (start : ℕ) : window buf start 0 = [] := List.take_zero

/-- Only the position modulo the length matters. -/
theorem window_congr {start' : ℕ} (h : start % buf.length = start' % buf.length) :
    window buf start len = window buf start' len := by
  rw [window, window, ← List.rotate_mod, h, List.rotate_mod]

/-- The elements of a window, by position. -/
theorem getElem?_window {i : ℕ} (hi : i < len) (hlen : len ≤ buf.length) :
    (window buf start len)[i]? = buf[(start + i) % buf.length]? := by
  rw [window, List.getElem?_take_of_lt hi, List.getElem?_rotate (hi.trans_le hlen), Nat.add_comm]

theorem window_add (h : len + len' ≤ buf.length) :
    window buf start (len + len') = window buf start len ++ window buf (start + len) len' := by
  have hlen : len ≤ (buf.rotate start).length := by
    rw [List.length_rotate]
    omega
  have hrest : len' ≤ ((buf.rotate start).drop len).length := by
    rw [List.length_drop, List.length_rotate]
    omega
  rw [window, window, window, List.take_add, ← List.rotate_rotate,
    List.rotate_eq_drop_append_take hlen, List.take_append_of_le_length hrest]

/-- A window that does not wrap is a contiguous region. -/
theorem window_eq_take_drop (h : start % buf.length + len ≤ buf.length) :
    window buf start len = (buf.drop (start % buf.length)).take len := by
  have hdrop : len ≤ (buf.drop (start % buf.length)).length := by
    rw [List.length_drop]
    omega
  rw [window, List.rotate_eq_drop_append_take_mod, List.take_append_of_le_length hdrop]

/-! ## Writing behind a window -/

/-- The region behind a window shares no position with it. -/
theorem window_disjoint {L : ℕ} (hlen : len + len' ≤ L) (hfit : (start + len) % L + len' ≤ L) {i : ℕ}
    (hi : i < len) :
    ¬((start + len) % L ≤ (start + i) % L ∧ (start + i) % L < (start + len) % L + len') := by
  rintro ⟨hle, hlt⟩
  obtain ⟨j, hj⟩ := Nat.exists_eq_add_of_le hle
  have hlt' : (start + len) % L + j < L := by
    have : (start + i) % L < L := Nat.mod_lt _ (by omega)
    omega
  -- position `i` of the window is position `len + j`, less than one round further on
  have hmod : (start + (len + j)) % L = (start + i) % L := by
    rw [hj, ← Nat.add_assoc, Nat.add_mod, Nat.mod_eq_of_lt (by omega : j < L),
      Nat.mod_eq_of_lt hlt']
  have hdvd : L ∣ start + (len + j) - (start + i) :=
    Nat.dvd_of_mod_eq_zero (Nat.sub_mod_eq_zero_of_mod_eq hmod)
  have hle' : L ≤ start + (len + j) - (start + i) := Nat.le_of_dvd (by omega) hdvd
  omega

theorem length_splice (h : pos + data.length ≤ buf.length) :
    (splice buf pos data).length = buf.length := by
  rw [splice, List.length_append, List.length_append, List.length_take_of_le (by omega),
    List.length_drop]
  omega

theorem getElem?_splice_of_not {i : ℕ} (h : pos + data.length ≤ buf.length)
    (hi : ¬(pos ≤ i ∧ i < pos + data.length)) : (splice buf pos data)[i]? = buf[i]? := by
  have htake : (buf.take pos).length = pos := List.length_take_of_le (by omega)
  rcases Nat.lt_or_ge i pos with hlt | hge
  · rw [splice, List.append_assoc, List.getElem?_append_left (by omega),
      List.getElem?_take_of_lt hlt]
  · have hbehind : pos + data.length ≤ i := by omega
    rw [splice, List.getElem?_append_right (by rw [List.length_append]; omega), List.length_append,
      htake, List.getElem?_drop, Nat.add_sub_of_le hbehind]

theorem take_drop_splice (h : pos + data.length ≤ buf.length) :
    ((splice buf pos data).drop pos).take data.length = data := by
  have htake : (buf.take pos).length = pos := List.length_take_of_le (by omega)
  rw [splice, List.append_assoc, List.drop_left' htake, List.take_left]

/-- Data written behind a window is the window's new end. -/
theorem window_splice (hpos : pos = (start + len) % buf.length)
    (hfit : pos + data.length ≤ buf.length) (hlen : len + data.length ≤ buf.length) :
    window (splice buf pos data) start (len + data.length) = window buf start len ++ data := by
  have hsame := length_splice hfit
  rw [window_add (by rw [hsame]; exact hlen)]
  congr 1
  · refine List.ext_getElem? fun i => ?_
    rcases Nat.lt_or_ge i len with hi | hi
    · rw [getElem?_window hi (by rw [hsame]; omega), getElem?_window hi (by omega), hsame,
        getElem?_splice_of_not hfit (hpos ▸ window_disjoint hlen (hpos ▸ hfit) hi)]
    · rw [List.getElem?_eq_none (by rw [length_window (by rw [hsame]; omega)]; exact hi),
        List.getElem?_eq_none (by rw [length_window (by omega)]; exact hi)]
  · rw [window_eq_take_drop (by rw [hsame, ← hpos]; exact hfit), hsame, ← hpos,
      take_drop_splice hfit]

end Ring
