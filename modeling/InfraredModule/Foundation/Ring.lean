import Mathlib.Data.List.Basic
import Mathlib.Tactic.Common

/-!
# Ring buffers

A block of `size` cells that a writer fills from a position on, starting over at its end, and
that a reader copies out in one piece or two. `slice_fill` is the round trip: what was written
last, as long as it is no more than the block holds, is what the reader finds at the position
where the writer began.
-/

set_option autoImplicit false

namespace InfraredModule.Foundation.Ring

variable {α : Type}

/-- The position after `pos`. -/
def succ (size pos : ℕ) : ℕ := if pos + 1 = size then 0 else pos + 1

/-- Write items one after the other from a position on. -/
def fill (size : ℕ) : List α → ℕ → List α → List α × ℕ
  | cells, pos, [] => (cells, pos)
  | cells, pos, x :: xs => fill size (cells.set pos x) (succ size pos) xs

/-- Copy `n` cells from a position on: in one piece if they end before the block does, else what is
left of the block and then its beginning. -/
def slice (size : ℕ) (cells : List α) (pos n : ℕ) : List α :=
  if pos + n < size then (cells.drop pos).take n
  else (cells.drop pos).take (size - pos) ++ cells.take (n + pos - size)

/-- Filling goes on where it stopped. -/
theorem fill_append (size : ℕ) (cells : List α) (pos : ℕ) (xs ys : List α) :
    fill size cells pos (xs ++ ys) =
      fill size (fill size cells pos xs).1 (fill size cells pos xs).2 ys := by
  induction xs generalizing cells pos with
  | nil => rfl
  | cons x xs ih => exact ih _ _

/-- Filling does not change the number of cells. -/
theorem length_fill (size : ℕ) (cells : List α) (pos : ℕ) (xs : List α) :
    (fill size cells pos xs).1.length = cells.length := by
  induction xs generalizing cells pos with
  | nil => rfl
  | cons x xs ih => exact (ih _ _).trans List.length_set

/-- As long as the end of the block is not passed the items replace the cells from `pos` on. -/
theorem fill_within {size : ℕ} {cells : List α} {pos : ℕ} {xs : List α}
    (hcells : cells.length = size) (hfit : pos + xs.length ≤ size) (hpos : pos < size) :
    fill size cells pos xs = (cells.take pos ++ xs ++ cells.drop (pos + xs.length),
      if pos + xs.length = size then 0 else pos + xs.length) := by
  induction xs generalizing cells pos with
  | nil => simp [fill, Nat.ne_of_lt hpos]
  | cons x xs ih =>
    have hset : cells.set pos x = cells.take pos ++ x :: cells.drop (pos + 1) :=
      List.set_eq_take_append_cons_drop.trans (if_pos (by omega))
    rw [List.length_cons] at hfit ⊢
    rw [fill, succ]
    by_cases hend : pos + 1 = size
    · -- the last cell: nothing can follow
      obtain rfl : xs = [] := List.length_eq_zero_iff.mp (by omega)
      rw [if_pos hend, fill, hset]
      simp [hend]
    · rw [if_neg hend, ih (by rw [List.length_set, hcells]) (by omega) (by omega), hset]
      have htake : (cells.take pos).length = pos := List.length_take_of_le (by omega)
      have hfront : (cells.take pos ++ x :: cells.drop (pos + 1)).take (pos + 1) =
          cells.take pos ++ [x] := by
        rw [List.take_append, htake, List.take_of_length_le (by omega)]
        simp
      have hback : (cells.take pos ++ x :: cells.drop (pos + 1)).drop (pos + 1 + xs.length) =
          cells.drop (pos + (xs.length + 1)) := by
        rw [List.drop_append, htake, List.drop_of_length_le (by omega),
          show pos + 1 + xs.length - pos = xs.length + 1 by omega, List.drop_succ_cons, List.drop_drop]
        simp only [List.nil_append]
        congr 1
        omega
      rw [hfront, hback]
      simp only [List.append_assoc, List.singleton_append, Nat.add_assoc, Nat.add_comm 1]

/-- Over the end of the block: the first items fill it, the others start at its beginning. -/
theorem fill_over {size : ℕ} {cells : List α} {pos : ℕ} {xs ys : List α} (hcells : cells.length = size)
    (hpos : pos < size) (hxs : pos + xs.length = size) (hys : ys.length ≤ pos) :
    fill size cells pos (xs ++ ys) = (ys ++ (cells.take pos).drop ys.length ++ xs, ys.length) := by
  have htake : (cells.take pos).length = pos := List.length_take_of_le (by omega)
  have hfirst : fill size cells pos xs = (cells.take pos ++ xs, 0) := by
    rw [fill_within hcells (Nat.le_of_eq hxs) hpos, if_pos hxs, List.drop_of_length_le (by omega),
      List.append_nil]
  rw [fill_append, hfirst, fill_within (by rw [List.length_append]; omega) (by omega) (by omega),
    if_neg (by omega), List.drop_append, htake, show 0 + ys.length - pos = 0 by omega]
  simp

/-- The items that fit before the end of the block, and the rest. -/
theorem split_at_end {size pos : ℕ} {xs : List α} (hpos : pos < size) (hend : size ≤ pos + xs.length) :
    ∃ ys zs, xs = ys ++ zs ∧ pos + ys.length = size :=
  ⟨xs.take (size - pos), xs.drop (size - pos), (List.take_append_drop _ _).symm, by
    rw [List.length_take_of_le (by omega)]
    omega⟩

/-- **The round trip.** -/
theorem slice_fill {size : ℕ} {cells : List α} {pos : ℕ} {xs : List α} (hcells : cells.length = size)
    (hpos : pos < size) (hfit : xs.length ≤ size) :
    slice size (fill size cells pos xs).1 pos xs.length = xs := by
  have htake : (cells.take pos).length = pos := List.length_take_of_le (by omega)
  by_cases hend : pos + xs.length < size
  · rw [slice, if_pos hend, fill_within hcells (Nat.le_of_lt hend) hpos]
    simp [htake]
  · obtain ⟨ys, zs, rfl, hys⟩ := split_at_end hpos (Nat.le_of_not_lt hend)
    rw [List.length_append] at hend hfit ⊢
    have hzs : zs.length ≤ pos := by omega
    have hfront : (zs ++ (cells.take pos).drop zs.length).length = pos := by
      rw [List.length_append, List.length_drop, htake]
      omega
    have hsecond : (zs ++ ((cells.take pos).drop zs.length ++ ys)).take (ys.length + zs.length + pos - size) =
        zs := by
      rw [show ys.length + zs.length + pos - size = zs.length by omega, List.take_left]
    rw [slice, if_neg hend, fill_over hcells hpos hys hzs, List.drop_append, hfront, Nat.sub_self,
      List.drop_zero, List.drop_of_length_le (Nat.le_of_eq hfront), List.nil_append, List.append_assoc,
      hsecond, List.take_of_length_le (by omega)]

/-- Where the writer is afterwards. -/
theorem fill_pos {size : ℕ} {cells : List α} {pos : ℕ} {xs : List α} (hcells : cells.length = size)
    (hpos : pos < size) (hfit : xs.length < size) :
    (fill size cells pos xs).2 =
      if pos + xs.length < size then pos + xs.length else pos + xs.length - size := by
  by_cases hend : pos + xs.length < size
  · rw [fill_within hcells (Nat.le_of_lt hend) hpos, if_neg (Nat.ne_of_lt hend), if_pos hend]
  · obtain ⟨ys, zs, rfl, hys⟩ := split_at_end hpos (Nat.le_of_not_lt hend)
    rw [List.length_append] at hend hfit ⊢
    rw [fill_over hcells hpos hys (by omega), if_neg hend]
    show zs.length = _
    omega

/-- A writer who goes round the block is back where it began. -/
theorem fill_round {size : ℕ} {cells : List α} {pos : ℕ} {xs : List α} (hcells : cells.length = size)
    (hpos : pos < size) (hround : xs.length = size) : (fill size cells pos xs).2 = pos := by
  obtain ⟨ys, zs, rfl, hys⟩ := split_at_end hpos (show size ≤ pos + xs.length by omega)
  rw [List.length_append] at hround
  rw [fill_over hcells hpos hys (by omega)]
  show zs.length = pos
  omega

/-- Whole rounds end where they began. -/
theorem fill_rounds {size : ℕ} {cells : List α} {pos : ℕ} {xs : List α} (hcells : cells.length = size)
    (hpos : pos < size) {k : ℕ} (hrounds : xs.length = k * size) : (fill size cells pos xs).2 = pos := by
  induction k generalizing cells xs with
  | zero =>
    obtain rfl : xs = [] := List.length_eq_zero_iff.mp (by omega)
    rfl
  | succ k ih =>
    rw [Nat.succ_mul] at hrounds
    have hfirst : (xs.take size).length = size := List.length_take_of_le (by omega)
    rw [← List.take_append_drop size xs, fill_append, fill_round hcells hpos hfirst]
    exact ih ((length_fill _ _ _ _).trans hcells) (by rw [List.length_drop]; omega)

end InfraredModule.Foundation.Ring
