import Mathlib.Algebra.Order.Ring.Int
import Mathlib.Data.List.Nodup
import Mathlib.Tactic.Linarith
import Mathlib.Tactic.Ring

/-!
# Digital lines

The line from the origin to `(M, m)` with `m ≤ M`, drawn with one point in every column: in column
`k` the point lies at height `minor M m k`, the ideal height `m * k / M` rounded. An incremental
drawing keeps the running error `error M m k` instead of the quotient. The error stays in `[0, M)`,
which determines the height (`minor_unique`), so one comparison decides each step (`minor_succ`,
`error_succ`), the line ends where it should (`minor_last`) and is never further than half a point
from the ideal one (`two_mul_deviation_le`).

`NearestLine` says what the points of a line between two given points have to be; the rounded line
has it (`nearestLine_points`), in each of the four directions, and so has its mirror image
(`NearestLine.swap`).
-/

set_option autoImplicit false

namespace InfraredModule.Foundation.DigitalLine

variable {M m : ℕ}

/-- The height of the line in column `k`. -/
def minor (M m k : ℕ) : ℕ := (m * k + (M - 1 - M / 2)) / M

/-- The running error in column `k`. -/
def error (M m k : ℕ) : ℤ := (M / 2 : ℕ) + (M * minor M m k : ℕ) - (m * k : ℕ)

/-- The error term stays between zero and the longer side. -/
theorem error_bounds (hM : 0 < M) (m k : ℕ) : 0 ≤ error M m k ∧ error M m k < M := by
  have hdiv := Nat.div_add_mod (m * k + (M - 1 - M / 2)) M
  have hmod := Nat.mod_lt (m * k + (M - 1 - M / 2)) hM
  have hhalf : M / 2 ≤ M - 1 := by omega
  simp only [error, minor]
  omega

/-- The bounds on the error leave room for one height only. -/
theorem minor_unique (hM : 0 < M) {k j : ℕ} (hlow : 0 ≤ ((M / 2 : ℕ) : ℤ) + (M * j : ℕ) - (m * k : ℕ))
    (hhigh : ((M / 2 : ℕ) : ℤ) + (M * j : ℕ) - (m * k : ℕ) < M) : minor M m k = j := by
  have hbounds := error_bounds hM m k
  simp only [error] at hbounds
  obtain ⟨hlow', hhigh'⟩ := hbounds
  rcases Nat.lt_trichotomy (minor M m k) j with hlt | heq | hgt
  · have hgap : M * (minor M m k + 1) ≤ M * j := Nat.mul_le_mul_left M hlt
    rw [Nat.mul_add] at hgap
    omega
  · exact heq
  · have hgap : M * (j + 1) ≤ M * minor M m k := Nat.mul_le_mul_left M hgt
    rw [Nat.mul_add] at hgap
    omega

/-- The line begins on its first point. -/
theorem minor_zero (hM : 0 < M) (m : ℕ) : minor M m 0 = 0 := by
  apply minor_unique hM
  · simp only [Nat.mul_zero]
    omega
  · simp only [Nat.mul_zero]
    omega

/-- The error term begins at half of the longer side. -/
theorem error_zero (hM : 0 < M) (m : ℕ) : error M m 0 = (M / 2 : ℕ) := by
  rw [error, minor_zero hM]
  simp

/-- **The step.** The line rises by one where the error is below the rise, and stays otherwise. -/
theorem minor_succ (hm : m ≤ M) (hM : 0 < M) (k : ℕ) :
    minor M m (k + 1) = if error M m k < m then minor M m k + 1 else minor M m k := by
  obtain ⟨hlow, hhigh⟩ := error_bounds hM m k
  have hk : m * (k + 1) = m * k + m := Nat.mul_succ m k
  by_cases hrise : error M m k < m
  · rw [if_pos hrise]
    rw [error] at hlow hhigh hrise
    have hj : M * (minor M m k + 1) = M * minor M m k + M := Nat.mul_succ _ _
    apply minor_unique hM
    · rw [hj, hk]
      omega
    · rw [hj, hk]
      omega
  · rw [if_neg hrise]
    rw [error] at hlow hhigh hrise
    apply minor_unique hM
    · rw [hk]
      omega
    · rw [hk]
      omega

/-- The step of the error term, as the algorithm takes it. -/
theorem error_succ (hm : m ≤ M) (hM : 0 < M) (k : ℕ) :
    error M m (k + 1) = if error M m k < m then error M m k - m + M else error M m k - m := by
  have hk : m * (k + 1) = m * k + m := Nat.mul_succ m k
  rw [error, minor_succ hm hM, hk]
  split
  · have hj : M * (minor M m k + 1) = M * minor M m k + M := Nat.mul_succ _ _
    rw [hj, error]
    omega
  · rw [error]
    omega

/-- The line ends at `(M, m)`. -/
theorem minor_last (hM : 0 < M) (m : ℕ) : minor M m M = m := by
  have hcomm : M * m = m * M := Nat.mul_comm M m
  apply minor_unique hM
  · omega
  · omega

/-- It does not overshoot on the way. -/
theorem minor_le (hM : 0 < M) (m : ℕ) {k : ℕ} (hk : k ≤ M) : minor M m k ≤ m := by
  have hmono : minor M m k ≤ minor M m M :=
    Nat.div_le_div_right (Nat.add_le_add_right (Nat.mul_le_mul_left m hk) _)
  rwa [minor_last hM m] at hmono

/-- On the diagonal it rises in every step. -/
theorem minor_diagonal (hM : 0 < M) (k : ℕ) : minor M M k = k := by
  apply minor_unique hM
  · omega
  · omega

/-- **The nearest point.** No point is further than one half from the ideal height. -/
theorem two_mul_deviation_le (hM : 0 < M) (m k : ℕ) :
    2 * |(M : ℤ) * minor M m k - (m : ℤ) * k| ≤ M := by
  obtain ⟨hlow, hhigh⟩ := error_bounds hM m k
  simp only [error, Nat.cast_mul] at hlow hhigh
  have hupper : (M : ℤ) * minor M m k - (m : ℤ) * k ≤ (M : ℤ) - 1 - (M / 2 : ℕ) := by linarith
  have hlower : -((M / 2 : ℕ) : ℤ) ≤ (M : ℤ) * minor M m k - (m : ℤ) * k := by linarith
  generalize (M : ℤ) * minor M m k - (m : ℤ) * k = d at hupper hlower
  rcases abs_cases d with ⟨habs, -⟩ | ⟨habs, -⟩
  · omega
  · omega

/-! ## Directions -/

/-- The distance of two coordinates. -/
def gap (a b : ℕ) : ℕ := if a < b then b - a else a - b

/-- The coordinate `j` steps from `a` on the way to `b`. -/
def toward (a b j : ℕ) : ℕ := if a < b then a + j else a - j

/-- The way from one end begins there. -/
@[simp] theorem toward_zero (a b : ℕ) : toward a b 0 = a := by
  simp [toward]

/-- And ends at the other. -/
@[simp] theorem toward_gap (a b : ℕ) : toward a b (gap a b) = b := by
  unfold toward gap
  split <;> omega

/-- On the way no coordinate leaves the range of the two ends. -/
theorem toward_mem (a b : ℕ) {j : ℕ} (hj : j ≤ gap a b) :
    min a b ≤ toward a b j ∧ toward a b j ≤ max a b := by
  unfold gap at hj
  unfold toward
  by_cases hab : a < b
  · rw [if_pos hab] at hj ⊢
    omega
  · rw [if_neg hab] at hj ⊢
    omega

/-- Displacements along one axis, with their sign. -/
theorem toward_sub (a b : ℕ) {j : ℕ} (hj : j ≤ gap a b) :
    ((toward a b j : ℕ) : ℤ) - a = (if a < b then 1 else -1) * (j : ℤ) ∧
      (b : ℤ) - a = (if a < b then 1 else -1) * (gap a b : ℤ) := by
  unfold gap at hj ⊢
  unfold toward
  by_cases hab : a < b
  · simp only [hab, if_true] at hj ⊢
    omega
  · simp only [hab, if_false] at hj ⊢
    omega

/-- The steps from one end to the other visit every coordinate between them once. -/
theorem map_toward_perm (a b : ℕ) :
    ((List.range (gap a b + 1)).map (toward a b)).Perm (List.range' (min a b) (gap a b + 1)) := by
  by_cases hab : a < b
  · have hmin : min a b = a := by omega
    have hfun : toward a b = fun j => a + j := funext fun j => if_pos hab
    rw [hmin, hfun, ← List.range'_eq_map_range]
  · have hmin : min a b = b := by omega
    have hgap : gap a b = a - b := if_neg hab
    have hfun : toward a b = fun j => b + (gap a b + 1) - 1 - j := by
      funext j
      rw [hgap, toward, if_neg hab]
      congr 1
      omega
    rw [hmin]
    conv_lhs => rw [hfun]
    rw [← List.reverse_range']
    exact List.reverse_perm _

/-! ## Nearest lines -/

/-- The points of a line from `(x₀, y₀)` to `(x₁, y₁)`: one for every step along the longer axis,
both ends among them, none outside the rectangle they span, and none further than one half from
the ideal line along the other axis. -/
structure NearestLine (x₀ y₀ x₁ y₁ : ℕ) (ps : List (ℕ × ℕ)) : Prop where
  length : ps.length = max (gap x₀ x₁) (gap y₀ y₁) + 1
  nodup : ps.Nodup
  box : ∀ p ∈ ps, (min x₀ x₁ ≤ p.1 ∧ p.1 ≤ max x₀ x₁) ∧ min y₀ y₁ ≤ p.2 ∧ p.2 ≤ max y₀ y₁
  start : (x₀, y₀) ∈ ps
  stop : (x₁, y₁) ∈ ps
  columns : gap y₀ y₁ ≤ gap x₀ x₁ → (ps.map Prod.fst).Perm (List.range' (min x₀ x₁) (gap x₀ x₁ + 1))
  rows : gap x₀ x₁ ≤ gap y₀ y₁ → (ps.map Prod.snd).Perm (List.range' (min y₀ y₁) (gap y₀ y₁ + 1))
  nearest : ∀ p ∈ ps, 2 * |((p.2 : ℤ) - y₀) * (x₁ - x₀) - ((p.1 : ℤ) - x₀) * (y₁ - y₀)| ≤
    max (gap x₀ x₁) (gap y₀ y₁)

/-- Exchanging the axes. -/
theorem NearestLine.swap {x₀ y₀ x₁ y₁ : ℕ} {ps : List (ℕ × ℕ)} (h : NearestLine y₀ x₀ y₁ x₁ ps) :
    NearestLine x₀ y₀ x₁ y₁ (ps.map Prod.swap) where
  length := by rw [List.length_map, h.length, Nat.max_comm]
  nodup := h.nodup.map Prod.swap_injective
  box := by
    intro p hp
    obtain ⟨q, hq, rfl⟩ := List.mem_map.mp hp
    exact ⟨(h.box q hq).2, (h.box q hq).1⟩
  start := List.mem_map.mpr ⟨_, h.start, rfl⟩
  stop := List.mem_map.mpr ⟨_, h.stop, rfl⟩
  columns := by
    intro hle
    rw [List.map_map]
    exact h.rows hle
  rows := by
    intro hle
    rw [List.map_map]
    exact h.columns hle
  nearest := by
    intro p hp
    obtain ⟨q, hq, rfl⟩ := List.mem_map.mp hp
    have hcross := h.nearest q hq
    rw [Nat.max_comm, abs_sub_comm] at hcross
    exact hcross

/-- The cross product of a displacement with that of the whole line does not depend on the
direction, up to sign. -/
theorem abs_cross {x₀ y₀ x₁ y₁ i j : ℕ} (hi : i ≤ gap x₀ x₁) (hj : j ≤ gap y₀ y₁) :
    |((toward y₀ y₁ j : ℕ) - (y₀ : ℤ)) * (x₁ - x₀) - ((toward x₀ x₁ i : ℕ) - (x₀ : ℤ)) * (y₁ - y₀)| =
      |(gap x₀ x₁ : ℤ) * j - (gap y₀ y₁ : ℤ) * i| := by
  obtain ⟨hx, hdx⟩ := toward_sub x₀ x₁ hi
  obtain ⟨hy, hdy⟩ := toward_sub y₀ y₁ hj
  rw [hx, hdx, hy, hdy]
  split
  · split
    · congr 1
      ring
    · rw [← abs_neg]
      congr 1
      ring
  · split
    · rw [← abs_neg]
      congr 1
      ring
    · congr 1
      ring

/-- **The rounded line is a nearest line**, when the first axis is the longer one. -/
theorem nearestLine_points {x₀ y₀ x₁ y₁ : ℕ} (hm : gap y₀ y₁ ≤ gap x₀ x₁) (hM : 0 < gap x₀ x₁) :
    NearestLine x₀ y₀ x₁ y₁ ((List.range (gap x₀ x₁ + 1)).map fun k =>
      (toward x₀ x₁ k, toward y₀ y₁ (minor (gap x₀ x₁) (gap y₀ y₁) k))) where
  length := by rw [List.length_map, List.length_range, Nat.max_eq_left hm]
  nodup := by
    apply List.Nodup.of_map Prod.fst
    rw [List.map_map]
    exact (map_toward_perm x₀ x₁).nodup_iff.mpr (List.nodup_range' (h := by decide))
  box := by
    intro p hp
    obtain ⟨k, hk, rfl⟩ := List.mem_map.mp hp
    have hk' : k ≤ gap x₀ x₁ := Nat.le_of_lt_succ (List.mem_range.mp hk)
    exact ⟨toward_mem x₀ x₁ hk', toward_mem y₀ y₁ (minor_le hM _ hk')⟩
  start := List.mem_map.mpr ⟨0, List.mem_range.mpr (Nat.succ_pos _), by rw [minor_zero hM]; simp⟩
  stop := List.mem_map.mpr ⟨gap x₀ x₁, List.mem_range.mpr (Nat.lt_succ_self _), by
    rw [minor_last hM]
    simp⟩
  columns := by
    intro _
    rw [List.map_map]
    exact map_toward_perm x₀ x₁
  rows := by
    intro hle
    -- the axes are equally long, and the line is the diagonal
    have hdiag : gap y₀ y₁ = gap x₀ x₁ := Nat.le_antisymm hm hle
    have hfun : (Prod.snd ∘ fun k => (toward x₀ x₁ k, toward y₀ y₁ (minor (gap x₀ x₁) (gap y₀ y₁) k))) =
        toward y₀ y₁ := by
      funext k
      simp only [Function.comp_apply, hdiag, minor_diagonal hM]
    rw [List.map_map, hfun, ← hdiag]
    exact map_toward_perm y₀ y₁
  nearest := by
    intro p hp
    obtain ⟨k, hk, rfl⟩ := List.mem_map.mp hp
    have hk' : k ≤ gap x₀ x₁ := Nat.le_of_lt_succ (List.mem_range.mp hk)
    rw [abs_cross hk' (minor_le hM _ hk'), Nat.max_eq_left hm]
    exact two_mul_deviation_le hM _ _

/-- A line along the first axis, drawn from the smaller coordinate to the larger one. -/
theorem nearestLine_level (x₀ x₁ y : ℕ) :
    NearestLine x₀ y x₁ y ((List.range' (min x₀ x₁) (gap x₀ x₁ + 1)).map fun x => (x, y)) := by
  have hlevel : gap y y = 0 := by simp [gap]
  have hmem : ∀ x, x ∈ List.range' (min x₀ x₁) (gap x₀ x₁ + 1) ↔ min x₀ x₁ ≤ x ∧ x ≤ max x₀ x₁ := by
    intro x
    rw [List.mem_range'_1]
    unfold gap
    split <;> omega
  constructor
  · rw [List.length_map, List.length_range', hlevel, Nat.max_eq_left (Nat.zero_le _)]
  · exact (List.nodup_range' (h := by decide)).map fun a b h => congrArg Prod.fst h
  · intro p hp
    obtain ⟨x, hx, rfl⟩ := List.mem_map.mp hp
    exact ⟨(hmem x).mp hx, by omega⟩
  · exact List.mem_map.mpr ⟨x₀, (hmem x₀).mpr (by omega), rfl⟩
  · exact List.mem_map.mpr ⟨x₁, (hmem x₁).mpr (by omega), rfl⟩
  · intro _
    rw [List.map_map]
    exact List.Perm.of_eq (List.map_id _)
  · intro hle
    rw [hlevel] at hle ⊢
    have hpoint : gap x₀ x₁ = 0 := by omega
    rw [hpoint]
    exact List.Perm.of_eq (by simp)
  · intro p hp
    obtain ⟨x, hx, rfl⟩ := List.mem_map.mp hp
    simp

end InfraredModule.Foundation.DigitalLine
