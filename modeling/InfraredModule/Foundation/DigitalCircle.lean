import Mathlib.Algebra.Order.Ring.Int
import Mathlib.Tactic.Linarith
import Mathlib.Tactic.Ring

/-!
# Digital circles

The circle of radius `r` around the origin, drawn with one point in every column: at distance `x`
from the axis the point lies at the whole number nearest to the ideal height, the root of `r² - x²`
(`Near`). An incremental drawing goes along one octant and keeps the value `decision r x y`, the equation
of the circle half-way between the two points that may come next. Its sign tells which of them is
the nearest (`Near.level`, `Near.drop`), up to the diagonal, where the octant ends. The other seven are
its mirror images: `OnCircle` are the points of all of them.
-/

set_option autoImplicit false

namespace InfraredModule.Foundation.DigitalCircle

/-- `y` is the whole number nearest to the root of `r² - x²`. -/
def Near (r x y : ℤ) : Prop := y * (y - 1) < r ^ 2 - x ^ 2 ∧ r ^ 2 - x ^ 2 ≤ y * (y + 1)

instance (r x y : ℤ) : Decidable (Near r x y) := inferInstanceAs (Decidable (_ ∧ _))

/-- The equation of the circle between `(x + 1, y)` and `(x + 1, y - 1)`. -/
def decision (r x y : ℤ) : ℤ := (x + 1) ^ 2 + y ^ 2 - y - r ^ 2

variable {r x y : ℤ}

/-- Above the centre the nearest point is on the radius. -/
theorem near_zero (hr : 0 < r) : Near r 0 r := by
  constructor
  · linarith
  · linarith

/-- The products of neighbours grow with the numbers. -/
theorem mul_succ_le_mul_pred {y' : ℤ} (hy : 0 ≤ y) (h : y < y') : y * (y + 1) ≤ y' * (y' - 1) := by
  calc y * (y + 1) = (y + 1) * (y + 1 - 1) := by ring
    _ ≤ y' * (y' - 1) := mul_le_mul h (by omega) (by omega) (by omega)

/-- A greater distance from the axis is no higher. -/
theorem Near.antitone {x' y' : ℤ} (h : Near r x y) (h' : Near r x' y') (hx : 0 ≤ x) (hle : x ≤ x') (hy : 0 ≤ y) :
    y' ≤ y := by
  by_contra hlt
  have hsq : x ^ 2 ≤ x' ^ 2 := pow_le_pow_left₀ hx hle 2
  have hgap := mul_succ_le_mul_pred hy (not_le.mp hlt)
  have hlow := h'.1
  have hhigh := h.2
  omega

/-- There is one nearest whole number in each column. -/
theorem Near.unique {y' : ℤ} (h : Near r x y) (h' : Near r x y') (hx : 0 ≤ x) (hy : 0 ≤ y) (hy' : 0 ≤ y') :
    y' = y :=
  le_antisymm (h.antitone h' hx le_rfl hy) (h'.antitone h hx le_rfl hy')

/-- No point is higher than the radius. -/
theorem Near.le (h : Near r x y) (hr : 0 ≤ r) : y ≤ r := by
  by_contra hlt
  have hsq := mul_succ_le_mul_pred hr (not_le.mp hlt)
  have hlow := h.1
  have hx := sq_nonneg x
  linarith

/-- Where the decision variable lies in a column. -/
theorem Near.decision_bounds (h : Near r x y) :
    2 * x + 1 - 2 * y ≤ decision r x y ∧ decision r x y < 2 * x + 1 := by
  obtain ⟨hlow, hhigh⟩ := h
  unfold decision
  constructor
  · linarith
  · linarith

/-- The next point to the side. -/
theorem Near.level (h : Near r x y) (hx : 0 ≤ x) (hneg : decision r x y < 0) : Near r (x + 1) y := by
  obtain ⟨-, hhigh⟩ := h
  unfold decision at hneg
  constructor
  · linarith
  · linarith

/-- The next point to the side and down, on this side of the diagonal. -/
theorem Near.drop (h : Near r x y) (hxy : x + 2 ≤ y) (hpos : 0 ≤ decision r x y) : Near r (x + 1) (y - 1) := by
  obtain ⟨hlow, -⟩ := h
  unfold decision at hpos
  constructor
  · linarith
  · linarith

/-- Where the octant would pass the diagonal, no point of the circle lies on it. -/
theorem not_near_diagonal (hpos : 0 ≤ decision r x (x + 1)) : ¬ Near r (x + 1) (x + 1) := by
  rintro ⟨hlow, -⟩
  unfold decision at hpos
  linarith

/-- One column on, on the same line. -/
theorem decision_level (r x y : ℤ) : decision r (x + 1) y = decision r x y + (2 * x + 3) := by
  unfold decision
  ring

/-- One column on, a line lower. -/
theorem decision_drop (r x y : ℤ) :
    decision r (x + 1) (y - 1) = decision r x y + (-2 * y + 2) + (2 * x + 3) := by
  unfold decision
  ring

/-! ## The whole circle -/

/-- The eight mirror images of a point. -/
def Mirrors (x y a b : ℤ) : Prop := |a| = x ∧ |b| = y ∨ |a| = y ∧ |b| = x

/-- The point lies on the circle. -/
def OnCircle (r a b : ℤ) : Prop := Near r (min |a| |b|) (max |a| |b|)

instance (x y a b : ℤ) : Decidable (Mirrors x y a b) := inferInstanceAs (Decidable (_ ∨ _))

instance (r a b : ℤ) : Decidable (OnCircle r a b) := inferInstanceAs (Decidable (Near _ _ _))

/-- No point of the circle is farther out than the radius. -/
theorem OnCircle.abs_le {a b : ℤ} (h : OnCircle r a b) (hr : 0 ≤ r) : |a| ≤ r ∧ |b| ≤ r := by
  have hmax := Near.le h hr
  exact ⟨(le_max_left _ _).trans hmax, (le_max_right _ _).trans hmax⟩

/-- A point is a mirror image when its two distances are those of the octant. -/
theorem mirrors_iff (hxy : x ≤ y) (a b : ℤ) : Mirrors x y a b ↔ min |a| |b| = x ∧ max |a| |b| = y := by
  unfold Mirrors
  omega

/-- The mirror images are the same from either octant. -/
theorem mirrors_swap (x y a b : ℤ) : Mirrors y x a b ↔ Mirrors x y a b := Or.comm

/-- The circle from the distance `x` from the nearer axis on. -/
def From (r x a b : ℤ) : Prop := x ≤ min |a| |b| ∧ OnCircle r a b

/-- **On with the octant**: the circle from `x` on is the point at `x`, eight times, and the circle from
`x + 1` on. -/
theorem Near.from_iff (h : Near r x y) (hx : 0 ≤ x) (hxy : x ≤ y) (a b : ℤ) :
    From r x a b ↔ Mirrors x y a b ∨ From r (x + 1) a b := by
  rw [mirrors_iff hxy]
  unfold From OnCircle
  have hmax : 0 ≤ max |a| |b| := le_max_of_le_left (abs_nonneg a)
  constructor
  · rintro ⟨hle, hnear⟩
    by_cases hfirst : min |a| |b| = x
    · rw [hfirst] at hnear
      exact .inl ⟨hfirst, h.unique hnear hx (hx.trans hxy) hmax⟩
    · exact .inr ⟨by omega, hnear⟩
  · rintro (⟨hmin, hmax⟩ | ⟨hle, hnear⟩)
    · rw [hmin, hmax]
      exact ⟨le_rfl, h⟩
    · exact ⟨by omega, hnear⟩

/-- **The octant ends** at the diagonal: beyond its last point there is none. -/
theorem Near.from_succ_false (h : Near r x y) (hx : 0 ≤ x) (hend : y = x ∨ y = x + 1 ∧ 0 ≤ decision r x y)
    (a b : ℤ) : ¬ From r (x + 1) a b := by
  rintro ⟨hle, hnear⟩
  have hy : 0 ≤ y := by omega
  have hhigh := h.antitone hnear hx (by omega) hy
  have hpair : y = x + 1 ∧ min |a| |b| = x + 1 ∧ max |a| |b| = x + 1 := by omega
  obtain ⟨rfl, hmin, hmax⟩ := hpair
  rw [OnCircle, hmin, hmax] at hnear
  exact not_near_diagonal (by omega) hnear

end InfraredModule.Foundation.DigitalCircle
