import Mathlib.Data.List.Pairwise
import Mathlib.Tactic.Common

/-!
# Pictures with gaps

A `Patch` is a picture of which some places are left open. One is laid `above` another, a list of them is
a `stack` with the last on top. A drawing that goes place by place, row by row, builds a `block`: what is
added to the right of it or below it makes it larger (`block_right`, `block_below`). Patches that are
`Apart` do not hide each other, whatever their order (`stack_of_mem`).
-/

set_option autoImplicit false

namespace InfraredModule.Foundation

/-- What a picture has at a place, if it has anything there. -/
abbrev Patch (α : Type) : Type := ℕ → ℕ → Option α

namespace Patch

variable {α : Type}

/-- The patch that is open everywhere. -/
def empty : Patch α := fun _ _ => none

/-- One patch laid above another. -/
def above (p q : Patch α) : Patch α := fun x y => (p x y).or (q x y)

/-- Patches laid one above the other, the last on top. -/
def stack : List (Patch α) → Patch α
  | [] => empty
  | p :: ps => (stack ps).above p

/-- A rectangle of width `w` and height `h` with its corner at `(x, y)`. -/
def block (x y w h : ℕ) (f : ℕ → ℕ → α) : Patch α := fun a b =>
  if (x ≤ a ∧ a < x + w) ∧ y ≤ b ∧ b < y + h then some (f (a - x) (b - y)) else none

/-- A place shows the upper patch, where that is open the lower, and where both are what lies beneath. -/
theorem above_getD (p q : Patch α) (x y : ℕ) (v : α) :
    (p.above q x y).getD v = (p x y).getD ((q x y).getD v) := by
  unfold above
  cases p x y <;> rfl

/-- Nothing shows through where nothing is below. -/
@[simp] theorem above_empty (p : Patch α) : p.above empty = p := by
  funext x y
  exact Option.or_none

/-- The empty patch hides nothing. -/
@[simp] theorem empty_above (p : Patch α) : empty.above p = p := rfl

/-! ## Blocks -/

variable {x y w h : ℕ} {f g : ℕ → ℕ → α}

/-- A block is open outside its rectangle. -/
theorem block_eq_none {a b : ℕ} (hout : ¬ ((x ≤ a ∧ a < x + w) ∧ y ≤ b ∧ b < y + h)) :
    block x y w h f a b = none := if_neg hout

/-- What a block has lies in its rectangle. -/
theorem block_ne_none {a b : ℕ} (hne : block x y w h f a b ≠ none) :
    (x ≤ a ∧ a < x + w) ∧ y ≤ b ∧ b < y + h := by
  by_contra hout
  exact hne (block_eq_none hout)

/-- Only the values inside the rectangle count. -/
theorem block_congr (heq : ∀ i < w, ∀ j < h, f i j = g i j) : block x y w h f = block x y w h g := by
  funext a b
  unfold block
  split
  case isTrue hin => rw [heq _ (by omega) _ (by omega)]
  case isFalse => rfl

/-- A block without columns is empty. -/
theorem block_zero_width : block x y 0 h f = empty := by
  funext a b
  exact block_eq_none (by omega)

/-- So is one without rows. -/
theorem block_zero_height : block x y w 0 f = empty := by
  funext a b
  exact block_eq_none (by omega)

/-- More columns at the right. -/
theorem block_right (v : ℕ) :
    (block (x + w) y v h fun i j => f (w + i) j).above (block x y w h f) = block x y (w + v) h f := by
  funext a b
  by_cases hnew : (x + w ≤ a ∧ a < x + w + v) ∧ y ≤ b ∧ b < y + h
  · rw [above, block, if_pos hnew, Option.some_or, block, if_pos ⟨⟨by omega, by omega⟩, hnew.2⟩]
    congr 2
    omega
  · rw [above, block_eq_none hnew, Option.none_or]
    unfold block
    have hsame : ((x ≤ a ∧ a < x + w) ∧ y ≤ b ∧ b < y + h) ↔ (x ≤ a ∧ a < x + (w + v)) ∧ y ≤ b ∧ b < y + h := by
      omega
    simp only [hsame]

/-- More rows below. -/
theorem block_below (k : ℕ) :
    (block x (y + h) w k fun i j => f i (h + j)).above (block x y w h f) = block x y w (h + k) f := by
  funext a b
  by_cases hnew : (x ≤ a ∧ a < x + w) ∧ y + h ≤ b ∧ b < y + h + k
  · rw [above, block, if_pos hnew, Option.some_or, block, if_pos ⟨hnew.1, by omega, by omega⟩]
    congr 2
    omega
  · rw [above, block_eq_none hnew, Option.none_or]
    unfold block
    have hsame : ((x ≤ a ∧ a < x + w) ∧ y ≤ b ∧ b < y + h) ↔ (x ≤ a ∧ a < x + w) ∧ y ≤ b ∧ b < y + (h + k) := by
      omega
    simp only [hsame]

/-! ## Patches that do not hide each other -/

/-- No place is in both. -/
def Apart (p q : Patch α) : Prop := ∀ x y, p x y = none ∨ q x y = none

/-- A place that is open in all patches is open in the stack. -/
theorem stack_eq_none {ps : List (Patch α)} {a b : ℕ} (hall : ∀ p ∈ ps, p a b = none) : stack ps a b = none := by
  induction ps with
  | nil => rfl
  | cons p ps ih =>
    rw [stack, above, ih fun q hq => hall q (List.mem_cons_of_mem p hq), Option.none_or, hall p List.mem_cons_self]

/-- **Nothing is hidden**: of patches that are apart, each is seen whole. -/
theorem stack_of_mem {ps : List (Patch α)} (hapart : ps.Pairwise Apart) {p : Patch α} (hp : p ∈ ps) {a b : ℕ}
    {v : α} (hv : p a b = some v) : stack ps a b = some v := by
  have hclear : ∀ {q : Patch α}, Apart p q → q a b = none := fun hpq =>
    (hpq a b).resolve_left fun hnone => Option.some_ne_none v (hv.symm.trans hnone)
  have hclear' : ∀ {q : Patch α}, Apart q p → q a b = none := fun hqp =>
    (hqp a b).resolve_right fun hnone => Option.some_ne_none v (hv.symm.trans hnone)
  induction ps with
  | nil => cases hp
  | cons q ps ih =>
    obtain ⟨hfirst, hrest⟩ := List.pairwise_cons.mp hapart
    rcases List.mem_cons.mp hp with rfl | hp
    · rw [stack, above, stack_eq_none fun q hq => hclear (hfirst q hq), Option.none_or, hv]
    · rw [stack, above, ih hrest hp, Option.some_or]

end Patch

end InfraredModule.Foundation
