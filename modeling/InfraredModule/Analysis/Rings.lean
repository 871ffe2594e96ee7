import InfraredModule.Foundation.DigitalCircle
import InfraredModule.Model.Pages
import InfraredModule.Analysis.Circles

/-!
# Circles

`ST7567_DrawCircle` follows one octant with the decision value of `Foundation.DigitalCircle` in `f`, and
draws every point of it in its eight mirror images. Its last round may go one step past the diagonal: the point
is then a mirror image of the one before. So the pixels it draws are those of the nearest circle.
-/

set_option autoImplicit false

namespace InfraredModule.Analysis

open InfraredModule.Foundation InfraredModule.Foundation.DigitalCircle InfraredModule.Model

/-! ## Commands that draw around a centre -/

/-- A command that draws in one colour, and of the screen the pixels at certain offsets from a centre. -/
structure PaintsAt (x0 y0 : ℤ) (points : ℤ → ℤ → Prop) (c : U8) (cmd : ScreenCmd) : Prop where
  paints : Paints c cmd
  mem_iff : ∀ s x y, OnScreen x y → ((x, y) ∈ drawn (cmd s).2 ↔ points (x - x0) (y - y0))

section Centre

variable {x0 y0 : ℤ} {c : U8}

/-- Doing nothing paints no point. -/
theorem paintsAt_skip : PaintsAt x0 y0 (fun _ _ => False) c Cmd.skip where
  paints := paints_skip c
  mem_iff := fun _ _ _ _ => iff_of_false List.not_mem_nil id

/-- Two commands in sequence paint the points of both. -/
theorem PaintsAt.andThen {P Q : ℤ → ℤ → Prop} {cmd cmd' : ScreenCmd} (h : PaintsAt x0 y0 P c cmd)
    (h' : PaintsAt x0 y0 Q c cmd') : PaintsAt x0 y0 (fun a b => P a b ∨ Q a b) c (cmd.andThen cmd') where
  paints := h.paints.andThen h'.paints
  mem_iff := by
    intro s x y hon
    rw [Cmd.andThen_apply, drawn_append, List.mem_append, h.mem_iff s x y hon, h'.mem_iff _ x y hon]

/-- The same points in other words. -/
theorem PaintsAt.congr {P Q : ℤ → ℤ → Prop} {cmd : ScreenCmd} (h : PaintsAt x0 y0 P c cmd)
    (hiff : ∀ a b, P a b ↔ Q a b) : PaintsAt x0 y0 Q c cmd where
  paints := h.paints
  mem_iff := fun s x y hon => (h.mem_iff s x y hon).trans (hiff _ _)

/-- A coordinate that is converted is on the screen only where it was. -/
theorem toNat_uint16_eq_iff {v : ℤ} (hlow : -32768 ≤ v) (hhigh : v < 32768) {n : ℕ} (hn : n < 128) :
    (uint16 v).toNat = n ↔ v = n := by
  by_cases hneg : v < 0
  · have hfar := le_toNat_uint16_of_neg hlow hneg
    omega
  · rw [toNat_uint16_of_nonneg (by omega) (by omega)]
    omega

/-- A pixel write paints one point. -/
theorem paintsAt_drawPixel {u v : ℤ} (hu : -32768 ≤ u ∧ u < 32768) (hv : -32768 ≤ v ∧ v < 32768) :
    PaintsAt x0 y0 (fun a b => a = u - x0 ∧ b = v - y0) c (drawPixel (uint16 u) (uint16 v) c) where
  paints := paints_drawPixel _ _ c
  mem_iff := by
    intro s x y hon
    have hy : y < 128 := Nat.lt_trans hon.2 (by decide)
    rw [drawn_drawPixel, List.mem_singleton, Prod.mk.injEq, eq_comm, toNat_uint16_eq_iff hu.1 hu.2 hon.1,
      eq_comm (b := (uint16 v).toNat), toNat_uint16_eq_iff hv.1 hv.2 hy]
    omega

end Centre

/-! ## The loop -/

/-- The variables at a point of the octant. -/
def ringVars (r x y : ℤ) : CircleVars := ⟨decision r x y, 2 * x + 1, -2 * y, x, y⟩

/-- The height of the next point. -/
def nextHeight (r x y : ℤ) : ℤ := if 0 ≤ decision r x y then y - 1 else y

/-- The next point of the octant. -/
theorem next_ringVars {r x y : ℤ} (h : Near r x y) (hx : 0 ≤ x) (hxy : x < y) (hy : y ≤ 16383) :
    (ringVars r x y).next = ringVars r (x + 1) (nextHeight r x y) := by
  obtain ⟨hlow, hhigh⟩ := h.decision_bounds
  have hnx : int16 (x + 1) = x + 1 := int16_of_fits ⟨by omega, by omega⟩
  have hny : int16 (y - 1) = y - 1 := int16_of_fits ⟨by omega, by omega⟩
  have hddx : int16 (2 * x + 1 + 2) = 2 * (x + 1) + 1 := by
    rw [int16_of_fits ⟨by omega, by omega⟩]
    omega
  have hddy : int16 (-2 * y + 2) = -2 * (y - 1) := by
    rw [int16_of_fits ⟨by omega, by omega⟩]
    omega
  simp only [CircleVars.next, ringVars, nextHeight]
  by_cases hpos : 0 ≤ decision r x y
  · have hstep : int16 (decision r x y + -2 * (y - 1)) = decision r x y + -2 * (y - 1) :=
      int16_of_fits ⟨by omega, by omega⟩
    have hlast : int16 (decision r x y + -2 * (y - 1) + (2 * (x + 1) + 1)) = decision r (x + 1) (y - 1) := by
      rw [int16_of_fits ⟨by omega, by omega⟩, decision_drop]
      omega
    simp only [ge_iff_le, hpos, if_true, hnx, hny, hddx, hddy, hstep, hlast]
  · have hlast : int16 (decision r x y + (2 * (x + 1) + 1)) = decision r (x + 1) y := by
      rw [int16_of_fits ⟨by omega, by omega⟩, decision_level]
      omega
    simp only [ge_iff_le, hpos, if_false, hnx, hddx, hlast]

/-- Up to the diagonal the next point is on the circle; past it, the octant has ended. -/
theorem next_near {r x y : ℤ} (h : Near r x y) (hx : 0 ≤ x) (hxy : x < y) :
    (x + 1 ≤ nextHeight r x y ∧ Near r (x + 1) (nextHeight r x y)) ∨
      (y = x + 1 ∧ 0 ≤ decision r x y) ∧ nextHeight r x y = x := by
  unfold nextHeight
  by_cases hpos : 0 ≤ decision r x y
  · rw [if_pos hpos]
    by_cases hdiag : y = x + 1
    · exact .inr ⟨⟨hdiag, hpos⟩, by omega⟩
    · exact .inl ⟨by omega, h.drop (by omega) hpos⟩
  · rw [if_neg hpos]
    exact .inl ⟨by omega, h.level hx (by omega)⟩

section Ring

variable {x0 y0 r : ℤ} (hx0 : -16384 ≤ x0 ∧ x0 ≤ 16383) (hy0 : -16384 ≤ y0 ∧ y0 ≤ 16383) (hr : r ≤ 16383) {c : U8}

include hx0 hy0 hr

/-- The pixels of a round are the mirror images of its point. -/
theorem paintsAt_ringPixels {x y : ℤ} (hx : 0 ≤ x ∧ x ≤ r) (hy : 0 ≤ y ∧ y ≤ r) :
    PaintsAt x0 y0 (Mirrors x y) c (ringPixels x0 y0 x y c) := by
  have hpixel : ∀ u v : ℤ, (x0 - r ≤ u ∧ u ≤ x0 + r) → (y0 - r ≤ v ∧ v ≤ y0 + r) →
      PaintsAt x0 y0 (fun a b => a = u - x0 ∧ b = v - y0) c (drawPixel (uint16 u) (uint16 v) c) :=
    fun u v hu hv => paintsAt_drawPixel ⟨by omega, by omega⟩ ⟨by omega, by omega⟩
  have hall := (hpixel (x0 + x) (y0 + y) (by omega) (by omega)).andThen
    ((hpixel (x0 - x) (y0 + y) (by omega) (by omega)).andThen
    ((hpixel (x0 + x) (y0 - y) (by omega) (by omega)).andThen
    ((hpixel (x0 - x) (y0 - y) (by omega) (by omega)).andThen
    ((hpixel (x0 + y) (y0 + x) (by omega) (by omega)).andThen
    ((hpixel (x0 - y) (y0 + x) (by omega) (by omega)).andThen
    ((hpixel (x0 + y) (y0 - x) (by omega) (by omega)).andThen
    ((hpixel (x0 - y) (y0 - x) (by omega) (by omega)).andThen paintsAt_skip)))))))
  refine hall.congr fun a b => ?_
  rw [Mirrors, abs_eq hx.1, abs_eq hy.1, abs_eq hy.1, abs_eq hx.1]
  simp only [or_false, add_sub_cancel_left, sub_sub_cancel_left, and_or_left]
  simp only [or_and_right, or_assoc]

/-- **The loop** draws the rest of the circle, from any point of the octant on. -/
theorem run_ring {n : ℕ} {x y : ℤ} (h : Near r x y) (hx : 0 ≤ x) (hxy : x ≤ y) (hy : y ≤ r)
    (hn : y - x < n) :
    ∃ cmd rest, Loop.run (ringRound x0 y0 c) n (ringVars r x y) = some cmd ∧ PaintsAt x0 y0 rest c cmd ∧
      ∀ a b, From r x a b ↔ Mirrors x y a b ∨ rest a b := by
  induction n generalizing x y with
  | zero => omega
  | succ n ih =>
    -- on the diagonal the loop leaves; before it, one more round
    by_cases hend : x = y
    · have hleave : ringRound x0 y0 c (ringVars r x y) = (some Cmd.skip, none) :=
        if_neg (show ¬ x < y by omega)
      refine ⟨_, _, Loop.run_leave hleave n, paintsAt_skip, fun a b => ?_⟩
      rw [h.from_iff hx hxy]
      exact or_congr_right (iff_of_false (h.from_succ_false hx (.inl hend.symm) a b) id)
    have hlt : x < y := by omega
    have hnext := next_ringVars h hx hlt (by omega)
    have hheight : x ≤ nextHeight r x y ∧ nextHeight r x y ≤ y := by
      unfold nextHeight
      split <;> omega
    have hgo : ringRound x0 y0 c (ringVars r x y) =
        (some (ringPixels x0 y0 (x + 1) (nextHeight r x y) c), some (ringVars r (x + 1) (nextHeight r x y))) := by
      rw [ringRound, if_pos (show (ringVars r x y).x < (ringVars r x y).y from hlt), hnext]
      rfl
    have hround := paintsAt_ringPixels hx0 hy0 hr (c := c) (x := x + 1) (y := nextHeight r x y)
      ⟨by omega, by omega⟩ ⟨by omega, by omega⟩
    rcases next_near h hx hlt with ⟨hle, hnear⟩ | ⟨hdiag, hheight'⟩
    · obtain ⟨cmd, rest, hrun, hpaints, hfrom⟩ := ih hnear (by omega) hle (by omega) (by omega)
      refine ⟨_, _, by rw [Loop.run_go hgo, hrun, Option.map_some], hround.andThen hpaints, fun a b => ?_⟩
      rw [h.from_iff hx hxy, hfrom]
    · -- the point is past the diagonal, and the loop leaves
      have hleave : ringRound x0 y0 c (ringVars r (x + 1) (nextHeight r x y)) = (some Cmd.skip, none) :=
        if_neg (show ¬ x + 1 < nextHeight r x y by omega)
      obtain ⟨m, rfl⟩ : ∃ m, n = m + 1 := ⟨n - 1, by omega⟩
      refine ⟨_, _, by rw [Loop.run_go hgo, Loop.run_leave hleave, Option.map_some],
        hround.andThen paintsAt_skip, fun a b => ?_⟩
      have hmirror : Mirrors (x + 1) (nextHeight r x y) a b ↔ Mirrors x y a b := by
        rw [hheight', hdiag.1]
        exact mirrors_swap x (x + 1) a b
      rw [h.from_iff hx hxy, iff_false_intro (h.from_succ_false hx (.inr hdiag) a b), hmirror]
      tauto

/-- The routine draws the circle. -/
theorem drawCircle_spec (hpos : 0 < r) :
    ∃ cmd, drawCircle x0 y0 r c = some cmd ∧ PaintsAt x0 y0 (OnCircle r) c cmd := by
  have hstart : (⟨int16 (1 - r), 1, int16 (-2 * r), 0, r⟩ : CircleVars) = ringVars r 0 r := by
    have hf : int16 (1 - r) = decision r 0 r := by
      rw [int16_of_fits ⟨by omega, by omega⟩]
      unfold decision
      ring
    have hddy : int16 (-2 * r) = -2 * r := int16_of_fits ⟨by omega, by omega⟩
    rw [hf, hddy]
    rfl
  obtain ⟨loop, rest, hrun, hpaints, hfrom⟩ :=
    run_ring hx0 hy0 hr (c := c) (n := r.toNat + 1) (near_zero hpos) le_rfl hpos.le le_rfl (by omega)
  have hpixel : ∀ u v : ℤ, (x0 - r ≤ u ∧ u ≤ x0 + r) → (y0 - r ≤ v ∧ v ≤ y0 + r) →
      PaintsAt x0 y0 (fun a b => a = u - x0 ∧ b = v - y0) c (drawPixel (uint16 u) (uint16 v) c) :=
    fun u v hu hv => paintsAt_drawPixel ⟨by omega, by omega⟩ ⟨by omega, by omega⟩
  have hall := (hpixel x0 (y0 + r) (by omega) (by omega)).andThen
    ((hpixel x0 (y0 - r) (by omega) (by omega)).andThen
    ((hpixel (x0 + r) y0 (by omega) (by omega)).andThen
    ((hpixel (x0 - r) y0 (by omega) (by omega)).andThen (hpaints.andThen paintsAt_skip))))
  refine ⟨_, ?_, hall.congr fun a b => ?_⟩
  · rw [drawCircle, hstart, hrun]
    rfl
  · have hwhole : OnCircle r a b ↔ From r 0 a b :=
      ⟨fun h => ⟨le_min (abs_nonneg a) (abs_nonneg b), h⟩, fun h => h.2⟩
    rw [hwhole, hfrom, Mirrors, abs_eq le_rfl, abs_eq hpos.le, abs_eq hpos.le, abs_eq le_rfl]
    simp only [or_false, sub_self, neg_zero, or_self, add_sub_cancel_left, sub_sub_cancel_left, and_or_left]
    simp only [or_and_right, or_assoc]

end Ring

/-- **Every circle is the nearest one.** For every centre and radius that the sums of the routine can hold: it
ends, and of the screen the pixels of the nearest circle, and no others, take the colour: at each
distance from the nearer axis, the one at the whole number nearest to the ideal height.
SOURCE: ST7567.c:179-195, 569-604 -/
theorem drawCircle_nearest {x0 y0 r : ℤ} (hx0 : -16384 ≤ x0 ∧ x0 ≤ 16383) (hy0 : -16384 ≤ y0 ∧ y0 ≤ 16383)
    (hr : 0 < r ∧ r ≤ 16383) (c : U8) :
    ∃ cmd, drawCircle x0 y0 r c = some cmd ∧ ∀ s x y, OnScreen x y → image (cmd s).1 x y =
      if OnCircle r (x - x0) (y - y0) then decide (c = colorFront) else image s x y := by
  obtain ⟨cmd, hcmd, hpaints⟩ := drawCircle_spec hx0 hy0 hr.2 hr.1 (c := c)
  refine ⟨cmd, hcmd, fun s x y hon => ?_⟩
  rw [hpaints.paints.image_eq s hon]
  simp only [hpaints.mem_iff s x y hon]

/-- The degree sign of the home page: the four pixels around `(42, 30)`, and not the centre. -/
theorem drawCircle_nearest_degree :
    ∃ cmd, drawCircle 42 30 1 1 = some cmd ∧ image (cmd blankScreen).1 43 30 = true ∧
      image (cmd blankScreen).1 42 30 = false ∧ image (cmd blankScreen).1 43 31 = false := by
  obtain ⟨cmd, hcmd, himage⟩ := @drawCircle_nearest 42 30 1 (by decide) (by decide) (by decide) 1
  refine ⟨cmd, hcmd, ?_, ?_, ?_⟩
  · rw [himage blankScreen 43 30 (by decide), if_pos (by decide)]
    rfl
  · rw [himage blankScreen 42 30 (by decide), if_neg (by decide)]
    rfl
  · rw [himage blankScreen 43 31 (by decide), if_neg (by decide)]
    rfl

end InfraredModule.Analysis
