import InfraredModule.Analysis.Lines

/-!
# Filled circles

`ST7567_DrawFilledCircle` fills a disc with horizontal lines between `x0 - t` and `x0 + t` in the
rows `y0 - u` and `y0 + u`, for offsets `t` and `u` that its loop keeps between zero and `r`. The
sums are signed and the parameters of `ST7567_DrawLine` are not: a negative coordinate arrives as
a large one and is clamped to the far edge (`clip`). The lines then stay in the square around the
disc exactly if no coordinate is negative, or if the far edge belongs to the square anyway.
-/

set_option autoImplicit false

namespace InfraredModule.Analysis

open InfraredModule.Foundation InfraredModule.Foundation.DigitalLine InfraredModule.Model

/-! ## Negative coordinates -/

/-- Where a coordinate of a line ends up on an axis of the screen that ends at `edge`. -/
def clip (edge : ℕ) (v : ℤ) : ℕ := if v < 0 then edge else min v.toNat edge

/-- A coordinate that is not negative is kept. -/
theorem toNat_uint16_of_nonneg {v : ℤ} (hlow : 0 ≤ v) (hhigh : v < 65536) :
    (uint16 v).toNat = v.toNat := by
  obtain ⟨n, rfl⟩ := Int.eq_ofNat_of_zero_le hlow
  rw [uint16_natCast, toNat_ofNat_of_lt (by omega), Int.toNat_natCast]

/-- A negative coordinate becomes a large one. -/
theorem le_toNat_uint16_of_neg {v : ℤ} (hlow : -32768 ≤ v) (hhigh : v < 0) :
    32768 ≤ (uint16 v).toNat := by
  rw [uint16, BitVec.toNat_ofInt]
  omega

/-- The sums of the routine lie within reach of the conversions. -/
theorem min_toNat_uint16 {v : ℤ} (hlow : -32768 ≤ v) (hhigh : v < 65536) {edge : ℕ} (hedge : edge < 32768) :
    min (uint16 v).toNat edge = clip edge v := by
  unfold clip
  split
  · rename_i hneg
    have := le_toNat_uint16_of_neg hlow hneg
    omega
  · rename_i hnonneg
    rw [toNat_uint16_of_nonneg (by omega) hhigh]

/-- On one axis: the square around the centre contains what becomes of an offset, when it does not
leave the screen at the near side or reaches the far edge. -/
theorem clip_mem {m r t : ℤ} {edge : ℕ} (hedge : m ≤ edge) (ht : |t| ≤ r)
    (hfar : r ≤ m ∨ (edge : ℤ) ≤ m + r) :
    m - r ≤ clip edge (m + t) ∧ (clip edge (m + t) : ℤ) ≤ m + r := by
  obtain ⟨hlow, hhigh⟩ := abs_le.mp ht
  unfold clip
  split <;> omega

/-- Where a coordinate ends up is on the axis. -/
theorem clip_le (edge : ℕ) (v : ℤ) : clip edge v ≤ edge := by
  unfold clip
  split <;> omega

/-- A negative coordinate ends up at the edge. -/
theorem clip_of_neg (edge : ℕ) {v : ℤ} (h : v < 0) : clip edge v = edge := if_pos h

/-! ## Commands inside a square -/

/-- The square around a centre, with the radius on either side. -/
def InSquare (x0 y0 r : ℤ) (x y : ℕ) : Prop :=
  (x0 - r ≤ x ∧ (x : ℤ) ≤ x0 + r) ∧ y0 - r ≤ y ∧ (y : ℤ) ≤ y0 + r

/-- A command that paints, and has calls for pixels of the screen inside the square only. -/
structure Inside (x0 y0 r : ℤ) (c : U8) (cmd : ScreenCmd) : Prop where
  paints : Paints c cmd
  inside : ∀ s, ∀ p ∈ drawn (cmd s).2, OnScreen p.1 p.2 → InSquare x0 y0 r p.1 p.2

/-- Doing nothing stays inside. -/
theorem inside_skip (x0 y0 r : ℤ) (c : U8) : Inside x0 y0 r c Cmd.skip where
  paints := paints_skip c
  inside := fun _ _ hp => absurd hp List.not_mem_nil

/-- Two commands inside a square stay inside it. -/
theorem Inside.andThen {x0 y0 r : ℤ} {c : U8} {cmd cmd' : ScreenCmd} (h : Inside x0 y0 r c cmd)
    (h' : Inside x0 y0 r c cmd') : Inside x0 y0 r c (cmd.andThen cmd') where
  paints := h.paints.andThen h'.paints
  inside := by
    intro s p hp
    rw [Cmd.andThen_apply, drawn_append] at hp
    rcases List.mem_append.mp hp with hfirst | hsecond
    · exact h.inside s p hfirst
    · exact h'.inside _ p hsecond

/-- A sequence of commands inside a square stays inside it. -/
theorem inside_each {x0 y0 r : ℤ} {c : U8} {cmds : List ScreenCmd}
    (h : ∀ cmd ∈ cmds, Inside x0 y0 r c cmd) : Inside x0 y0 r c (Cmd.each id cmds) :=
  Cmd.each_induction (inside_skip x0 y0 r c) (fun _ _ => Inside.andThen) h

/-- A level line between two points of a square stays inside it. -/
theorem inside_of_drawsLine {x0 y0 r : ℤ} {c : U8} {cmd : ScreenCmd} {a b u : ℕ}
    (h : DrawsLine a u b u c cmd) (ha : x0 - r ≤ a ∧ (a : ℤ) ≤ x0 + r)
    (hb : x0 - r ≤ b ∧ (b : ℤ) ≤ x0 + r) (hu : y0 - r ≤ u ∧ (u : ℤ) ≤ y0 + r) :
    Inside x0 y0 r c cmd where
  paints := h.paints
  inside := by
    intro s p hp _
    obtain ⟨⟨hleft, hright⟩, htop, hbottom⟩ := (h.points s).box p hp
    exact ⟨⟨by omega, by omega⟩, by omega, by omega⟩

/-- What one command of a sequence draws, the sequence draws. -/
theorem mem_drawn_each {cmds : List ScreenCmd} {cmd : ScreenCmd} {p : ℕ × ℕ} (hin : cmd ∈ cmds)
    (h : ∀ s, p ∈ drawn (cmd s).2) (s : Screen) : p ∈ drawn (Cmd.each id cmds s).2 := by
  induction cmds generalizing s with
  | nil => cases hin
  | cons d cmds ih =>
    rw [Cmd.each_cons, Cmd.andThen_apply, drawn_append]
    rcases List.mem_cons.mp hin with rfl | htail
    · exact List.mem_append_left _ (h s)
    · exact List.mem_append_right _ (ih htail _)

/-- The calls of `ST7567_DrawPixel` before the first line. -/
def circlePixels (x0 y0 r : ℤ) (c : U8) : List ScreenCmd :=
  [drawPixel (uint16 x0) (uint16 (y0 + r)) c, drawPixel (uint16 x0) (uint16 (y0 - r)) c,
    drawPixel (uint16 (x0 + r)) (uint16 y0) c, drawPixel (uint16 (x0 - r)) (uint16 y0) c]

/-- The variables before the first round. -/
def circleStart (r : ℤ) : CircleVars := ⟨int16 (1 - r), 1, int16 (-2 * r), 0, r⟩

/-- The circle is four pixels, the diameter and the loop. -/
theorem drawFilledCircle_eq {x0 y0 r : ℤ} {c : U8} {diameter loop : ScreenCmd}
    (hdiameter : drawLine (uint16 (x0 - r)) (uint16 y0) (uint16 (x0 + r)) (uint16 y0) c = some diameter)
    (hloop : Loop.run (circleRound x0 y0 c) (r.toNat + 1) (circleStart r) = some loop) :
    drawFilledCircle x0 y0 r c = some (Cmd.each id (circlePixels x0 y0 r c ++ [diameter, loop])) := by
  rw [circleStart] at hloop
  rw [drawFilledCircle, hdiameter, hloop]
  exact Loop.seq_map_some (circlePixels x0 y0 r c ++ [diameter, loop])

section Square

variable {x0 y0 r : ℤ} (hx0 : 0 ≤ x0 ∧ x0 < 128) (hy0 : 0 ≤ y0 ∧ y0 < 64) (hr : r ≤ 127) (c : U8)

include hx0 hy0 hr

/-- A line of the routine: from one offset to another in the row of a third. -/
theorem level_spec {t t' u : ℤ} (ht : |t| ≤ r) (ht' : |t'| ≤ r) (hu : |u| ≤ r) :
    ∃ cmd, drawLine (uint16 (x0 + t)) (uint16 (y0 + u)) (uint16 (x0 + t')) (uint16 (y0 + u)) c =
        some cmd ∧
      DrawsLine (clip 127 (x0 + t)) (clip 63 (y0 + u)) (clip 127 (x0 + t')) (clip 63 (y0 + u)) c cmd := by
  obtain ⟨ht₁, ht₂⟩ := abs_le.mp ht
  obtain ⟨ht₁', ht₂'⟩ := abs_le.mp ht'
  obtain ⟨hu₁, hu₂⟩ := abs_le.mp hu
  have hspec := drawLine_spec (uint16 (x0 + t)) (uint16 (y0 + u)) (uint16 (x0 + t')) (uint16 (y0 + u)) c
  rwa [min_toNat_uint16 (v := x0 + t) (by omega) (by omega) (by decide),
    min_toNat_uint16 (v := x0 + t') (by omega) (by omega) (by decide),
    min_toNat_uint16 (v := y0 + u) (by omega) (by omega) (by decide)] at hspec

/-- The four lines of a round, with the offsets as the code writes them. -/
theorem circleLines_spec {x y : ℤ} (hx : 0 ≤ x ∧ x ≤ r) (hy : 0 ≤ y ∧ y ≤ r) :
    ∃ l₁ l₂ l₃ l₄ : ScreenCmd, circleLines x0 y0 x y c = some (Cmd.each id [l₁, l₂, l₃, l₄]) ∧
      DrawsLine (clip 127 (x0 - x)) (clip 63 (y0 + y)) (clip 127 (x0 + x)) (clip 63 (y0 + y)) c l₁ ∧
      DrawsLine (clip 127 (x0 + x)) (clip 63 (y0 - y)) (clip 127 (x0 - x)) (clip 63 (y0 - y)) c l₂ ∧
      DrawsLine (clip 127 (x0 + y)) (clip 63 (y0 + x)) (clip 127 (x0 - y)) (clip 63 (y0 + x)) c l₃ ∧
      DrawsLine (clip 127 (x0 + y)) (clip 63 (y0 - x)) (clip 127 (x0 - y)) (clip 63 (y0 - x)) c l₄ := by
  have hx' : |x| ≤ r := abs_le.mpr ⟨by omega, hx.2⟩
  have hy' : |y| ≤ r := abs_le.mpr ⟨by omega, hy.2⟩
  have hnx : |-x| ≤ r := by rwa [abs_neg]
  have hny : |-y| ≤ r := by rwa [abs_neg]
  obtain ⟨l₁, h₁, d₁⟩ := level_spec hx0 hy0 hr c hnx hx' hy'
  obtain ⟨l₂, h₂, d₂⟩ := level_spec hx0 hy0 hr c hx' hnx hny
  obtain ⟨l₃, h₃, d₃⟩ := level_spec hx0 hy0 hr c hy' hny hx'
  obtain ⟨l₄, h₄, d₄⟩ := level_spec hx0 hy0 hr c hy' hny hnx
  simp only [← sub_eq_add_neg] at h₁ h₂ h₃ h₄ d₁ d₂ d₃ d₄
  refine ⟨l₁, l₂, l₃, l₄, ?_, d₁, d₂, d₃, d₄⟩
  rw [circleLines, h₁, h₂, h₃, h₄]
  exact Loop.seq_map_some [l₁, l₂, l₃, l₄]

/-- A call of `ST7567_DrawPixel` is not clamped: with a negative coordinate it does nothing. -/
theorem inside_drawPixel {t u : ℤ} (ht : |t| ≤ r) (hu : |u| ≤ r) :
    Inside x0 y0 r c (drawPixel (uint16 (x0 + t)) (uint16 (y0 + u)) c) where
  paints := paints_drawPixel _ _ c
  inside := by
    intro s p hp hon
    obtain ⟨ht₁, ht₂⟩ := abs_le.mp ht
    obtain ⟨hu₁, hu₂⟩ := abs_le.mp hu
    rw [drawn_drawPixel] at hp
    obtain rfl := List.mem_singleton.mp hp
    obtain ⟨hx, hy⟩ := hon
    simp only [st7567Width, st7567Height] at hx hy
    have hxpos : 0 ≤ x0 + t := by
      by_contra hneg
      have := le_toNat_uint16_of_neg (v := x0 + t) (by omega) (by omega)
      omega
    have hypos : 0 ≤ y0 + u := by
      by_contra hneg
      have := le_toNat_uint16_of_neg (v := y0 + u) (by omega) (by omega)
      omega
    dsimp only
    rw [toNat_uint16_of_nonneg hxpos (by omega), toNat_uint16_of_nonneg hypos (by omega)]
    exact ⟨⟨by omega, by omega⟩, by omega, by omega⟩

/-- The first line, through the centre. -/
theorem diameter_spec (hr0 : 0 ≤ r) :
    ∃ cmd, drawLine (uint16 (x0 - r)) (uint16 y0) (uint16 (x0 + r)) (uint16 y0) c = some cmd ∧
      DrawsLine (clip 127 (x0 - r)) (clip 63 y0) (clip 127 (x0 + r)) (clip 63 y0) c cmd := by
  have hright : |r| ≤ r := (abs_of_nonneg hr0).le
  have hleft : |-r| ≤ r := by rwa [abs_neg]
  have hcentre : |(0 : ℤ)| ≤ r := by rwa [abs_zero]
  have hspec := level_spec hx0 hy0 hr c hleft hright hcentre
  rwa [← sub_eq_add_neg, add_zero] at hspec

omit hx0 hy0 in
/-- The offsets stay between zero and `r`, and come closer. -/
theorem next_spec {v : CircleVars} (hx : 0 ≤ v.x) (hxy : v.x < v.y) (hy : v.y ≤ r) :
    v.next.x = v.x + 1 ∧ v.next.y = if v.f ≥ 0 then v.y - 1 else v.y := by
  simp only [CircleVars.next]
  rw [int16_of_fits (v := v.x + 1) ⟨by omega, by omega⟩, int16_of_fits (v := v.y - 1) ⟨by omega, by omega⟩]
  exact ⟨rfl, rfl⟩

/-- The loop ends, and is good when the four lines of every round are. -/
theorem run_circle {good : ScreenCmd → Prop} (hskip : good Cmd.skip)
    (handThen : ∀ c d, good c → good d → good (c.andThen d))
    (hlines : ∀ x y : ℤ, 0 ≤ x ∧ x ≤ r → 0 ≤ y ∧ y ≤ r →
      ∀ cmd, circleLines x0 y0 x y c = some cmd → good cmd)
    {v : CircleVars} (hx : 0 ≤ v.x) (hy : 0 ≤ v.y ∧ v.y ≤ r) {n : ℕ} (hn : (v.y - v.x).toNat < n) :
    ∃ cmd, Loop.run (circleRound x0 y0 c) n v = some cmd ∧ good cmd := by
  apply Loop.run_total (fun v => 0 ≤ v.x ∧ 0 ≤ v.y ∧ v.y ≤ r) (fun v => (v.y - v.x).toNat) handThen
    ?_ ⟨hx, hy⟩ hn
  rintro v ⟨hx, hy0', hy⟩
  unfold circleRound
  split
  · rename_i hxy
    obtain ⟨hnx, hny⟩ := next_spec hr hx hxy hy
    have hny' : v.y - 1 ≤ v.next.y ∧ v.next.y ≤ v.y := by
      rw [hny]
      split <;> omega
    obtain ⟨l₁, l₂, l₃, l₄, hsome, -⟩ := circleLines_spec hx0 hy0 hr c (x := v.next.x) (y := v.next.y)
      ⟨by omega, by omega⟩ ⟨by omega, by omega⟩
    refine ⟨_, hsome, hlines v.next.x v.next.y ⟨by omega, by omega⟩ ⟨by omega, by omega⟩ _ hsome, ?_⟩
    rintro v' hv'
    obtain rfl := Option.some.inj hv'
    exact ⟨⟨by omega, by omega, by omega⟩, by omega⟩
  · exact ⟨_, rfl, hskip, fun _ h => nomatch h⟩

/-- The four pixels at the ends of the axes. -/
theorem inside_circlePixels (hr0 : 0 ≤ r) : ∀ p ∈ circlePixels x0 y0 r c, Inside x0 y0 r c p := by
  have hr' : |r| ≤ r := (abs_of_nonneg hr0).le
  have hn : |-r| ≤ r := by rwa [abs_neg]
  have h0 : |(0 : ℤ)| ≤ r := by rwa [abs_zero]
  have h₁ := inside_drawPixel hx0 hy0 hr c h0 hr'
  have h₂ := inside_drawPixel hx0 hy0 hr c h0 hn
  have h₃ := inside_drawPixel hx0 hy0 hr c hr' h0
  have h₄ := inside_drawPixel hx0 hy0 hr c hn h0
  simp only [add_zero, ← sub_eq_add_neg] at h₁ h₂ h₃ h₄
  intro p hp
  simp only [circlePixels, List.mem_cons, List.not_mem_nil, or_false] at hp
  rcases hp with rfl | rfl | rfl | rfl
  · exact h₁
  · exact h₂
  · exact h₃
  · exact h₄

/-- With no negative coordinate, or with the far edge in the square, every call is inside. -/
theorem drawFilledCircle_inside (hr0 : 0 ≤ r) (hfarx : r ≤ x0 ∨ 127 ≤ x0 + r)
    (hfary : r ≤ y0 ∨ 63 ≤ y0 + r) :
    ∃ cmd, drawFilledCircle x0 y0 r c = some cmd ∧ Inside x0 y0 r c cmd := by
  have hcol : ∀ {t : ℤ}, |t| ≤ r → x0 - r ≤ clip 127 (x0 + t) ∧ (clip 127 (x0 + t) : ℤ) ≤ x0 + r :=
    fun ht => clip_mem (by omega) ht hfarx
  have hrow : ∀ {u : ℤ}, |u| ≤ r → y0 - r ≤ clip 63 (y0 + u) ∧ (clip 63 (y0 + u) : ℤ) ≤ y0 + r :=
    fun hu => clip_mem (by omega) hu hfary
  -- the four lines of a round join reflections of a point of the square
  have hlines : ∀ x y : ℤ, 0 ≤ x ∧ x ≤ r → 0 ≤ y ∧ y ≤ r →
      ∀ cmd, circleLines x0 y0 x y c = some cmd → Inside x0 y0 r c cmd := by
    intro x y hx hy cmd hcmd
    have hx' : |x| ≤ r := abs_le.mpr ⟨by omega, hx.2⟩
    have hy' : |y| ≤ r := abs_le.mpr ⟨by omega, hy.2⟩
    have hnx : |-x| ≤ r := by rwa [abs_neg]
    have hny : |-y| ≤ r := by rwa [abs_neg]
    obtain ⟨l₁, l₂, l₃, l₄, hsome, d₁, d₂, d₃, d₄⟩ := circleLines_spec hx0 hy0 hr c hx hy
    obtain rfl := Option.some.inj (hsome.symm.trans hcmd)
    apply inside_each
    intro l hl
    simp only [List.mem_cons, List.not_mem_nil, or_false] at hl
    rcases hl with rfl | rfl | rfl | rfl
    · exact inside_of_drawsLine d₁ (hcol hnx) (hcol hx') (hrow hy')
    · exact inside_of_drawsLine d₂ (hcol hx') (hcol hnx) (hrow hny)
    · exact inside_of_drawsLine d₃ (hcol hy') (hcol hny) (hrow hx')
    · exact inside_of_drawsLine d₄ (hcol hy') (hcol hny) (hrow hnx)
  obtain ⟨loop, hloop, hinside⟩ := run_circle hx0 hy0 hr c (inside_skip x0 y0 r c)
    (fun _ _ => Inside.andThen) hlines (v := circleStart r) (le_refl 0) ⟨hr0, le_refl r⟩
    (n := r.toNat + 1) (by simp [circleStart])
  obtain ⟨diameter, hdiameter, hline⟩ := diameter_spec hx0 hy0 hr c hr0
  refine ⟨_, drawFilledCircle_eq hdiameter hloop, inside_each fun cmd hcmd => ?_⟩
  rcases List.mem_append.mp hcmd with hpixel | hrest
  · exact inside_circlePixels hx0 hy0 hr c hr0 cmd hpixel
  · simp only [List.mem_cons, List.not_mem_nil, or_false] at hrest
    rcases hrest with rfl | rfl
    · have hn : |-r| ≤ r := by rw [abs_neg, abs_of_nonneg hr0]
      have hr' : |r| ≤ r := (abs_of_nonneg hr0).le
      have h0 : |(0 : ℤ)| ≤ r := by rwa [abs_zero]
      have hy := hrow h0
      rw [add_zero] at hy
      exact inside_of_drawsLine hline (hcol hn) (hcol hr') hy
    · exact hinside

/-- In any case the circle is drawn in its colour, with the first line and the first round. -/
theorem drawFilledCircle_paints (hr0 : 0 ≤ r) :
    ∃ diameter loop : ScreenCmd,
      drawFilledCircle x0 y0 r c = some (Cmd.each id (circlePixels x0 y0 r c ++ [diameter, loop])) ∧
      DrawsLine (clip 127 (x0 - r)) (clip 63 y0) (clip 127 (x0 + r)) (clip 63 y0) c diameter ∧
      Loop.run (circleRound x0 y0 c) (r.toNat + 1) (circleStart r) = some loop ∧
      Paints c (Cmd.each id (circlePixels x0 y0 r c ++ [diameter, loop])) := by
  have hlines : ∀ x y : ℤ, 0 ≤ x ∧ x ≤ r → 0 ≤ y ∧ y ≤ r →
      ∀ cmd, circleLines x0 y0 x y c = some cmd → Paints c cmd := by
    intro x y hx hy cmd hcmd
    obtain ⟨l₁, l₂, l₃, l₄, hsome, d₁, d₂, d₃, d₄⟩ := circleLines_spec hx0 hy0 hr c hx hy
    obtain rfl := Option.some.inj (hsome.symm.trans hcmd)
    apply paints_each
    intro l hl
    simp only [List.mem_cons, List.not_mem_nil, or_false] at hl
    rcases hl with rfl | rfl | rfl | rfl
    · exact d₁.paints
    · exact d₂.paints
    · exact d₃.paints
    · exact d₄.paints
  obtain ⟨loop, hloop, hpaints⟩ := run_circle hx0 hy0 hr c (paints_skip c)
    (fun _ _ => Paints.andThen) hlines (v := circleStart r) (le_refl 0) ⟨hr0, le_refl r⟩
    (n := r.toNat + 1) (by simp [circleStart])
  obtain ⟨diameter, hdiameter, hline⟩ := diameter_spec hx0 hy0 hr c hr0
  refine ⟨diameter, loop, drawFilledCircle_eq hdiameter hloop, hline, hloop, paints_each fun cmd hcmd => ?_⟩
  rcases List.mem_append.mp hcmd with hpixel | hrest
  · exact (inside_circlePixels hx0 hy0 hr c hr0 cmd hpixel).paints
  · simp only [List.mem_cons, List.not_mem_nil, or_false] at hrest
    rcases hrest with rfl | rfl
    · exact hline.paints
    · exact hpaints

/-- The first round draws a line in the row `y0 - r`. -/
theorem row_of_loop (hr1 : 1 ≤ r) {loop : ScreenCmd}
    (hloop : Loop.run (circleRound x0 y0 c) (r.toNat + 1) (circleStart r) = some loop) :
    ∃ x ≤ 127, ∀ s, (x, clip 63 (y0 - r)) ∈ drawn (loop s).2 := by
  obtain ⟨hnx, hny⟩ := next_spec hr (v := circleStart r) (le_refl 0) hr1 (le_refl r)
  -- the larger offset is still `r`, unless `r` is one and the smaller one has become `r`
  have hoffset : (circleStart r).next.x = r ∨ (circleStart r).next.y = r := by
    by_cases hone : r = 1
    · left
      rw [hnx, hone]
      rfl
    · right
      have hf : (circleStart r).f = 1 - r := int16_of_fits ⟨by omega, by omega⟩
      rw [hny, hf, if_neg (by omega)]
      rfl
  have hx : 0 ≤ (circleStart r).next.x ∧ (circleStart r).next.x ≤ r := by
    rw [hnx, circleStart]
    exact ⟨by simp, by simpa using hr1⟩
  have hy : 0 ≤ (circleStart r).next.y ∧ (circleStart r).next.y ≤ r := by
    rw [hny, circleStart]
    dsimp only
    split <;> omega
  obtain ⟨l₁, l₂, l₃, l₄, hsome, -, d₂, -, d₄⟩ := circleLines_spec hx0 hy0 hr c hx hy
  have hround : circleRound x0 y0 c (circleStart r) =
      (some (Cmd.each id [l₁, l₂, l₃, l₄]), some (circleStart r).next) := by
    rw [circleRound, if_pos (by exact hr1), hsome]
  obtain ⟨rest, -, rfl⟩ : ∃ rest, Loop.run (circleRound x0 y0 c) r.toNat (circleStart r).next = some rest ∧
      (Cmd.each id [l₁, l₂, l₃, l₄]).andThen rest = loop := by
    rw [Loop.run_go hround] at hloop
    exact Option.map_eq_some_iff.mp hloop
  have hmem : ∀ {a b u : ℕ} {l : ScreenCmd}, DrawsLine a u b u c l → l ∈ [l₁, l₂, l₃, l₄] →
      ∀ s, (a, u) ∈ drawn (((Cmd.each id [l₁, l₂, l₃, l₄]).andThen rest s)).2 := by
    intro a b u l hl hin s
    rw [Cmd.andThen_apply, drawn_append]
    apply List.mem_append_left
    exact mem_drawn_each hin (fun t => (hl.points t).start) s
  rcases hoffset with hxr | hyr
  · rw [hxr] at d₄
    exact ⟨_, clip_le 127 _, hmem d₄ (by simp)⟩
  · rw [hyr] at d₂
    exact ⟨_, clip_le 127 _, hmem d₂ (by simp)⟩

end Square

/-! ## The square -/

/-- The routine ends, and whatever is on the screen, every pixel it changes lies in the square
around the disc. -/
def StaysInSquare (x0 y0 r : ℤ) (c : U8) : Prop :=
  ∃ cmd, drawFilledCircle x0 y0 r c = some cmd ∧ ∀ s x y, OnScreen x y →
    image (cmd s).1 x y ≠ image s x y → InSquare x0 y0 r x y

/-- A screen on which every pixel painted in a colour changes. -/
def opposite (c : U8) : Screen := ⟨fun _ => if c = colorFront then 0x00 else 0xFF, 0, 0⟩

/-- On that screen every pixel has the other colour. -/
theorem image_opposite (c : U8) (x y : ℕ) : image (opposite c) x y = !decide (c = colorFront) := by
  have hmod : y % 8 < 8 := Nat.mod_lt y (by decide)
  have hbit : (0xFF#8).getLsbD (y % 8) = true := by
    revert hmod
    generalize y % 8 = k
    revert k
    decide
  unfold image opposite
  by_cases hc : c = colorFront
  · simp [hc]
  · simpa [hc] using hbit

/-- A pixel drawn outside the square is changed on some screen. -/
theorem not_staysInSquare {x0 y0 r : ℤ} {c : U8} {cmd : ScreenCmd}
    (hsome : drawFilledCircle x0 y0 r c = some cmd) (hpaints : Paints c cmd) {x y : ℕ}
    (hon : OnScreen x y) (hdrawn : (x, y) ∈ drawn (cmd (opposite c)).2)
    (hout : ¬ InSquare x0 y0 r x y) : ¬ StaysInSquare x0 y0 r c := by
  rintro ⟨cmd', hsome', hstays⟩
  obtain rfl := Option.some.inj (hsome.symm.trans hsome')
  apply hout
  apply hstays (opposite c) x y hon
  rw [hpaints.image_eq (opposite c) hon, if_pos hdrawn, image_opposite]
  cases decide (c = colorFront) <;> decide

/-- **A disc over the left edge**: its diameter is drawn on to the right edge. -/
theorem not_staysInSquare_left {x0 y0 r : ℤ} (hx0 : 0 ≤ x0) (hy0 : 0 ≤ y0 ∧ y0 < 64) (c : U8)
    (hleft : x0 < r) (hright : x0 + r < 127) : ¬ StaysInSquare x0 y0 r c := by
  have hx : 0 ≤ x0 ∧ x0 < 128 := ⟨hx0, by omega⟩
  have hr : r ≤ 127 := by omega
  obtain ⟨diameter, loop, hsome, hline, -, hpaints⟩ :=
    drawFilledCircle_paints hx hy0 hr c (by omega)
  rw [clip_of_neg 127 (by omega)] at hline
  have hy := clip_le 63 y0
  refine not_staysInSquare hsome hpaints (x := 127) (y := clip 63 y0) ?_ ?_ ?_
  · exact ⟨by decide, by simp only [st7567Height]; omega⟩
  · have hmem : diameter ∈ circlePixels x0 y0 r c ++ [diameter, loop] := by simp
    exact mem_drawn_each hmem (fun s => (hline.points s).start) _
  · rintro ⟨⟨-, hsquare⟩, -⟩
    omega

/-- **A disc over the top edge**: a line of its first round is drawn in the bottom row. -/
theorem not_staysInSquare_top {x0 y0 r : ℤ} (hx0 : 0 ≤ x0 ∧ x0 < 128) (hy0 : 0 ≤ y0) (c : U8)
    (htop : y0 < r) (hbottom : y0 + r < 63) : ¬ StaysInSquare x0 y0 r c := by
  have hy : 0 ≤ y0 ∧ y0 < 64 := ⟨hy0, by omega⟩
  have hr : r ≤ 127 := by omega
  obtain ⟨diameter, loop, hsome, -, hloop, hpaints⟩ :=
    drawFilledCircle_paints hx0 hy hr c (by omega)
  have hrow := row_of_loop hx0 hy hr c (by omega) hloop
  rw [clip_of_neg 63 (by omega)] at hrow
  obtain ⟨x, hx, hmem⟩ := hrow
  refine not_staysInSquare hsome hpaints (x := x) (y := 63) ?_ ?_ ?_
  · exact ⟨by simp only [st7567Width]; omega, by decide⟩
  · have hloop' : loop ∈ circlePixels x0 y0 r c ++ [diameter, loop] := by simp
    exact mem_drawn_each hloop' hmem _
  · rintro ⟨-, -, hsquare⟩
    omega

/-- **A filled circle stays in its square** exactly if on each axis it does not pass the near edge,
or reaches the far one.
SOURCE: ST7567.c:337-436, 606-638 -/
theorem staysInSquare_iff {x0 y0 r : ℤ} (hx0 : 0 ≤ x0 ∧ x0 < 128) (hy0 : 0 ≤ y0 ∧ y0 < 64)
    (hr : 0 ≤ r ∧ r ≤ 127) (c : U8) :
    StaysInSquare x0 y0 r c ↔ (r ≤ x0 ∨ 127 ≤ x0 + r) ∧ (r ≤ y0 ∨ 63 ≤ y0 + r) := by
  constructor
  · intro hstays
    constructor
    · by_contra hfar
      exact not_staysInSquare_left hx0.1 hy0 c (by omega) (by omega) hstays
    · by_contra hfar
      exact not_staysInSquare_top hx0 hy0.1 c (by omega) (by omega) hstays
  · rintro ⟨hfarx, hfary⟩
    obtain ⟨cmd, hsome, hinside⟩ := drawFilledCircle_inside hx0 hy0 hr.2 c hr.1 hfarx hfary
    refine ⟨cmd, hsome, fun s x y hon hchanged => ?_⟩
    rw [hinside.paints.image_eq s hon] at hchanged
    by_cases hdrawn : (x, y) ∈ drawn (cmd s).2
    · exact hinside.inside s (x, y) hdrawn hon
    · rw [if_neg hdrawn] at hchanged
      exact absurd rfl hchanged

/-- A disc in the middle of the screen. -/
theorem staysInSquare_middle : StaysInSquare 64 32 5 1 :=
  (staysInSquare_iff (by decide) (by decide) (by decide) 1).mpr (by decide)

/-- A disc of radius one in the corner draws the top row out to the right edge. -/
theorem not_staysInSquare_corner : ¬ StaysInSquare 0 0 1 1 :=
  not_staysInSquare_left (by decide) (by decide) 1 (by decide) (by decide)

end InfraredModule.Analysis
