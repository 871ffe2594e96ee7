import InfraredModule.Foundation.DigitalLine
import InfraredModule.Analysis.Framebuffer

/-!
# Lines

`ST7567_DrawLine` leaves its open loop only when it hits the end point, so that it ends is a fact
about its error variable. With the longer axis first, the variables in round `k` are the point and
the running error of the rounded line in column `k` (`DigitalLine`); when the vertical axis is the
longer one the error is kept negative. Both sequences follow the rounds of the loop (`shallow_go`,
`steep_go`) and end at the end point. Vertical and horizontal lines have loops of their own, which
draw from the smaller coordinate on.
-/

set_option autoImplicit false

namespace InfraredModule.Analysis

open InfraredModule.Foundation InfraredModule.Foundation.DigitalLine InfraredModule.Model

/-! ## Machine numbers -/

/-- A value of type `int16_t`. -/
def FitsInt16 (v : ℤ) : Prop := -32768 ≤ v ∧ v ≤ 32767

/-- Converting a value that fits leaves it. -/
theorem int16_of_fits {v : ℤ} (h : FitsInt16 v) : int16 v = v := by
  obtain ⟨hlow, hhigh⟩ := h
  apply Int.bmod_eq_of_le_mul_two
  · simp only [Nat.cast_ofNat]
    omega
  · simp only [Nat.cast_ofNat]
    omega

/-- Converting a natural number. -/
theorem uint16_natCast (n : ℕ) : uint16 n = BitVec.ofNat 16 n := BitVec.ofInt_natCast 16 n

/-- A number that fits in 16 bits is kept. -/
theorem toNat_ofNat_of_lt {n : ℕ} (h : n < 65536) : (BitVec.ofNat 16 n).toNat = n := by
  rw [BitVec.toNat_ofNat]
  exact Nat.mod_eq_of_lt h

/-- A coordinate on the way from one to another, as the code stores it. -/
def coord (a b j : ℕ) : U16 := BitVec.ofNat 16 (toward a b j)

section Coordinates

variable {a b : ℕ} (ha : a < 128) (hb : b < 128)

include ha hb

/-- A coordinate on the way is kept as it is. -/
theorem toNat_coord {j : ℕ} (hj : j ≤ gap a b) : (coord a b j).toNat = toward a b j := by
  have := (toward_mem a b hj).2
  exact toNat_ofNat_of_lt (by omega)

/-- `x0 += sx`. -/
theorem coord_step {j : ℕ} (hj : j < gap a b) :
    uint16 ((coord a b j).toNat + if a < b then 1 else -1) = coord a b (j + 1) := by
  have hnext : (((coord a b j).toNat : ℤ) + if a < b then 1 else -1) = (toward a b (j + 1) : ℕ) := by
    have h₁ := (toward_sub a b hj.le).1
    have h₂ := (toward_sub a b (j := j + 1) hj).1
    rw [toNat_coord ha hb hj.le]
    by_cases hab : a < b
    · simp only [hab, if_true] at h₁ h₂ ⊢
      omega
    · simp only [hab, if_false] at h₁ h₂ ⊢
      omega
  rw [hnext, uint16_natCast]
  rfl

/-- The coordinate meets the end point in the last step only. -/
theorem coord_eq_iff {j : ℕ} (hj : j ≤ gap a b) : coord a b j = BitVec.ofNat 16 b ↔ j = gap a b := by
  constructor
  · intro h
    have hval := congrArg BitVec.toNat h
    rw [toNat_coord ha hb hj, toNat_ofNat_of_lt (by omega)] at hval
    unfold gap at hj ⊢
    unfold toward at hval
    by_cases hab : a < b
    · rw [if_pos hab] at hval hj ⊢
      omega
    · rw [if_neg hab] at hval hj ⊢
      omega
  · rintro rfl
    rw [coord, toward_gap]

end Coordinates

/-! ## The loop -/

/-- The command of a round. -/
def lineAct (dx dy sx sy : ℤ) (x1 y1 : U16) (c : U8) (v : LineVars) : ScreenCmd :=
  (lineRound dx dy sx sy x1 y1 c v).1.getD Cmd.skip

/-- Every round draws. -/
theorem lineRound_fst (dx dy sx sy : ℤ) (x1 y1 : U16) (c : U8) (v : LineVars) :
    (lineRound dx dy sx sy x1 y1 c v).1 = some (lineAct dx dy sx sy x1 y1 c v) := by
  unfold lineAct lineRound
  split <;> rfl

section Rounds

variable {x₀ y₀ x₁ y₁ : ℕ} (hx₀ : x₀ < 128) (hy₀ : y₀ < 64) (hx₁ : x₁ < 128) (hy₁ : y₁ < 64) (c : U8)

/-- The round of the loop for a line between two given points. -/
def roundOf (x₀ y₀ x₁ y₁ : ℕ) (c : U8) : Loop.Round LineVars Screen ScreenObs :=
  lineRound (gap x₀ x₁) (gap y₀ y₁) (if x₀ < x₁ then 1 else -1) (if y₀ < y₁ then 1 else -1)
    (BitVec.ofNat 16 x₁) (BitVec.ofNat 16 y₁) c

include hx₀ hy₀ hx₁ hy₁

/-- **One round**, from a point `i` steps along the first axis and `j` along the second. -/
theorem round_next {i j : ℕ} {e : ℤ} (hi : i ≤ gap x₀ x₁) (hj : j ≤ gap y₀ y₁) (he : |e| < 128)
    (hend : ¬ (i = gap x₀ x₁ ∧ j = gap y₀ y₁)) (hright : e > -(gap x₀ x₁ : ℤ) → i < gap x₀ x₁)
    (hup : e < gap y₀ y₁ → j < gap y₀ y₁) :
    (roundOf x₀ y₀ x₁ y₁ c ⟨coord x₀ x₁ i, coord y₀ y₁ j, e⟩).2 =
      some ⟨coord x₀ x₁ (if e > -(gap x₀ x₁ : ℤ) then i + 1 else i),
        coord y₀ y₁ (if e < gap y₀ y₁ then j + 1 else j),
        (if e > -(gap x₀ x₁ : ℤ) then e - gap y₀ y₁ else e) +
          if e < gap y₀ y₁ then (gap x₀ x₁ : ℤ) else 0⟩ := by
  have hy₀' : y₀ < 128 := by omega
  have hy₁' : y₁ < 128 := by omega
  have hdx : gap x₀ x₁ < 128 := by unfold gap; split <;> omega
  have hdy : gap y₀ y₁ < 128 := by unfold gap; split <;> omega
  obtain ⟨helow, hehigh⟩ := abs_lt.mp he
  have hstay : ¬ (coord x₀ x₁ i = BitVec.ofNat 16 x₁ ∧ coord y₀ y₁ j = BitVec.ofNat 16 y₁) := by
    rw [coord_eq_iff hx₀ hx₁ hi, coord_eq_iff hy₀' hy₁' hj]
    exact hend
  have hfits : FitsInt16 (e - gap y₀ y₁) := ⟨by omega, by omega⟩
  simp only [roundOf, lineRound, hstay, if_false]
  by_cases hr : e > -(gap x₀ x₁ : ℤ)
  · simp only [hr, if_true]
    rw [int16_of_fits hfits, coord_step hx₀ hx₁ (hright hr)]
    by_cases hu : e < gap y₀ y₁
    · simp only [hu, if_true]
      rw [coord_step hy₀' hy₁' (hup hu), int16_of_fits ⟨by omega, by omega⟩]
    · simp only [hu, if_false, Int.add_zero]
  · simp only [hr, if_false]
    by_cases hu : e < gap y₀ y₁
    · simp only [hu, if_true]
      rw [coord_step hy₀' hy₁' (hup hu), int16_of_fits ⟨by omega, by omega⟩]
    · simp only [hu, if_false, Int.add_zero]

/-- The variables of a line whose first axis is the longer one. -/
def shallow (x₀ y₀ x₁ y₁ k : ℕ) : LineVars :=
  ⟨coord x₀ x₁ k, coord y₀ y₁ (minor (gap x₀ x₁) (gap y₀ y₁) k), error (gap x₀ x₁) (gap y₀ y₁) k⟩

/-- The variables of a line whose second axis is not the shorter one. -/
def steep (x₀ y₀ x₁ y₁ k : ℕ) : LineVars :=
  ⟨coord x₀ x₁ (minor (gap y₀ y₁) (gap x₀ x₁) k), coord y₀ y₁ k, -error (gap y₀ y₁) (gap x₀ x₁) k⟩

/-- A round steps along the longer first axis. -/
theorem shallow_go (hm : gap y₀ y₁ < gap x₀ x₁) {k : ℕ} (hk : k < gap x₀ x₁) :
    (roundOf x₀ y₀ x₁ y₁ c (shallow x₀ y₀ x₁ y₁ k)).2 = some (shallow x₀ y₀ x₁ y₁ (k + 1)) := by
  have hM : 0 < gap x₀ x₁ := by omega
  have hdx : gap x₀ x₁ < 128 := by unfold gap; split <;> omega
  obtain ⟨hlow, hhigh⟩ := error_bounds hM (gap y₀ y₁) k
  have hminor := minor_le hM (gap y₀ y₁) hk.le
  have hsucc := minor_succ hm.le hM k
  have hnext := minor_le hM (gap y₀ y₁) (k := k + 1) hk
  have herr := error_succ hm.le hM k
  have hright : error (gap x₀ x₁) (gap y₀ y₁) k > -(gap x₀ x₁ : ℤ) := by omega
  rw [shallow, round_next hx₀ hy₀ hx₁ hy₁ c hk.le hminor (abs_lt.mpr ⟨by omega, by omega⟩)
    (by omega) (fun _ => hk) ?_]
  · rw [shallow, hsucc, herr, if_pos hright, if_pos hright]
    congr 2
    split <;> omega
  · intro hup
    rw [if_pos hup] at hsucc
    omega

/-- A round steps along the longer second axis. -/
theorem steep_go (hm : gap x₀ x₁ ≤ gap y₀ y₁) {k : ℕ} (hk : k < gap y₀ y₁) :
    (roundOf x₀ y₀ x₁ y₁ c (steep x₀ y₀ x₁ y₁ k)).2 = some (steep x₀ y₀ x₁ y₁ (k + 1)) := by
  have hM : 0 < gap y₀ y₁ := by omega
  have hdy : gap y₀ y₁ < 128 := by unfold gap; split <;> omega
  obtain ⟨hlow, hhigh⟩ := error_bounds hM (gap x₀ x₁) k
  have hminor := minor_le hM (gap x₀ x₁) hk.le
  have hsucc := minor_succ hm hM k
  have hnext := minor_le hM (gap x₀ x₁) (k := k + 1) hk
  have herr := error_succ hm hM k
  have hup : -error (gap y₀ y₁) (gap x₀ x₁) k < gap y₀ y₁ := by omega
  have hflip : -error (gap y₀ y₁) (gap x₀ x₁) k > -(gap x₀ x₁ : ℤ) ↔
      error (gap y₀ y₁) (gap x₀ x₁) k < gap x₀ x₁ := by omega
  rw [steep, round_next hx₀ hy₀ hx₁ hy₁ c hminor hk.le (abs_lt.mpr ⟨by omega, by omega⟩)
    (by omega) ?_ (fun _ => hk)]
  · rw [steep, hsucc, herr, if_pos hup, if_pos hup]
    simp only [hflip]
    congr 2
    split <;> omega
  · intro hright
    rw [if_pos (hflip.mp hright)] at hsucc
    omega

end Rounds

/-- The loop is left at the end point. -/
theorem round_leave (x₀ y₀ x₁ y₁ : ℕ) (c : U8) (e : ℤ) :
    (roundOf x₀ y₀ x₁ y₁ c ⟨coord x₀ x₁ (gap x₀ x₁), coord y₀ y₁ (gap y₀ y₁), e⟩).2 = none := by
  simp only [roundOf, lineRound, coord, toward_gap, and_self, if_true]

/-! ## What a round does -/

/-- The value assigned to `err` fits. -/
def ErrFits (o : ScreenObs) : Prop := ∀ v, o = .err v → FitsInt16 v

/-- Values of `err` draw no pixel. -/
theorem drawn_map_err (vs : List ℤ) : drawn (vs.map .err) = [] := by
  rw [drawn, List.filterMap_map, List.filterMap_eq_nil_iff]
  intro v _
  rfl

/-- A pixel write assigns no `err`. -/
theorem errFits_drawPixel (x y : U16) (c : U8) : Cmd.Emits ErrFits (drawPixel x y c) := by
  rintro s o ho v rfl
  unfold drawPixel at ho
  split at ho <;> simp at ho

/-- Values of `err` paint nothing. -/
theorem paints_err (c : U8) (vs : List ℤ) :
    Paints c (Cmd.emit fun _ => vs.map ScreenObs.err) := by
  apply paints_emit
  intro s o ho i b hhit
  obtain ⟨v, -, rfl⟩ := List.mem_map.mp ho
  exact hhit

/-- A loop keeps `err` in range when its body does. -/
theorem errFits_each {α : Type} {body : α → ScreenCmd} {l : List α}
    (h : ∀ a ∈ l, Cmd.Emits ErrFits (body a)) : Cmd.Emits ErrFits (Cmd.each body l) :=
  Cmd.each_induction (fun _ _ ho => absurd ho List.not_mem_nil) (fun _ _ => Cmd.Emits.andThen) h

/-- A round makes one call, for the point of its variables. -/
theorem lineAct_spec (dx dy sx sy : ℤ) (x1 y1 : U16) (c : U8) (v : LineVars) :
    (∀ s, drawn (lineAct dx dy sx sy x1 y1 c v s).2 = [(v.x0.toNat, v.y0.toNat)]) ∧
      Paints c (lineAct dx dy sx sy x1 y1 c v) := by
  unfold lineAct lineRound
  split
  · exact ⟨drawn_drawPixel _ _ c, paints_drawPixel _ _ c⟩
  · refine ⟨fun s => ?_, (paints_drawPixel _ _ c).andThen (paints_err c _)⟩
    simp only [Option.getD_some, Cmd.andThen_apply, drawn_append, drawn_drawPixel, Cmd.emit_apply,
      drawn_map_err, List.append_nil]

/-- The error is stored without loss. -/
theorem errFits_lineAct {dx dy : ℤ} (hdx : 0 ≤ dx ∧ dx < 128) (hdy : 0 ≤ dy ∧ dy < 128) (sx sy : ℤ)
    (x1 y1 : U16) (c : U8) {v : LineVars} (hv : |v.err| < 128) :
    Cmd.Emits ErrFits (lineAct dx dy sx sy x1 y1 c v) := by
  obtain ⟨hlow, hhigh⟩ := abs_lt.mp hv
  unfold lineAct lineRound
  split
  · exact errFits_drawPixel _ _ c
  · apply (errFits_drawPixel _ _ c).andThen
    rintro s o ho w rfl
    obtain ⟨w', hw, hwo⟩ := List.mem_map.mp ho
    obtain rfl := ScreenObs.err.inj hwo
    have hfits : FitsInt16 (v.err - dy) := ⟨by omega, by omega⟩
    rcases List.mem_append.mp hw with hfirst | hsecond
    · split at hfirst
      · rw [List.mem_singleton.mp hfirst]
        exact hfits
      · cases hfirst
    · split at hsecond
      · rw [List.mem_singleton.mp hsecond]
        split
        · dsimp only
          rw [int16_of_fits hfits]
          exact ⟨by omega, by omega⟩
        · exact ⟨by omega, by omega⟩
      · cases hsecond

/-! ## Whole lines -/

/-- A command that draws the nearest line between two points in one colour, without overflow. -/
structure DrawsLine (x₀ y₀ x₁ y₁ : ℕ) (c : U8) (cmd : ScreenCmd) : Prop where
  points : ∀ s, NearestLine x₀ y₀ x₁ y₁ (drawn (cmd s).2)
  paints : Paints c cmd
  fits : Cmd.Emits ErrFits cmd

/-- The loop, along variables that follow its rounds to the end point. -/
theorem run_line {x₀ y₀ x₁ y₁ : ℕ} (hdx : gap x₀ x₁ < 128) (hdy : gap y₀ y₁ < 128) (c : U8)
    {vars : ℕ → LineVars} {last : ℕ} (hlast : last < 128)
    (hgo : ∀ k < last, (roundOf x₀ y₀ x₁ y₁ c (vars k)).2 = some (vars (k + 1)))
    (hleave : (roundOf x₀ y₀ x₁ y₁ c (vars last)).2 = none) (herr : ∀ k, |(vars k).err| < 128)
    (hpoints : NearestLine x₀ y₀ x₁ y₁
      ((List.range (last + 1)).map fun k => ((vars k).x0.toNat, (vars k).y0.toNat))) :
    ∃ cmd, Loop.run (roundOf x₀ y₀ x₁ y₁ c) st7567Width (vars 0) = some cmd ∧
      DrawsLine x₀ y₀ x₁ y₁ c cmd := by
  have hrun := Loop.run_eq_each (fun k hk => Prod.ext (lineRound_fst _ _ _ _ _ _ c (vars k)) (hgo k hk))
    (Prod.ext (lineRound_fst _ _ _ _ _ _ c (vars last)) hleave) hlast
  refine ⟨_, hrun, fun s => ?_, ?_, ?_⟩
  · rw [drawn_each fun k _ => (lineAct_spec _ _ _ _ _ _ c (vars k)).1]
    exact hpoints
  · exact paints_each fun k _ => (lineAct_spec _ _ _ _ _ _ c (vars k)).2
  · exact errFits_each fun k _ => errFits_lineAct ⟨by omega, by omega⟩ ⟨by omega, by omega⟩ _ _ _ _ c
      (herr k)

section Clamped

variable {x₀ y₀ x₁ y₁ : ℕ} (hx₀ : x₀ < 128) (hy₀ : y₀ < 64) (hx₁ : x₁ < 128) (hy₁ : y₁ < 64) (c : U8)

include hx₀ hy₀ hx₁ hy₁

/-- The loop for a line whose first axis is the longer one. -/
theorem run_shallow (hm : gap y₀ y₁ < gap x₀ x₁) :
    ∃ cmd, Loop.run (roundOf x₀ y₀ x₁ y₁ c) st7567Width (shallow x₀ y₀ x₁ y₁ 0) = some cmd ∧
      DrawsLine x₀ y₀ x₁ y₁ c cmd := by
  have hM : 0 < gap x₀ x₁ := by omega
  have hdx : gap x₀ x₁ < 128 := by unfold gap; split <;> omega
  refine run_line hdx (by omega) c hdx (fun k hk => shallow_go hx₀ hy₀ hx₁ hy₁ c hm hk) ?_ ?_ ?_
  · rw [shallow, minor_last hM]
    exact round_leave x₀ y₀ x₁ y₁ c _
  · intro k
    have := error_bounds hM (gap y₀ y₁) k
    exact abs_lt.mpr ⟨by simp only [shallow]; omega, by simp only [shallow]; omega⟩
  · have hpoints := nearestLine_points hm.le hM
    rwa [List.map_congr_left fun k hk => ?_] at hpoints
    have hk' : k ≤ gap x₀ x₁ := Nat.le_of_lt_succ (List.mem_range.mp hk)
    rw [shallow, toNat_coord hx₀ hx₁ hk', toNat_coord (by omega) (by omega) (minor_le hM _ hk')]

/-- The loop for a line whose second axis is not the shorter one. -/
theorem run_steep (hm : gap x₀ x₁ ≤ gap y₀ y₁) (hM : 0 < gap y₀ y₁) :
    ∃ cmd, Loop.run (roundOf x₀ y₀ x₁ y₁ c) st7567Width (steep x₀ y₀ x₁ y₁ 0) = some cmd ∧
      DrawsLine x₀ y₀ x₁ y₁ c cmd := by
  have hdy : gap y₀ y₁ < 128 := by unfold gap; split <;> omega
  refine run_line (by omega) hdy c hdy (fun k hk => steep_go hx₀ hy₀ hx₁ hy₁ c hm hk) ?_ ?_ ?_
  · rw [steep, minor_last hM]
    exact round_leave x₀ y₀ x₁ y₁ c _
  · intro k
    have := error_bounds hM (gap x₀ x₁) k
    exact abs_lt.mpr ⟨by simp only [steep]; omega, by simp only [steep]; omega⟩
  · have hpoints := (nearestLine_points hm hM).swap
    rw [List.map_map] at hpoints
    rwa [List.map_congr_left fun k hk => ?_] at hpoints
    have hk' : k ≤ gap y₀ y₁ := Nat.le_of_lt_succ (List.mem_range.mp hk)
    rw [steep, toNat_coord hx₀ hx₁ (minor_le hM _ hk'), toNat_coord (by omega) (by omega) hk']
    rfl

/-- The open loop, from the first point on. -/
theorem run_open (hdy : gap y₀ y₁ ≠ 0) :
    ∃ cmd, Loop.run (roundOf x₀ y₀ x₁ y₁ c) st7567Width
        ⟨BitVec.ofNat 16 x₀, BitVec.ofNat 16 y₀,
          (if (gap x₀ x₁ : ℤ) > gap y₀ y₁ then (gap x₀ x₁ : ℤ) else -gap y₀ y₁).tdiv 2⟩ = some cmd ∧
      DrawsLine x₀ y₀ x₁ y₁ c cmd := by
  by_cases hm : gap y₀ y₁ < gap x₀ x₁
  · have hM : 0 < gap x₀ x₁ := by omega
    have hstart := run_shallow hx₀ hy₀ hx₁ hy₁ c hm
    rw [shallow, minor_zero hM, error_zero hM, coord, coord, toward_zero, toward_zero] at hstart
    rw [if_pos (by omega)]
    exact hstart
  · have hM : 0 < gap y₀ y₁ := by omega
    have hstart := run_steep hx₀ hy₀ hx₁ hy₁ c (by omega) hM
    rw [steep, minor_zero hM, error_zero hM, coord, coord, toward_zero, toward_zero] at hstart
    rw [if_neg (by omega), Int.neg_tdiv]
    exact hstart

end Clamped

/-- The swapped ends are the smaller and the larger one, and the loop between them counts the steps. -/
theorem ordered_spec (a b : U16) :
    (ordered a b).1.toNat = min a.toNat b.toNat ∧
      (ordered a b).2.toNat + 1 - (ordered a b).1.toNat = gap a.toNat b.toNat + 1 := by
  unfold ordered gap
  by_cases h : b.toNat < a.toNat
  · rw [if_pos h, if_neg (by omega)]
    exact ⟨by dsimp only; omega, by dsimp only; omega⟩
  · rw [if_neg h]
    refine ⟨by dsimp only; omega, ?_⟩
    dsimp only
    split <;> omega

/-- The lower coordinate comes first. -/
theorem ordered_fst {a b : U16} (h : a.toNat ≤ b.toNat) : (ordered a b).1 = a := by
  rw [ordered, if_neg (Nat.not_lt.mpr h)]

/-- A loop of calls along one axis. -/
theorem drawsLine_each {x₀ y₀ x₁ y₁ : ℕ} {c : U8} {l : List ℕ} {f : ℕ → U16 × U16}
    (h : NearestLine x₀ y₀ x₁ y₁ (l.map fun i => ((f i).1.toNat, (f i).2.toNat))) :
    DrawsLine x₀ y₀ x₁ y₁ c (Cmd.each (fun i => drawPixel (f i).1 (f i).2 c) l) where
  points := by
    intro s
    rwa [drawn_each fun i _ => drawn_drawPixel (f i).1 (f i).2 c]
  paints := paints_each fun i _ => paints_drawPixel (f i).1 (f i).2 c
  fits := errFits_each fun i _ => errFits_drawPixel (f i).1 (f i).2 c

/-- The first value of the error is recorded before anything is drawn. -/
theorem DrawsLine.record {x₀ y₀ x₁ y₁ : ℕ} {c : U8} {cmd : ScreenCmd} (h : DrawsLine x₀ y₀ x₁ y₁ c cmd)
    {v : ℤ} (hv : FitsInt16 v) :
    DrawsLine x₀ y₀ x₁ y₁ c (Cmd.andThen (Cmd.emit fun _ => [.err v]) cmd) where
  points := by
    intro s
    rw [Cmd.andThen_apply, drawn_append]
    exact h.points s
  paints := (paints_err c [v]).andThen h.paints
  fits := by
    refine Cmd.Emits.andThen ?_ h.fits
    rintro s o ho w rfl
    obtain rfl := ScreenObs.err.inj (List.mem_singleton.mp ho)
    exact hv

/-- The loop for vertical lines. -/
theorem drawsLine_vertical {x0 y0 x1 y1 : U16} (hy0 : y0.toNat < 64) (hy1 : y1.toNat < 64)
    (hsame : x1.toNat = x0.toNat) (c : U8) :
    DrawsLine x0.toNat y0.toNat x1.toNat y1.toNat c
      (Cmd.each (fun i => drawPixel (ordered x0 x1).1 (BitVec.ofNat 16 i) c)
        (List.range' (ordered y0 y1).1.toNat
          ((ordered y0 y1).2.toNat + 1 - (ordered y0 y1).1.toNat))) := by
  obtain ⟨hmin, hcount⟩ := ordered_spec y0 y1
  rw [hcount, hmin, ordered_fst hsame.ge, hsame]
  apply drawsLine_each (f := fun i => (x0, BitVec.ofNat 16 i))
  have hlevel := (nearestLine_level y0.toNat y1.toNat x0.toNat).swap
  rw [List.map_map] at hlevel
  rwa [List.map_congr_left fun i hi => ?_] at hlevel
  have hi' := List.mem_range'_1.mp hi
  have hbound : gap y0.toNat y1.toNat < 64 := by unfold gap; split <;> omega
  simp only [Function.comp_apply, Prod.swap_prod_mk]
  rw [toNat_ofNat_of_lt (by omega)]

/-- The loop for horizontal lines. -/
theorem drawsLine_horizontal {x0 y0 x1 y1 : U16} (hx0 : x0.toNat < 128) (hx1 : x1.toNat < 128)
    (hsame : y1.toNat = y0.toNat) (c : U8) :
    DrawsLine x0.toNat y0.toNat x1.toNat y1.toNat c
      (Cmd.each (fun i => drawPixel (BitVec.ofNat 16 i) (ordered y0 y1).1 c)
        (List.range' (ordered x0 x1).1.toNat
          ((ordered x0 x1).2.toNat + 1 - (ordered x0 x1).1.toNat))) := by
  obtain ⟨hmin, hcount⟩ := ordered_spec x0 x1
  rw [hcount, hmin, ordered_fst hsame.ge, hsame]
  apply drawsLine_each (f := fun i => (BitVec.ofNat 16 i, y0))
  have hlevel := nearestLine_level x0.toNat x1.toNat y0.toNat
  rwa [List.map_congr_left fun i hi => ?_] at hlevel
  have hi' := List.mem_range'_1.mp hi
  have hbound : gap x0.toNat x1.toNat < 128 := by unfold gap; split <;> omega
  rw [toNat_ofNat_of_lt (by omega)]

/-- `dx` and `dy`. -/
theorem int16_gap {a b : U16} (ha : a.toNat < 128) (hb : b.toNat < 128) :
    int16 (if a.toNat < b.toNat then (b.toNat : ℤ) - a.toNat else a.toNat - b.toNat) =
      gap a.toNat b.toNat := by
  rw [int16_of_fits]
  · unfold gap
    split <;> omega
  · split
    · exact ⟨by omega, by omega⟩
    · exact ⟨by omega, by omega⟩

/-- Points without a gap are one point. -/
theorem gap_eq_zero {a b : ℕ} (h : gap a b = 0) : b = a := by
  unfold gap at h
  split at h <;> omega

/-- **A line between two points of the screen.** -/
theorem drawClampedLine_spec {x0 y0 x1 y1 : U16} (hx0 : x0.toNat < 128) (hy0 : y0.toNat < 64)
    (hx1 : x1.toNat < 128) (hy1 : y1.toNat < 64) (c : U8) :
    ∃ cmd, drawClampedLine x0 y0 x1 y1 c = some cmd ∧
      DrawsLine x0.toNat y0.toNat x1.toNat y1.toNat c cmd := by
  have hdx : gap x0.toNat x1.toNat < 128 := by unfold gap; split <;> omega
  have hdy : gap y0.toNat y1.toNat < 128 := by unfold gap; split <;> omega
  simp only [drawClampedLine, int16_gap hx0 hx1, int16_gap (a := y0) (b := y1) (by omega) (by omega)]
  generalize herr : Int.tdiv (if (gap x0.toNat x1.toNat : ℤ) > gap y0.toNat y1.toNat then
      (gap x0.toNat x1.toNat : ℤ) else -gap y0.toNat y1.toNat) 2 = err
  have hfits : FitsInt16 err := by
    have hhalf : ∀ n : ℕ, (n : ℤ).tdiv 2 = (n / 2 : ℕ) := fun n => rfl
    rw [← herr]
    split
    · rw [hhalf]
      exact ⟨by omega, by omega⟩
    · rw [Int.neg_tdiv, hhalf]
      exact ⟨by omega, by omega⟩
  by_cases hv : (gap x0.toNat x1.toNat : ℤ) = 0
  · rw [if_pos hv]
    exact ⟨_, rfl, (drawsLine_vertical hy0 hy1 (gap_eq_zero (by omega)) c).record hfits⟩
  · rw [if_neg hv]
    by_cases hh : (gap y0.toNat y1.toNat : ℤ) = 0
    · rw [if_pos hh]
      exact ⟨_, rfl, (drawsLine_horizontal hx0 hx1 (gap_eq_zero (by omega)) c).record hfits⟩
    · rw [if_neg hh, int16_of_fits hfits]
      obtain ⟨cmd, hcmd, hline⟩ := run_open hx0 hy0 hx1 hy1 c (by omega)
      rw [herr] at hcmd
      simp only [roundOf, BitVec.ofNat_toNat, BitVec.setWidth_eq] at hcmd
      rw [hcmd]
      exact ⟨_, rfl, hline.record hfits⟩

/-- A coordinate is cut to the last one of its axis. -/
theorem toNat_clamp {limit : ℕ} (hpos : 0 < limit) (hlimit : limit ≤ 65536) (v : U16) :
    (clamp limit v).toNat = min v.toNat (limit - 1) := by
  unfold clamp
  split
  · rw [toNat_ofNat_of_lt (by omega)]
    omega
  · omega

/-- Every call draws a line between its clamped ends. -/
theorem drawLine_spec (x0 y0 x1 y1 : U16) (c : U8) :
    ∃ cmd, drawLine x0 y0 x1 y1 c = some cmd ∧
      DrawsLine (min x0.toNat 127) (min y0.toNat 63) (min x1.toNat 127) (min y1.toNat 63) c cmd := by
  have hx : ∀ x : U16, (clamp st7567Width x).toNat = min x.toNat 127 :=
    toNat_clamp (by decide) (by decide)
  have hy : ∀ y : U16, (clamp st7567Height y).toNat = min y.toNat 63 :=
    toNat_clamp (by decide) (by decide)
  have hx' : ∀ x : U16, (clamp st7567Width x).toNat < 128 := fun x => by
    rw [hx]
    omega
  have hy' : ∀ y : U16, (clamp st7567Height y).toNat < 64 := fun y => by
    rw [hy]
    omega
  have hspec := drawClampedLine_spec (hx' x0) (hy' y0) (hx' x1) (hy' y1) c
  rwa [hx, hy, hx, hy] at hspec

/-- **Every call draws the nearest line**, for all coordinates and colours: it ends; the points are
those of the nearest line between the clamped ends, all of them on the screen; no value of `err`
leaves the range of its type; and the points, and no others, take the colour.
SOURCE: ST7567.c:179-195, 337-436 -/
theorem drawLine_nearest (x0 y0 x1 y1 : U16) (c : U8) :
    ∃ cmd, drawLine x0 y0 x1 y1 c = some cmd ∧ ∀ s,
      NearestLine (min x0.toNat 127) (min y0.toNat 63) (min x1.toNat 127) (min y1.toNat 63)
          (drawn (cmd s).2) ∧
        (∀ p ∈ drawn (cmd s).2, OnScreen p.1 p.2) ∧
        (∀ v, .err v ∈ (cmd s).2 → FitsInt16 v) ∧
        ∀ x y, OnScreen x y → image (cmd s).1 x y =
          if (x, y) ∈ drawn (cmd s).2 then decide (c = colorFront) else image s x y := by
  obtain ⟨cmd, hcmd, hline⟩ := drawLine_spec x0 y0 x1 y1 c
  refine ⟨cmd, hcmd, fun s => ⟨hline.points s, fun p hp => ?_, fun v hv => ?_, fun x y hon => ?_⟩⟩
  · obtain ⟨⟨-, hx⟩, -, hy⟩ := (hline.points s).box p hp
    exact ⟨by simp only [st7567Width]; omega, by simp only [st7567Height]; omega⟩
  · exact hline.fits s _ hv v rfl
  · exact hline.paints.image_eq s hon

/-- The line from the origin to `(3, 1)` has four points, and its end is lit. -/
theorem drawLine_nearest_example :
    ∃ cmd, drawLine 0 0 3 1 1 = some cmd ∧ (drawn (cmd blankScreen).2).length = 4 ∧
      image (cmd blankScreen).1 3 1 = true := by
  obtain ⟨cmd, hcmd, hall⟩ := drawLine_nearest 0 0 3 1 1
  obtain ⟨hpoints, -, -, himage⟩ := hall blankScreen
  refine ⟨cmd, hcmd, hpoints.length, ?_⟩
  rw [himage 3 1 (by decide)]
  exact if_pos hpoints.stop

end InfraredModule.Analysis
