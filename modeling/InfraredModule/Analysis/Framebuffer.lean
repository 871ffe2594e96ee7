import InfraredModule.Model.Screen

/-!
# The framebuffer

Pixel `(x, y)` is bit `y % 8` of byte `x + y / 8 * 132`. This addressing is injective on the
screen, so `ST7567_DrawPixel` changes one pixel and nothing else (`getLsbD_drawPixel`); a sequence
of calls then leaves, in every pixel, what was last written to it (`image_represents`). The other
drawing routines reach the memory through `ST7567_DrawPixel` only: `Touches` and `Paints` say what
that means for a command, and pass through sequence.

Sending the framebuffer does not keep to it: `ST7567_UpdateScreen` sends nine pages, the buffer has
eight (`sent_updateScreen`).
-/

set_option autoImplicit false

namespace InfraredModule.Analysis

open InfraredModule.Foundation InfraredModule.Model

/-! ## One pixel -/

/-- A pixel of the screen. -/
def OnScreen (x y : ℕ) : Prop := x < st7567Width ∧ y < st7567Height

instance (x y : ℕ) : Decidable (OnScreen x y) := inferInstanceAs (Decidable (_ ∧ _))

/-- The byte of a pixel, from its coordinates as numbers. -/
def byteOf (x y : ℕ) : ℕ := x + y / 8 * 132

/-- The index that the driver computes is the byte of the pixel. -/
theorem pixelIndex_eq (x y : U16) : pixelIndex x y = byteOf x.toNat y.toNat := by
  simp only [pixelIndex, byteOf, st7567XOffset, st7567Width, st7567SegExpand, Nat.zero_add]

/-- The padded rows do not overlap, and the last one ends inside the buffer. -/
theorem byteOf_lt {x y : ℕ} (h : OnScreen x y) : byteOf x y < bufferSize ∧ byteOf x y % 132 < 128 := by
  obtain ⟨hx, hy⟩ := h
  simp only [st7567Width, st7567Height] at hx hy
  simp only [byteOf, bufferSize, st7567Width, st7567Height, st7567SegExpand]
  omega

/-- Byte and bit say which pixel it is. -/
theorem byteOf_injective {x y a b : ℕ} (h : OnScreen x y) (h' : OnScreen a b) :
    byteOf x y = byteOf a b ∧ y % 8 = b % 8 ↔ x = a ∧ y = b := by
  obtain ⟨hx, hy⟩ := h
  obtain ⟨ha, hb⟩ := h'
  simp only [st7567Width, st7567Height] at hx hy ha hb
  simp only [byteOf]
  omega

/-- The mask changes one bit of the byte. -/
theorem getLsbD_paint (y : U16) (color b : U8) {k : ℕ} (hk : k < 8) :
    (paint y color b).getLsbD k =
      if k = y.toNat % 8 then decide (color = colorFront) else b.getLsbD k := by
  have hmod : y.toNat % 8 < 8 := Nat.mod_lt _ (by decide)
  have hmask : (1#8 <<< (y.toNat % 8)).getLsbD k = decide (k = y.toNat % 8) := by
    rw [BitVec.getLsbD_shiftLeft, BitVec.getLsbD_one]
    by_cases hlt : k < y.toNat % 8
    · simp [hlt, show k ≠ y.toNat % 8 by omega]
    · by_cases heq : k = y.toNat % 8
      · simp [heq, hmod]
      · simp [hlt, heq, hk, show k - y.toNat % 8 ≠ 0 by omega]
  unfold paint
  by_cases hcolor : color = colorFront
  · rw [if_pos hcolor, BitVec.getLsbD_or, hmask]
    by_cases heq : k = y.toNat % 8 <;> simp [heq, hcolor]
  · rw [if_neg hcolor, BitVec.getLsbD_and, BitVec.getLsbD_not, hmask]
    by_cases heq : k = y.toNat % 8 <;> simp [heq, hk, hcolor]

/-- An observation that is a call for the pixel at bit `b` of byte `i`. -/
def Hit (i b : ℕ) : ScreenObs → Prop
  | .pixel x y _ => OnScreen x.toNat y.toNat ∧ i = byteOf x.toNat y.toNat ∧ b = y.toNat % 8
  | _ => False

/-- **One call changes one pixel.** -/
theorem getLsbD_drawPixel (x y : U16) (color : U8) (s : Screen) (i : ℕ) {b : ℕ} (hb : b < 8) :
    (Hit i b (.pixel x y color) →
        ((drawPixel x y color s).1.memory i).getLsbD b = decide (color = colorFront)) ∧
      (¬ Hit i b (.pixel x y color) →
        ((drawPixel x y color s).1.memory i).getLsbD b = (s.memory i).getLsbD b) := by
  by_cases hon : OnScreen x.toNat y.toNat
  · have hguard : ¬ (st7567Width ≤ x.toNat ∨ st7567Height ≤ y.toNat) := by
      rintro (h | h)
      · exact absurd hon.1 (Nat.not_lt.mpr h)
      · exact absurd hon.2 (Nat.not_lt.mpr h)
    rw [drawPixel, if_neg hguard, pixelIndex_eq]
    constructor
    · rintro ⟨-, hi, hbit⟩
      dsimp only
      rw [hi, Function.update_self, getLsbD_paint y color _ hb, if_pos hbit]
    · intro hmiss
      dsimp only
      by_cases hi : i = byteOf x.toNat y.toNat
      · have hbit : b ≠ y.toNat % 8 := fun hbit => hmiss ⟨hon, hi, hbit⟩
        rw [hi, Function.update_self, getLsbD_paint y color _ hb, if_neg hbit]
      · rw [Function.update_of_ne hi]
  · have hguard : st7567Width ≤ x.toNat ∨ st7567Height ≤ y.toNat := by
      by_contra h
      obtain ⟨hx, hy⟩ := not_or.mp h
      exact hon ⟨Nat.lt_of_not_le hx, Nat.lt_of_not_le hy⟩
    rw [drawPixel, if_pos hguard]
    exact ⟨fun hhit => absurd hhit.1 hon, fun _ => rfl⟩

/-- Outside the screen a call does nothing. -/
theorem drawPixel_off {x y : U16} (h : ¬ OnScreen x.toNat y.toNat) (color : U8) (s : Screen) :
    drawPixel x y color s = (s, [.pixel x y color]) := by
  rw [drawPixel, if_pos]
  by_contra hguard
  obtain ⟨hx, hy⟩ := not_or.mp hguard
  exact h ⟨Nat.lt_of_not_le hx, Nat.lt_of_not_le hy⟩

/-- A pixel write stays inside the buffer. -/
theorem accesses_drawPixel (x y : U16) (color : U8) (s : Screen) {i : ℕ}
    (h : .access i ∈ (drawPixel x y color s).2) : i < bufferSize := by
  by_cases hon : OnScreen x.toNat y.toNat
  · have hi : i = pixelIndex x y := by
      unfold drawPixel at h
      split at h
      · simp at h
      · simpa using h
    rw [hi, pixelIndex_eq]
    exact (byteOf_lt hon).1
  · rw [drawPixel_off hon] at h
    simp at h

/-! ## Sequences of calls -/

/-- The calls that write pixels. -/
inductive DrawOp where
  | fill (color : U8)
  | drawPixel (x y : U16) (color : U8)
  deriving DecidableEq, Repr

/-- The function behind a call. -/
def DrawOp.cmd : DrawOp → ScreenCmd
  | .fill color => Model.fill color
  | .drawPixel x y color => Model.drawPixel x y color

/-- A sequence of calls. -/
def runOps (ops : List DrawOp) : ScreenCmd := Cmd.each DrawOp.cmd ops

/-- The framebuffer as an image: whether a pixel is lit. -/
def image (s : Screen) (x y : ℕ) : Bool := (s.memory (byteOf x y)).getLsbD (y % 8)

/-- What a call writes to a pixel, if anything. -/
def DrawOp.writes (x y : ℕ) : DrawOp → Option Bool
  | .fill color => some (decide (color ≠ colorBack))
  | .drawPixel px py color =>
    if px.toNat = x ∧ py.toNat = y then some (decide (color = colorFront)) else none

/-- What a sequence of calls last wrote to a pixel. -/
def lastWritten (x y : ℕ) : List DrawOp → Option Bool
  | [] => none
  | op :: ops => (lastWritten x y ops).or (op.writes x y)

/-- The byte of the last fill in a sequence of calls. -/
def lastFill : List DrawOp → Option U8
  | [] => none
  | .fill color :: ops => (lastFill ops).or (some (if color = colorBack then 0x00 else 0xFF))
  | .drawPixel _ _ _ :: ops => lastFill ops

/-- A call for a pixel of the screen, or for all of them. -/
def DrawOp.visible : DrawOp → Bool
  | .fill _ => true
  | .drawPixel x y _ => decide (OnScreen x.toNat y.toNat)

/-- A fill sets every byte of the buffer. -/
theorem memory_fill (color : U8) (s : Screen) {i : ℕ} (hi : i < bufferSize) :
    (fill color s).1.memory i = if color = colorBack then 0x00 else 0xFF :=
  if_pos hi

/-- One call: the image changes as the reference image does. -/
theorem image_cmd (op : DrawOp) (s : Screen) {x y : ℕ} (h : OnScreen x y) :
    image (op.cmd s).1 x y = (op.writes x y).getD (image s x y) := by
  have hmod : y % 8 < 8 := Nat.mod_lt y (by decide)
  cases op with
  | fill color =>
    have hbit : (0xFF#8).getLsbD (y % 8) = true := by
      revert hmod
      generalize y % 8 = k
      revert k
      decide
    rw [image, DrawOp.cmd, memory_fill color s (byteOf_lt h).1, DrawOp.writes, Option.getD_some]
    by_cases hcolor : color = colorBack
    · rw [if_pos hcolor]
      simp [hcolor]
    · rw [if_neg hcolor]
      simpa [hcolor] using hbit
  | drawPixel px py color =>
    have hcall := getLsbD_drawPixel px py color s (byteOf x y) hmod
    rw [DrawOp.writes]
    split
    · rename_i hplace
      obtain ⟨rfl, rfl⟩ := hplace
      exact hcall.1 ⟨h, rfl, rfl⟩
    · rename_i hplace
      apply hcall.2
      rintro ⟨hon, hbyte, hbit⟩
      obtain ⟨hx, hy⟩ := (byteOf_injective h hon).mp ⟨hbyte, hbit⟩
      exact hplace ⟨hx.symm, hy.symm⟩

/-- The image after a sequence of calls is what they wrote last. -/
theorem image_runOps (ops : List DrawOp) (s : Screen) {x y : ℕ} (h : OnScreen x y) :
    image (runOps ops s).1 x y = (lastWritten x y ops).getD (image s x y) := by
  induction ops generalizing s with
  | nil => rfl
  | cons op ops ih =>
    have hrest := ih (op.cmd s).1
    rw [image_cmd op s h] at hrest
    rw [runOps, Cmd.each_cons, Cmd.andThen_apply, lastWritten]
    refine hrest.trans ?_
    cases lastWritten x y ops <;> rfl

/-- Calls for places off the screen may as well not be made. -/
theorem runOps_visible (ops : List DrawOp) (s : Screen) :
    (runOps ops s).1 = (runOps (ops.filter DrawOp.visible) s).1 := by
  induction ops generalizing s with
  | nil => rfl
  | cons op ops ih =>
    by_cases hvisible : op.visible = true
    · rw [List.filter_cons_of_pos hvisible]
      exact ih (op.cmd s).1
    · rw [List.filter_cons_of_neg hvisible]
      have hsame : (op.cmd s).1 = s := by
        cases op with
        | fill color => exact absurd rfl hvisible
        | drawPixel x y color =>
          have hoff : ¬ OnScreen x.toNat y.toNat := fun hon => hvisible (decide_eq_true hon)
          rw [DrawOp.cmd, drawPixel_off hoff]
      have hrest := ih (op.cmd s).1
      rw [hsame] at hrest
      rw [← hrest, runOps, Cmd.each_cons, Cmd.andThen_apply, hsame]
      rfl

/-- The padding at the end of a row holds what the last fill put there. -/
theorem padding_runOps (ops : List DrawOp) (s : Screen) {i : ℕ} (hi : i < bufferSize)
    (hpad : 128 ≤ i % 132) : (runOps ops s).1.memory i = (lastFill ops).getD (s.memory i) := by
  induction ops generalizing s with
  | nil => rfl
  | cons op ops ih =>
    have hrest := ih (op.cmd s).1
    rw [runOps, Cmd.each_cons, Cmd.andThen_apply]
    refine hrest.trans ?_
    cases op with
    | fill color =>
      rw [DrawOp.cmd, memory_fill color s hi, lastFill]
      cases lastFill ops <;> rfl
    | drawPixel x y color =>
      rw [lastFill]
      congr 1
      apply BitVec.eq_of_getLsbD_eq
      intro b hb
      apply (getLsbD_drawPixel x y color s i hb).2
      rintro ⟨hon, rfl, -⟩
      have := (byteOf_lt hon).2
      omega

/-- A sequence of calls stays inside the buffer. -/
theorem accesses_runOps (ops : List DrawOp) (s : Screen) {i : ℕ}
    (h : .access i ∈ (runOps ops s).2) : i < bufferSize := by
  have hemits : Cmd.Emits (fun o => ∀ i, o = .access i → i < bufferSize) (runOps ops) := by
    apply Cmd.each_induction
    · intro s o ho
      cases ho
    · exact fun c d => Cmd.Emits.andThen
    · rintro op - s o ho i rfl
      cases op with
      | fill color => simpa [DrawOp.cmd, fill] using ho
      | drawPixel x y color => exact accesses_drawPixel x y color s ho
  exact hemits s _ h i rfl

/-- **The framebuffer is the image.** After any sequence of fills and pixel writes, with any
coordinates and colours, every pixel of the screen holds what was last written to it; writes off
the screen have changed nothing; the padding holds what the last fill put there; and every index
applied to the buffer was inside it.
SOURCE: ST7567.c:21-22, 173-195 -/
theorem framebuffer_represents (ops : List DrawOp) (s : Screen) :
    (∀ x y, OnScreen x y →
        image (runOps ops s).1 x y = (lastWritten x y ops).getD (image s x y)) ∧
      (runOps ops s).1 = (runOps (ops.filter DrawOp.visible) s).1 ∧
      (∀ i < bufferSize, 128 ≤ i % 132 →
        (runOps ops s).1.memory i = (lastFill ops).getD (s.memory i)) ∧
      ∀ i, .access i ∈ (runOps ops s).2 → i < bufferSize :=
  ⟨fun _ _ h => image_runOps ops s h, runOps_visible ops s, fun _ hi hpad => padding_runOps ops s hi hpad,
    fun _ h => accesses_runOps ops s h⟩

/-- A screen with nothing on it. -/
def blankScreen : Screen := ⟨fun _ => 0, 0, 0⟩

/-- A lit screen with one pixel put out; a write off the screen goes nowhere. -/
theorem framebuffer_represents_example :
    image (runOps [.fill 1, .drawPixel 5 9 0, .drawPixel 200 9 1] blankScreen).1 5 9 = false ∧
      (runOps [.fill 1, .drawPixel 5 9 0, .drawPixel 200 9 1] blankScreen).1.memory 131 = 0xFF := by
  have h := framebuffer_represents [.fill 1, .drawPixel 5 9 0, .drawPixel 200 9 1] blankScreen
  exact ⟨h.1 5 9 (by decide), h.2.2.1 131 (by decide) (by decide)⟩

/-! ## Commands that draw -/

/-- A command that changes a bit of memory only through a call for its pixel. -/
def Touches (c : ScreenCmd) : Prop :=
  ∀ s i b, b < 8 → (∀ o ∈ (c s).2, ¬ Hit i b o) →
    ((c s).1.memory i).getLsbD b = (s.memory i).getLsbD b

/-- A command that leaves one colour in every pixel it touches. -/
def Paints (color : U8) (c : ScreenCmd) : Prop :=
  Touches c ∧ ∀ s i b, b < 8 → (∃ o ∈ (c s).2, Hit i b o) →
    ((c s).1.memory i).getLsbD b = decide (color = colorFront)

/-- Doing nothing touches no pixel. -/
theorem touches_skip : Touches Cmd.skip := fun _ _ _ _ _ => rfl

/-- Two commands in sequence touch what they have calls for. -/
theorem Touches.andThen {c d : ScreenCmd} (hc : Touches c) (hd : Touches d) :
    Touches (c.andThen d) := by
  intro s i b hb hmiss
  have hmiss₁ : ∀ o ∈ (c s).2, ¬ Hit i b o := fun o ho => hmiss o (List.mem_append_left _ ho)
  have hmiss₂ : ∀ o ∈ (d (c s).1).2, ¬ Hit i b o := fun o ho => hmiss o (List.mem_append_right _ ho)
  exact (hd _ i b hb hmiss₂).trans (hc s i b hb hmiss₁)

/-- A pixel write touches its pixel. -/
theorem touches_drawPixel (x y : U16) (color : U8) : Touches (drawPixel x y color) := by
  intro s i b hb hmiss
  apply (getLsbD_drawPixel x y color s i hb).2
  apply hmiss
  unfold drawPixel
  split <;> exact List.mem_cons_self

/-- Doing nothing paints no pixel. -/
theorem paints_skip (color : U8) : Paints color Cmd.skip := by
  refine ⟨touches_skip, fun s i b _ hhit => ?_⟩
  obtain ⟨o, ho, -⟩ := hhit
  cases ho

/-- Two commands of one colour in sequence paint in that colour. -/
theorem Paints.andThen {color : U8} {c d : ScreenCmd} (hc : Paints color c) (hd : Paints color d) :
    Paints color (c.andThen d) := by
  refine ⟨hc.1.andThen hd.1, fun s i b hb hhit => ?_⟩
  by_cases hlater : ∃ o ∈ (d (c s).1).2, Hit i b o
  · exact hd.2 (c s).1 i b hb hlater
  · -- the last call for the pixel is in the first command
    have hmiss : ∀ o ∈ (d (c s).1).2, ¬ Hit i b o := fun o ho h => hlater ⟨o, ho, h⟩
    refine (hd.1 (c s).1 i b hb hmiss).trans (hc.2 s i b hb ?_)
    obtain ⟨o, ho, h⟩ := hhit
    rcases List.mem_append.mp ho with hfirst | hsecond
    · exact ⟨o, hfirst, h⟩
    · exact absurd h (hmiss o hsecond)

/-- A pixel write paints its pixel. -/
theorem paints_drawPixel (x y : U16) (color : U8) : Paints color (drawPixel x y color) := by
  refine ⟨touches_drawPixel x y color, fun s i b hb hhit => ?_⟩
  apply (getLsbD_drawPixel x y color s i hb).1
  obtain ⟨o, ho, h⟩ := hhit
  unfold drawPixel at ho
  -- the other observation is an access, which is no call
  split at ho
  · rwa [List.mem_singleton.mp ho] at h
  · rcases List.mem_cons.mp ho with rfl | haccess
    · exact h
    · rw [List.mem_singleton.mp haccess] at h
      exact h.elim

/-- A command that makes no calls of `ST7567_DrawPixel` and leaves the memory alone. -/
theorem paints_emit (color : U8) {f : Screen → List ScreenObs} (h : ∀ s, ∀ o ∈ f s, ∀ i b, ¬ Hit i b o) :
    Paints color (Cmd.emit f) := by
  refine ⟨fun _ _ _ _ _ => rfl, fun s i b _ hhit => ?_⟩
  obtain ⟨o, ho, hhit⟩ := hhit
  exact absurd hhit (h s o ho i b)

/-- A loop paints in a colour when its body does. -/
theorem paints_each {α : Type} {c : U8} {body : α → ScreenCmd} {l : List α}
    (h : ∀ a ∈ l, Paints c (body a)) : Paints c (Cmd.each body l) :=
  Cmd.each_induction (paints_skip c) (fun _ _ => Paints.andThen) h

/-- The pixels a trace has calls for. -/
def drawn (out : List ScreenObs) : List (ℕ × ℕ) :=
  out.filterMap fun
    | .pixel x y _ => some (x.toNat, y.toNat)
    | _ => none

/-- The pixels of two traces. -/
theorem drawn_append (xs ys : List ScreenObs) : drawn (xs ++ ys) = drawn xs ++ drawn ys :=
  List.filterMap_append

/-- A pixel write draws its pixel. -/
theorem drawn_drawPixel (x y : U16) (c : U8) (s : Screen) :
    drawn (drawPixel x y c s).2 = [(x.toNat, y.toNat)] := by
  unfold drawPixel
  split <;> rfl

/-- One call for each element of a list. -/
theorem drawn_each {α : Type} {body : α → ScreenCmd} {l : List α} {f : α → ℕ × ℕ}
    (h : ∀ a ∈ l, ∀ s, drawn (body a s).2 = [f a]) (s : Screen) :
    drawn (Cmd.each body l s).2 = l.map f := by
  induction l generalizing s with
  | nil => rfl
  | cons a l ih =>
    rw [Cmd.each_cons, Cmd.andThen_apply, drawn_append, h a List.mem_cons_self,
      ih (fun b hb => h b (List.mem_cons_of_mem a hb)), List.map_cons]
    rfl

/-- The bits a trace has calls for are those of the pixels it has calls for. -/
theorem exists_hit_iff {out : List ScreenObs} {i b : ℕ} :
    (∃ o ∈ out, Hit i b o) ↔
      ∃ p ∈ drawn out, OnScreen p.1 p.2 ∧ i = byteOf p.1 p.2 ∧ b = p.2 % 8 := by
  constructor
  · rintro ⟨o, ho, hhit⟩
    cases o with
    | pixel x y color => exact ⟨(x.toNat, y.toNat), List.mem_filterMap.mpr ⟨_, ho, rfl⟩, hhit⟩
    | _ => exact hhit.elim
  · rintro ⟨p, hp, hplace⟩
    obtain ⟨o, ho, hpix⟩ := List.mem_filterMap.mp hp
    cases o with
    | pixel x y color =>
      obtain rfl := Option.some.inj hpix
      exact ⟨_, ho, hplace⟩
    | _ => cases hpix

/-- What changes is a pixel of the screen that was drawn. -/
theorem Touches.changed {c : ScreenCmd} (h : Touches c) {s : Screen} {i b : ℕ} (hb : b < 8)
    (hchanged : ((c s).1.memory i).getLsbD b ≠ (s.memory i).getLsbD b) :
    ∃ p ∈ drawn (c s).2, OnScreen p.1 p.2 ∧ i = byteOf p.1 p.2 ∧ b = p.2 % 8 := by
  apply exists_hit_iff.mp
  by_contra hnone
  exact hchanged (h s i b hb fun o ho hhit => hnone ⟨o, ho, hhit⟩)

/-- The pixels a painting command draws take its colour, the others stay. -/
theorem Paints.image_eq {c : U8} {cmd : ScreenCmd} (h : Paints c cmd) (s : Screen) {x y : ℕ}
    (hon : OnScreen x y) : image (cmd s).1 x y =
      if (x, y) ∈ drawn (cmd s).2 then decide (c = colorFront) else image s x y := by
  have hmod : y % 8 < 8 := Nat.mod_lt y (by decide)
  split
  · rename_i hmem
    exact h.2 s _ _ hmod (exists_hit_iff.mpr ⟨(x, y), hmem, hon, rfl, rfl⟩)
  · rename_i hmiss
    by_contra hchanged
    obtain ⟨p, hp, hon', hbyte, hbit⟩ := h.1.changed hmod hchanged
    obtain ⟨rfl, rfl⟩ := (byteOf_injective hon hon').mp ⟨hbyte, hbit⟩
    exact hmiss hp

/-! ## Sending the framebuffer -/

/-- The bytes sent to the display, commands and data. -/
def sent (out : List ScreenObs) : List ScreenObs :=
  out.filter fun
    | .command _ | .data _ => true
    | _ => false

/-- The page-select command, the two column commands and the bytes of a page. -/
def pageStream (s : Screen) (p : ℕ) : List ScreenObs :=
  [.command (BitVec.ofNat 8 (0xb0 + p)), .command 0x10, .command 0x00] ++
    (List.range 132).map fun j => .data (s.memory (p * 132 + j))

/-- The stream is the eight pages of the framebuffer, and every index read is inside it. -/
def SendsFramebuffer (s : Screen) : Prop :=
  sent (updateScreen s).2 = (List.range (st7567Height / 8)).flatMap (pageStream s) ∧
    ∀ i, .access i ∈ (updateScreen s).2 → i < bufferSize

/-- A command byte is sent. -/
theorem writeCommand_apply (b : U8) (s : Screen) : writeCommand b s = (s, [.command b]) := rfl

/-- One round of the outer loop. -/
theorem updatePage_apply (p : ℕ) (s : Screen) :
    updatePage p s = (s, [.command (BitVec.ofNat 8 (0xb0 + p)), .command 0x10, .command 0x00] ++
      (List.range 132).flatMap fun j => [.access (p * 132 + j), .data (s.memory (p * 132 + j))]) := by
  have hdata : Cmd.each (fun j => writeDataAt (p * 132 + j)) (List.range 132) s =
      (s, (List.range 132).flatMap fun j => [.access (p * 132 + j), .data (s.memory (p * 132 + j))]) :=
    Cmd.each_of_reads s fun _ _ => rfl
  simp only [updatePage, Cmd.each_cons, Cmd.each_nil, Cmd.andThen_skip, Cmd.andThen_apply, id,
    writeCommand_apply, hdata, List.cons_append, List.nil_append]

/-- The refresh sends nine pages and leaves the memory. -/
theorem updateScreen_apply (s : Screen) :
    updateScreen s = (s, (List.range 9).flatMap fun p => (updatePage p s).2) :=
  Cmd.each_of_reads s fun p _ => by rw [updatePage_apply]

/-- A page is sent with its three commands. -/
theorem sent_updatePage (p : ℕ) (s : Screen) : sent (updatePage p s).2 = pageStream s p := by
  have hdata : ∀ l : List ℕ,
      sent (l.flatMap fun j => [.access (p * 132 + j), .data (s.memory (p * 132 + j))]) =
        l.map fun j => .data (s.memory (p * 132 + j)) := by
    intro l
    induction l with
    | nil => rfl
    | cons j l ih =>
      rw [List.flatMap_cons, sent, List.filter_append, List.map_cons]
      exact congrArg _ ih
  rw [updatePage_apply, sent, List.filter_append, pageStream]
  exact congrArg _ (hdata _)

/-- **Nine pages are sent**, the ninth from behind the framebuffer. -/
theorem sent_updateScreen (s : Screen) :
    sent (updateScreen s).2 =
      (List.range (st7567Height / 8)).flatMap (pageStream s) ++ pageStream s 8 := by
  have hpages : ∀ l : List ℕ,
      sent (l.flatMap fun p => (updatePage p s).2) = l.flatMap (pageStream s) := by
    intro l
    induction l with
    | nil => rfl
    | cons p l ih =>
      rw [List.flatMap_cons, List.flatMap_cons, sent, List.filter_append]
      exact congrArg₂ _ (sent_updatePage p s) ih
  rw [updateScreen_apply, hpages, List.range_succ, List.flatMap_append, List.flatMap_singleton]
  rfl

/-- The first byte of the ninth page is the first one behind the framebuffer. -/
theorem access_updateScreen (s : Screen) : .access bufferSize ∈ (updateScreen s).2 := by
  rw [updateScreen_apply]
  apply List.mem_flatMap.mpr
  refine ⟨8, List.mem_range.mpr (by decide), ?_⟩
  rw [updatePage_apply]
  apply List.mem_append_right
  exact List.mem_flatMap.mpr ⟨0, List.mem_range.mpr (by decide), List.mem_cons_self⟩

/-- **The refresh never sends exactly the framebuffer**, whatever its contents.
SOURCE: ST7567.c:21-22, 140-157, ST7567.h:56-65 -/
theorem not_sendsFramebuffer (s : Screen) : ¬ SendsFramebuffer s := by
  rintro ⟨-, haccess⟩
  exact Nat.lt_irrefl _ (haccess bufferSize (access_updateScreen s))

/-- The refresh of a blank screen sends a ninth page. -/
theorem sendsFramebuffer_blank_false : ¬ SendsFramebuffer blankScreen := by
  rintro ⟨hsent, -⟩
  rw [sent_updateScreen] at hsent
  have hlen := congrArg List.length hsent
  rw [List.length_append, pageStream] at hlen
  simp at hlen

end InfraredModule.Analysis
