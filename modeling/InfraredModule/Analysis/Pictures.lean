import InfraredModule.Foundation.Patch
import InfraredModule.Analysis.Rings
import InfraredModule.Analysis.Texts

/-!
# What the elements of a page look like

A command that `Stamps` a patch lays it over the framebuffer, whatever was there. The loops of `ST7567_Putc`
add pixel to pixel, byte to byte and row to row, and so stamp the cell of the character (`stamps_putc`); a
string stamps the row of its cells, up to its end (`stamps_puts`). With the circle and the level line that
makes a picture for every element of a page (`Element.picture`), and a page is the stack of them over
an empty screen.
-/

set_option autoImplicit false

namespace InfraredModule.Analysis

open InfraredModule.Foundation InfraredModule.Foundation.DigitalCircle InfraredModule.Foundation.DigitalLine
  InfraredModule.Model

/-! ## Stamps -/

/-- Started with the cursor at one place, a command leaves it at another and lays a patch over the image. -/
def Stamps (x y x' y' : U16) (p : Patch Bool) (cmd : ScreenCmd) : Prop :=
  ∀ s : Model.Screen, s.currentX = x → s.currentY = y →
    ((cmd s).1.currentX = x' ∧ (cmd s).1.currentY = y') ∧
      ∀ a b, OnScreen a b → image (cmd s).1 a b = (p a b).getD (image s a b)

section Rules

variable {x y x' y' x'' y'' : U16} {p q : Patch Bool} {cmd cmd' : ScreenCmd}

/-- Doing nothing stamps nothing. -/
theorem stamps_skip (x y : U16) : Stamps x y x y Patch.empty Cmd.skip :=
  fun _ hx hy => ⟨⟨hx, hy⟩, fun _ _ _ => rfl⟩

/-- Two stamps in sequence lay the second patch above the first. -/
theorem Stamps.andThen (h : Stamps x y x' y' p cmd) (h' : Stamps x' y' x'' y'' q cmd') :
    Stamps x y x'' y'' (q.above p) (cmd.andThen cmd') := by
  intro s hx hy
  obtain ⟨⟨hx', hy'⟩, hfirst⟩ := h s hx hy
  obtain ⟨hcursor, hsecond⟩ := h' (cmd s).1 hx' hy'
  refine ⟨hcursor, fun a b hon => ?_⟩
  rw [Cmd.andThen_apply, Patch.above_getD, ← hfirst a b hon]
  exact hsecond a b hon

/-- A loop whose rounds each add to the patch. -/
theorem stamps_range {body : ℕ → ScreenCmd} (piece whole : ℕ → Patch Bool) {n : ℕ}
    (hbody : ∀ k < n, Stamps x y x y (piece k) (body k)) (hzero : whole 0 = Patch.empty)
    (hsucc : ∀ k < n, whole (k + 1) = (piece k).above (whole k)) :
    Stamps x y x y (whole n) (Cmd.each body (List.range n)) := by
  -- from round `k` on, by induction on the rounds that remain
  have hfrom : ∀ m k, k + m = n → ∃ rest : Patch Bool,
      Stamps x y x y rest (Cmd.each body (List.range' k m)) ∧ whole n = rest.above (whole k) := by
    intro m
    induction m with
    | zero =>
      rintro k rfl
      exact ⟨Patch.empty, stamps_skip x y, rfl⟩
    | succ m ih =>
      intro k hk
      obtain ⟨rest, hrest, hwhole⟩ := ih (k + 1) (by omega)
      refine ⟨rest.above (piece k), (hbody k (by omega)).andThen hrest, ?_⟩
      rw [hwhole, hsucc k (by omega)]
      funext a b
      exact Option.or_assoc.symm
  obtain ⟨rest, hrest, hwhole⟩ := hfrom n 0 (Nat.zero_add n)
  rw [hzero, Patch.above_empty] at hwhole
  rw [List.range_eq_range', hwhole]
  exact hrest

/-- The pixel of a call of `ST7567_DrawPixel`. -/
theorem stamps_drawPixel (px py : U16) (color : U8) :
    Stamps x y x y (Patch.block px.toNat py.toNat 1 1 fun _ _ => decide (color = colorFront))
      (drawPixel px py color) := by
  intro s hx hy
  obtain ⟨hcx, hcy⟩ := cursor_drawPixel px py color s
  refine ⟨⟨hcx.trans hx, hcy.trans hy⟩, fun a b hon => ?_⟩
  have hcmd := image_cmd (.drawPixel px py color) s hon
  rw [DrawOp.writes] at hcmd
  have hplace : (px.toNat = a ∧ py.toNat = b) ↔
      (px.toNat ≤ a ∧ a < px.toNat + 1) ∧ py.toNat ≤ b ∧ b < py.toNat + 1 := by omega
  simp only [hplace] at hcmd
  exact hcmd

end Rules

/-! ## Characters -/

/-- Whether a pixel of a character is lit. -/
def glyph (font : FontDef) (ch color : U8) (i j : ℕ) : Bool :=
  decide ((if font.bit ((font.byte ch (BitVec.ofNat 32 j) (BitVec.ofNat 32 (i / 8))).setWidth 32)
    (BitVec.ofNat 32 (i % 8)) then color else notColor color) = colorFront)

section Cell

variable {font : FontDef} (hfont : WellSized font) {x y : U16}
  (hx : x.toNat + font.width.toNat < 65536) (hy : y.toNat + font.height.toNat < 65536)

include hfont hx hy

/-- One byte of a row. -/
theorem stamps_putByte (ch color : U8) {i j : ℕ} (hi : i < font.height.toNat) (hj : j < font.bytes.toNat) :
    Stamps x y x y (Patch.block (x.toNat + 8 * j) (y.toNat + i) (min 8 (font.width.toNat - 8 * j)) 1
        fun a _ => glyph font ch color (8 * j + a) i)
      (putByte ((font.byte ch (BitVec.ofNat 32 i) (BitVec.ofNat 32 j)).setWidth 32) i j font color) := by
  have hwidth := font.width.isLt
  have hheight := font.height.isLt
  have h8 : (8 : U32).toNat = 8 := rfl
  rw [WellSized] at hfont
  -- `8 * j < width`, so the bound of the loop does not wrap
  have hstop : (font.width.setWidth 32 - BitVec.ofNat 32 j * 8).toNat = font.width.toNat - 8 * j := by
    have hmul : (BitVec.ofNat 32 j * 8 : U32).toNat = 8 * j := by
      simp only [BitVec.toNat_mul, BitVec.toNat_ofNat, h8]
      omega
    have hload : (font.width.setWidth 32).toNat = font.width.toNat := by
      rw [BitVec.toNat_setWidth]
      omega
    rw [BitVec.toNat_sub_of_le]
    · rw [hmul, hload]
    · rw [BitVec.le_def, hmul, hload]
      omega
  simp only [putByte, hstop]
  -- round `k` draws one pixel, and `k` rounds a row of `k` pixels
  refine stamps_range
    (fun k => Patch.block (x.toNat + 8 * j + k) (y.toNat + i) 1 1 fun a _ => glyph font ch color (8 * j + (k + a)) i)
    (fun k => Patch.block (x.toNat + 8 * j) (y.toNat + i) k 1 fun a _ => glyph font ch color (8 * j + a) i) ?_
    Patch.block_zero_width fun k _ => Patch.block_right 1 |>.symm
  intro k hk s hsx hsy
  have hcall := stamps_drawPixel (x := x) (y := y)
    ((s.currentX.setWidth 32 + BitVec.ofNat 32 j * 8 + BitVec.ofNat 32 k).setWidth 16)
    ((s.currentY.setWidth 32 + BitVec.ofNat 32 i).setWidth 16)
    (if font.bit ((font.byte ch (BitVec.ofNat 32 i) (BitVec.ofNat 32 j)).setWidth 32) (BitVec.ofNat 32 k)
      then color else notColor color) s hsx hsy
  have hpx : ((s.currentX.setWidth 32 + BitVec.ofNat 32 j * 8 + BitVec.ofNat 32 k).setWidth 16).toNat =
      x.toNat + 8 * j + k := by
    rw [hsx]
    simp only [BitVec.toNat_setWidth, BitVec.toNat_add, BitVec.toNat_mul, BitVec.toNat_ofNat, h8]
    omega
  have hpy : ((s.currentY.setWidth 32 + BitVec.ofNat 32 i).setWidth 16).toNat = y.toNat + i := by
    rw [hsy]
    simp only [BitVec.toNat_setWidth, BitVec.toNat_add, BitVec.toNat_ofNat]
    omega
  have hglyph : ∀ a < 1, ∀ b < 1, glyph font ch color (8 * j + (k + a)) i =
      decide ((if font.bit ((font.byte ch (BitVec.ofNat 32 i) (BitVec.ofNat 32 j)).setWidth 32)
        (BitVec.ofNat 32 k) then color else notColor color) = colorFront) := by
    intro a ha b _
    have hdiv : (8 * j + (k + a)) / 8 = j := by omega
    have hmod : (8 * j + (k + a)) % 8 = k := by omega
    rw [glyph, hdiv, hmod]
  rw [hpx, hpy] at hcall
  rw [Patch.block_congr hglyph]
  exact hcall

/-- **A character stamps its cell**, and the cursor moves on by the width. -/
theorem stamps_putc (ch color : U8) :
    Stamps x y (x + font.width.setWidth 16) y
      (Patch.block x.toNat y.toNat font.width.toNat font.height.toNat (glyph font ch color))
      (putc ch font color).2 := by
  have hrow : ∀ i < font.height.toNat, Stamps x y x y
      (Patch.block x.toNat (y.toNat + i) font.width.toNat 1 fun a b => glyph font ch color a (i + b))
      (Cmd.each (fun j => putByte ((font.byte ch (BitVec.ofNat 32 i) (BitVec.ofNat 32 j)).setWidth 32) i j font color)
        (List.range font.bytes.toNat)) := by
    intro i hi
    have hbytes := stamps_range _
      (fun j => Patch.block x.toNat (y.toNat + i) (min (8 * j) font.width.toNat) 1 fun a _ => glyph font ch color a i)
      (fun j hj => stamps_putByte hfont hx hy ch color hi hj) Patch.block_zero_width
      fun j hj => ?_
    · have hwhole : min (8 * font.bytes.toNat) font.width.toNat = font.width.toNat := by
        rw [WellSized] at hfont
        omega
      rw [hwhole] at hbytes
      rw [Patch.block_congr (g := fun a _ => glyph font ch color a i)]
      · exact hbytes
      · intro a _ b hb
        rw [Nat.lt_one_iff.mp hb, Nat.add_zero]
    · rw [WellSized] at hfont
      have hsum : min (8 * (j + 1)) font.width.toNat =
          8 * j + min 8 (font.width.toNat - 8 * j) := by omega
      have hmin : min (8 * j) font.width.toNat = 8 * j := by omega
      rw [hsum, hmin, ← Patch.block_right]
  have hrows := stamps_range _
    (fun i => Patch.block x.toNat y.toNat font.width.toNat i (glyph font ch color)) hrow Patch.block_zero_height fun i _ => Patch.block_below 1 |>.symm
  have hmove : Stamps x y (x + font.width.setWidth 16) y Patch.empty
      (Cmd.modify fun s => { s with currentX := s.currentX + font.width.setWidth 16 }) :=
    fun s hsx hsy => ⟨⟨by rw [Cmd.modify_apply, hsx], hsy⟩, fun _ _ _ => rfl⟩
  have hall := hrows.andThen hmove
  rw [Patch.empty_above] at hall
  exact hall

end Cell

/-! ## Strings -/

/-- The characters of a string, without its end. -/
def written (str : List U8) : List U8 := str.takeWhile (· ≠ 0)

/-- The cells of a text in a row. -/
def textPatch (font : FontDef) (color : U8) (x y : ℕ) (str : List U8) : Patch Bool :=
  Patch.block x y (str.length * font.width.toNat) font.height.toNat fun i j =>
    glyph font (byteAt str (i / font.width.toNat)) color (i % font.width.toNat) j

/-- The cells of a text are the cell of its first character below those of the rest. -/
theorem textPatch_cons {font : FontDef} (hpos : 0 < font.width.toNat) (color ch : U8) (x y : ℕ) (str : List U8) :
    textPatch font color x y (ch :: str) =
      (textPatch font color (x + font.width.toNat) y str).above
        (Patch.block x y font.width.toNat font.height.toNat (glyph font ch color)) := by
  have hlen : (ch :: str).length * font.width.toNat = font.width.toNat + str.length * font.width.toNat := by
    rw [List.length_cons, Nat.succ_mul, Nat.add_comm]
  rw [textPatch, hlen, ← Patch.block_right]
  congr 1
  · apply Patch.block_congr
    intro i _ j _
    rw [Nat.add_div_left _ hpos, Nat.add_mod_left]
    rfl
  · apply Patch.block_congr
    intro i hi j _
    rw [Nat.div_eq_of_lt hi, Nat.mod_eq_of_lt hi]
    rfl

/-- **A string stamps the cells of its characters.** -/
theorem stamps_puts {font : FontDef} (hfont : WellSized font) (hpos : 0 < font.width.toNat) (color : U8)
    {y : U16} (hy : y.toNat + font.height.toNat < 65536) (str : List U8) {x : U16}
    (hx : x.toNat + (written str).length * font.width.toNat < 65536) :
    ∃ x', Stamps x y x' y (textPatch font color x.toNat y.toNat (written str)) (puts str font color).2 := by
  induction str generalizing x with
  | nil =>
    refine ⟨x, ?_⟩
    rw [textPatch, written, List.takeWhile_nil, List.length_nil, Nat.zero_mul, Patch.block_zero_width]
    exact stamps_skip x y
  | cons ch str ih =>
    by_cases hend : ch = 0
    · refine ⟨x, ?_⟩
      have hnone : written (ch :: str) = [] := List.takeWhile_cons_of_neg (by simp [hend])
      rw [hnone, textPatch, List.length_nil, Nat.zero_mul, Patch.block_zero_width, puts, putsWith, if_pos hend]
      exact stamps_skip x y
    · have hsome : written (ch :: str) = ch :: written str := List.takeWhile_cons_of_pos (decide_eq_true hend)
      rw [hsome] at hx ⊢
      rw [List.length_cons, Nat.succ_mul] at hx
      have hmoved : (x + font.width.setWidth 16).toNat = x.toNat + font.width.toNat := by
        have := font.width.isLt
        rw [BitVec.toNat_add, BitVec.toNat_setWidth]
        omega
      obtain ⟨x', hrest⟩ := ih (x := x + font.width.setWidth 16) (by omega)
      refine ⟨x', ?_⟩
      have hret : ¬ (putc ch font color).1 ≠ ch := not_not_intro rfl
      rw [textPatch_cons hpos, puts, putsWith, if_neg hend, if_neg hret, ← hmoved]
      exact (stamps_putc hfont (by omega) hy ch color).andThen hrest

/-! ## Elements -/

/-- The size of a cell. -/
def FontName.width : FontName → ℕ
  | .font6x12 => 6
  | .font8x16 => 8
  | .font16x32 => 16

/-- The height of a cell. -/
def FontName.height : FontName → ℕ
  | .font6x12 => 12
  | .font8x16 => 16
  | .font16x32 => 32

/-- The three fonts are well sized, with the sizes of their cells. -/
theorem font_sizes (g : Glyphs) (name : FontName) :
    WellSized (name.font g) ∧ (name.font g).width.toNat = FontName.width name ∧
      (name.font g).height.toNat = FontName.height name := by
  cases name <;> exact ⟨by simp [WellSized, FontName.font], rfl, rfl⟩

/-- What an element looks like. -/
def Element.picture (g : Glyphs) : Element → Patch Bool
  | .text x y str font color => textPatch (font.font g) color x.toNat y.toNat (written str)
  | .circle x0 y0 r c => fun a b => if OnCircle r (a - x0) (b - y0) then some (decide (c = colorFront)) else none
  | .line x0 y0 x1 _ c =>
    Patch.block (min x0.toNat x1.toNat) y0.toNat (gap x0.toNat x1.toNat + 1) 1 fun _ _ => decide (c = colorFront)

/-- A text whose cursor does not wrap, a circle whose sums do not, a level line on the screen. -/
def Element.Regular : Element → Prop
  | .text x y str font _ => x.toNat + (written str).length * FontName.width font < 65536 ∧ y.toNat < 65000
  | .circle x0 y0 r _ => (-16384 ≤ x0 ∧ x0 ≤ 16383) ∧ (-16384 ≤ y0 ∧ y0 ≤ 16383) ∧ 0 < r ∧ r ≤ 16383
  | .line x0 y0 x1 y1 _ => (x0.toNat < 128 ∧ x1.toNat < 128) ∧ y0.toNat < 64 ∧ y1 = y0

instance (e : Element) : Decidable (Element.Regular e) :=
  match e with
  | .text _ _ _ _ _ => inferInstanceAs (Decidable (_ ∧ _))
  | .circle _ _ _ _ => inferInstanceAs (Decidable ((_ ∧ _) ∧ (_ ∧ _) ∧ _ ∧ _))
  | .line _ _ _ _ _ => inferInstanceAs (Decidable ((_ ∧ _) ∧ _ ∧ _))

/-- A command that lays a patch over the image. -/
def Draws (p : Patch Bool) (cmd : ScreenCmd) : Prop :=
  ∀ (s : Model.Screen) a b, OnScreen a b → image (cmd s).1 a b = (p a b).getD (image s a b)

/-- Doing nothing draws nothing. -/
theorem draws_skip : Draws Patch.empty Cmd.skip := fun _ _ _ _ => rfl

/-- Two commands in sequence lay the second patch above the first. -/
theorem Draws.andThen {p q : Patch Bool} {cmd cmd' : ScreenCmd} (h : Draws p cmd) (h' : Draws q cmd') :
    Draws (q.above p) (cmd.andThen cmd') := by
  intro s a b hon
  rw [Patch.above_getD, ← h s a b hon]
  exact h' (cmd s).1 a b hon

/-- A level line draws a row of pixels. -/
theorem draws_level {x0 y0 x1 y1 : U16} (hx : x0.toNat < 128 ∧ x1.toNat < 128) (hy : y0.toNat < 64) (hlevel : y1 = y0)
    (g : Glyphs) (c : U8) :
    ∃ cmd, drawLine x0 y0 x1 y1 c = some cmd ∧ Draws (Element.picture g (.line x0 y0 x1 y1 c)) cmd := by
  subst hlevel
  obtain ⟨cmd, hcmd, hline⟩ := drawLine_spec x0 y1 x1 y1 c
  rw [Nat.min_eq_left (by omega : x0.toNat ≤ 127), Nat.min_eq_left (by omega : x1.toNat ≤ 127),
    Nat.min_eq_left (by omega : y1.toNat ≤ 63)] at hline
  refine ⟨cmd, hcmd, fun s a b hon => ?_⟩
  have hpoints := hline.points s
  have hgap : gap y1.toNat y1.toNat = 0 := by simp [gap]
  have hmem : (a, b) ∈ drawn (cmd s).2 ↔
      (min x0.toNat x1.toNat ≤ a ∧ a < min x0.toNat x1.toNat + (gap x0.toNat x1.toNat + 1)) ∧
        y1.toNat ≤ b ∧ b < y1.toNat + 1 := by
    have hcolumn : a ∈ (drawn (cmd s).2).map Prod.fst ↔ _ :=
      (hpoints.columns (by rw [hgap]; exact Nat.zero_le _)).mem_iff
    rw [List.mem_range'_1] at hcolumn
    constructor
    · intro hin
      have hbox := hpoints.box _ hin
      exact ⟨hcolumn.mp (List.mem_map_of_mem hin), by omega, by omega⟩
    · rintro ⟨hcol, hrow⟩
      obtain ⟨⟨a', b'⟩, hin, rfl⟩ := List.mem_map.mp (hcolumn.mpr hcol)
      have hbox := hpoints.box _ hin
      rwa [show b = b' by simp only at hbox; omega]
  rw [hline.paints.image_eq s hon]
  simp only [hmem, Element.picture, Patch.block]
  split <;> rfl

/-- **Every element looks as its picture**, over whatever was there. -/
theorem draws_element (g : Glyphs) {e : Element} (he : Element.Regular e) :
    ∃ cmd, e.draw g = some cmd ∧ Draws (Element.picture g e) cmd := by
  cases e with
  | text x y str font color =>
    obtain ⟨hsized, hwidth, hheight⟩ := font_sizes g font
    obtain ⟨hfits, hlow⟩ := he
    have hpos : 0 < FontName.width font ∧ FontName.height font ≤ 32 := by cases font <;> decide
    rw [← hwidth] at hfits
    obtain ⟨x', hputs⟩ := stamps_puts hsized (by omega) color (y := y) (by omega) str hfits
    exact ⟨_, rfl, fun s a b hon => (hputs { s with currentX := x, currentY := y } rfl rfl).2 a b hon⟩
  | circle x0 y0 r c =>
    obtain ⟨hx0, hy0, hr⟩ := he
    obtain ⟨cmd, hcmd, hpaints⟩ := drawCircle_spec hx0 hy0 hr.2 hr.1 (c := c)
    refine ⟨cmd, hcmd, fun s a b hon => ?_⟩
    rw [hpaints.paints.image_eq s hon]
    simp only [hpaints.mem_iff s a b hon, Element.picture]
    split <;> rfl
  | line x0 y0 x1 y1 c => exact draws_level he.1 he.2.1 he.2.2 g c

/-! ## Pages -/

/-- Nothing goes out on the wires. -/
def Unsent (o : ScreenObs) : Prop := o.drives = []

/-- Doing nothing sends nothing. -/
theorem unsent_skip : Cmd.Emits Unsent (Cmd.skip : ScreenCmd) := fun _ _ ho => absurd ho List.not_mem_nil

/-- A loop sends nothing when its body does not. -/
theorem unsent_each {α : Type} {body : α → ScreenCmd} {l : List α} (h : ∀ a ∈ l, Cmd.Emits Unsent (body a)) :
    Cmd.Emits Unsent (Cmd.each body l) :=
  Cmd.each_induction unsent_skip (fun _ _ => Cmd.Emits.andThen) h

/-- A pixel write sends nothing. -/
theorem unsent_drawPixel (x y : U16) (c : U8) : Cmd.Emits Unsent (drawPixel x y c) := by
  intro s o ho
  unfold drawPixel at ho
  split at ho
  · rw [List.mem_singleton.mp ho]
    rfl
  · rcases List.mem_cons.mp ho with rfl | ho
    · rfl
    · rw [List.mem_singleton.mp ho]
      rfl

/-- A fill sends nothing. -/
theorem unsent_fill (color : U8) : Cmd.Emits Unsent (fill color) := by
  intro s o ho
  simp only [fill, List.mem_map] at ho
  obtain ⟨i, -, heq⟩ := ho
  rw [← heq]
  rfl

/-- Assigning `err` sends nothing. -/
theorem unsent_err (vs : List ℤ) : Cmd.Emits Unsent (Cmd.emit fun _ => vs.map .err : ScreenCmd) := by
  intro s o ho
  obtain ⟨v, -, rfl⟩ := List.mem_map.mp ho
  rfl

/-- A text sends nothing. -/
theorem unsent_puts (str : List U8) (font : FontDef) (color : U8) : Cmd.Emits Unsent (puts str font color).2 := by
  have hputc : ∀ ch, Cmd.Emits Unsent (putc ch font color).2 := fun ch =>
    Cmd.Emits.andThen (unsent_each fun i _ => unsent_each fun j _ => unsent_each fun k _ s =>
      unsent_drawPixel _ _ _ s) (Cmd.emits_modify _)
  induction str with
  | nil => exact unsent_skip
  | cons ch str ih =>
    rw [puts, putsWith]
    split
    · exact unsent_skip
    split
    · exact hputc ch
    · exact (hputc ch).andThen ih

/-- A line sends nothing. -/
theorem unsent_drawLine {x0 y0 x1 y1 : U16} {c : U8} {cmd : ScreenCmd} (h : drawLine x0 y0 x1 y1 c = some cmd) :
    Cmd.Emits Unsent cmd := by
  have hbody : ∀ {P Q : Prop} [Decidable P] [Decidable Q] {vertical level body : ScreenCmd}
      {slanted : Option ScreenCmd}, Cmd.Emits Unsent vertical → Cmd.Emits Unsent level →
      (∀ d, slanted = some d → Cmd.Emits Unsent d) →
      (if P then some vertical else if Q then some level else slanted) = some body → Cmd.Emits Unsent body := by
    intro P Q _ _ vertical level body slanted hvertical hlevel hslanted hbody
    split at hbody
    · exact Option.some.inj hbody ▸ hvertical
    split at hbody
    · exact Option.some.inj hbody ▸ hlevel
    · exact hslanted body hbody
  simp only [drawLine, drawClampedLine] at h
  obtain ⟨body, hsome, rfl⟩ := Option.map_eq_some_iff.mp h
  refine Cmd.Emits.andThen (unsent_err [_]) (hbody ?_ ?_ ?_ hsome)
  · exact unsent_each fun _ _ => unsent_drawPixel _ _ c
  · exact unsent_each fun _ _ => unsent_drawPixel _ _ c
  · intro d hd
    refine Loop.run_induction (fun _ _ => Cmd.Emits.andThen) (fun v round hround => ?_) hd
    unfold lineRound at hround
    split at hround
    · cases hround
      exact unsent_drawPixel _ _ c
    · cases hround
      exact (unsent_drawPixel _ _ c).andThen (unsent_err _)

/-- A circle sends nothing. -/
theorem unsent_drawCircle {x0 y0 r : ℤ} {c : U8} {cmd : ScreenCmd} (h : drawCircle x0 y0 r c = some cmd) :
    Cmd.Emits Unsent cmd := by
  refine Loop.seq_induction unsent_skip (fun _ _ => Cmd.Emits.andThen) (fun part hpart => ?_) h
  simp only [List.mem_cons, List.not_mem_nil, or_false, Option.some.injEq] at hpart
  rcases hpart with rfl | rfl | rfl | rfl | hloop
  iterate 4 exact unsent_drawPixel _ _ c
  refine Loop.run_induction (fun _ _ => Cmd.Emits.andThen) (fun v round hround => ?_) hloop.symm
  unfold ringRound at hround
  split at hround
  · cases hround
    refine unsent_each fun pixel hpixel => ?_
    simp only [List.mem_cons, List.not_mem_nil, or_false] at hpixel
    rcases hpixel with rfl | rfl | rfl | rfl | rfl | rfl | rfl | rfl
    all_goals exact unsent_drawPixel _ _ c
  · cases hround
    exact unsent_skip

/-- An element sends nothing. -/
theorem unsent_element (g : Glyphs) {e : Element} {cmd : ScreenCmd} (h : e.draw g = some cmd) :
    Cmd.Emits Unsent cmd := by
  cases e with
  | text x y str font color =>
    cases h
    exact (Cmd.emits_modify _).andThen (unsent_puts str _ color)
  | circle x0 y0 r c => exact unsent_drawCircle h
  | line x0 y0 x1 y1 c => exact unsent_drawLine h

/-- What a page looks like. -/
def pagePicture (g : Glyphs) (elements : List Element) (a b : ℕ) : Bool :=
  (Patch.stack (elements.map (Element.picture g)) a b).getD false

/-- The elements of a page, one after the other. -/
theorem draws_elements (g : Glyphs) {elements : List Element} (h : ∀ e ∈ elements, Element.Regular e) :
    ∃ cmds : List ScreenCmd, elements.map (Element.draw g) = cmds.map some ∧
      Draws (Patch.stack (elements.map (Element.picture g))) (Cmd.each id cmds) ∧
      Cmd.Emits Unsent (Cmd.each id cmds) := by
  induction elements with
  | nil => exact ⟨[], rfl, draws_skip, unsent_skip⟩
  | cons e elements ih =>
    obtain ⟨cmds, hcmds, hdraws, hunsent⟩ := ih fun e' he' => h e' (List.mem_cons_of_mem e he')
    obtain ⟨cmd, hcmd, hpicture⟩ := draws_element g (h e List.mem_cons_self)
    refine ⟨cmd :: cmds, ?_, hpicture.andThen hdraws, (unsent_element g hcmd).andThen hunsent⟩
    rw [List.map_cons, hcmds, hcmd, List.map_cons]

/-- What two commands that send nothing leave for a third that only sends. -/
theorem drives_last {c d e : ScreenCmd} (hc : Cmd.Emits Unsent c) (hd : Cmd.Emits Unsent d)
    (he : ∀ t, (e t).1 = t) (s : Model.Screen) :
    ((c.andThen (d.andThen e)) s).1 = (d (c s).1).1 ∧
      ((c.andThen (d.andThen e)) s).2.flatMap ScreenObs.drives =
        (e (d (c s).1).1).2.flatMap ScreenObs.drives := by
  have hquiet : ∀ {cmd : ScreenCmd} (t : Model.Screen), Cmd.Emits Unsent cmd →
      (cmd t).2.flatMap ScreenObs.drives = [] := fun t hcmd => List.flatMap_eq_nil_iff.mpr (hcmd t)
  rw [Cmd.andThen_apply, Cmd.andThen_apply, List.flatMap_append, List.flatMap_append, hquiet s hc, hquiet _ hd]
  exact ⟨he _, rfl⟩

/-- **A page looks as its picture**, whatever was on the screen, and its refresh is all it sends. -/
theorem showElements_spec (g : Glyphs) {elements : List Element} (h : ∀ e ∈ elements, Element.Regular e) :
    ∃ cmd, showElements g elements = some cmd ∧ ∀ s : Model.Screen,
      (∀ a b, OnScreen a b → image (cmd s).1 a b = pagePicture g elements a b) ∧
        (cmd s).2.flatMap ScreenObs.drives = updateScreenDrives (cmd s).1 := by
  obtain ⟨cmds, hcmds, hdraws, hunsent⟩ := draws_elements g h
  refine ⟨(fill 0).andThen ((Cmd.each id cmds).andThen updateScreen), ?_, fun s => ?_⟩
  · have hseq : some (fill 0) :: elements.map (Element.draw g) ++ [some updateScreen] =
        (fill 0 :: (cmds ++ [updateScreen])).map some := by
      rw [hcmds, List.map_cons, List.map_append]
      rfl
    rw [showElements, hseq, Loop.seq_map_some, Cmd.each_cons, Cmd.each_append, Cmd.each_cons, Cmd.each_nil,
      Cmd.andThen_skip, id, id]
  · have hkept : ∀ t, (updateScreen t).1 = t := fun t => by rw [updateScreen_apply]
    obtain ⟨hend, hdrives⟩ := drives_last (unsent_fill 0) hunsent hkept s
    rw [hend]
    refine ⟨fun a b hon => ?_, hdrives⟩
    have hblank : image (fill 0 s).1 a b = false := image_cmd (.fill 0) s hon
    rw [hdraws _ a b hon, hblank, pagePicture]

end InfraredModule.Analysis
