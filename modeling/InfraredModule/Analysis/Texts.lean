import InfraredModule.Analysis.Framebuffer

/-!
# Texts on the screen

`ST7567_Putc_Hightlight` is a copy of `ST7567_Putc` that complements each byte of the font. The
complement is taken in 32 bits, of which both bit orders look at the low eight only, so it inverts
every test (`bit_complement`) and exchanging the two colours undoes it: the commands are the same.

Where they draw follows the loops. With as many bytes in a row as the width needs, the unsigned
bound `width - 8 * j` does not wrap, so every call is for a pixel of the character's cell; a string
draws in the row of its cells (`putsWith_cells`).
-/

set_option autoImplicit false

namespace InfraredModule.Analysis

open InfraredModule.Foundation InfraredModule.Model

/-! ## The same command -/

/-- The test of one bit. -/
theorem and_twoPow_ne_zero_iff {w : ℕ} (x : BitVec w) {i : ℕ} (hi : i < w) :
    x &&& BitVec.twoPow w i ≠ 0 ↔ x.getLsbD i = true := by
  rw [BitVec.and_twoPow]
  cases x.getLsbD i with
  | false => simp
  | true =>
    simp only [if_true, iff_true]
    intro hzero
    have hbit := congrArg (fun v => BitVec.getLsbD v i) hzero
    simp [hi] at hbit

/-- The test for a pixel looks at one of the low eight bits. -/
theorem bit_eq (font : FontDef) (b : U32) {k : ℕ} (hk : k < 8) :
    font.bit b (BitVec.ofNat 32 k) = b.getLsbD (if font.order = 0 then 7 - k else k) := by
  have hk' : (BitVec.ofNat 32 k).toNat = k := by
    rw [BitVec.toNat_ofNat]
    exact Nat.mod_eq_of_lt (by omega)
  unfold FontDef.bit
  by_cases horder : font.order = 0
  · have hmask : (0x80 : U32) = BitVec.twoPow 32 7 := by decide
    rw [if_pos horder, if_pos horder, Bool.eq_iff_iff, decide_eq_true_iff, hmask,
      and_twoPow_ne_zero_iff _ (by decide), BitVec.shiftLeft_eq', hk', BitVec.getLsbD_shiftLeft]
    simp [show ¬ 7 < k by omega]
  · have hmask : (0x0001 : U32) <<< BitVec.ofNat 32 k = BitVec.twoPow 32 k := by
      rw [BitVec.shiftLeft_eq', hk']
      rfl
    rw [if_neg horder, if_neg horder, Bool.eq_iff_iff, decide_eq_true_iff, hmask,
      and_twoPow_ne_zero_iff _ (by omega)]

/-- Complementing the byte inverts the test. -/
theorem bit_complement (font : FontDef) (b : U32) {k : ℕ} (hk : k < 8) :
    font.bit (~~~b) (BitVec.ofNat 32 k) = !font.bit b (BitVec.ofNat 32 k) := by
  have hlt : (if font.order = 0 then 7 - k else k) < 32 := by
    split <;> omega
  rw [bit_eq font _ hk, bit_eq font _ hk, BitVec.getLsbD_not, decide_eq_true hlt, Bool.true_and]

/-- With one of the two colours, inverting the test and the colour is inverting twice. -/
theorem color_complement {c : U8} (hc : c = colorBack ∨ c = colorFront) (test : Bool) :
    (if !test then c else notColor c) = if test then 1 - c else notColor (1 - c) := by
  rcases hc with rfl | rfl
  · cases test <;> decide
  · cases test <;> decide

/-- Drawing the complement of a byte is drawing it in the other colour. -/
theorem putByte_complement {c : U8} (hc : c = colorBack ∨ c = colorFront) (b : U32) (i j : ℕ)
    (font : FontDef) : putByte (~~~b) i j font c = putByte b i j font (1 - c) := by
  unfold putByte
  apply Cmd.each_congr
  intro k hk
  have hk8 : k < 8 := by
    have := List.mem_range.mp hk
    omega
  funext s
  rw [bit_complement font b hk8, color_complement hc]

/-- A highlighted character is the character in the other colour. -/
theorem putcHightlight_eq {c : U8} (hc : c = colorBack ∨ c = colorFront) (ch : U8) (font : FontDef) :
    putcHightlight ch font c = putc ch font (1 - c) := by
  unfold putcHightlight putc putcWith
  congr 2
  apply Cmd.each_congr
  intro i _
  apply Cmd.each_congr
  intro j _
  exact putByte_complement hc _ i j font

/-- **Highlighting is writing in the other colour.** -/
theorem putsHightLight_eq {c : U8} (hc : c = colorBack ∨ c = colorFront) (str : List U8)
    (font : FontDef) : putsHightLight str font c = puts str font (1 - c) := by
  unfold putsHightLight puts
  induction str with
  | nil => rfl
  | cons ch str ih =>
    rw [putsWith, putsWith, putcHightlight_eq hc, ih]

/-! ## Where a text is drawn -/

/-- A loop touches pixels only through calls when its body does. -/
theorem touches_each {α : Type} {body : α → ScreenCmd} {l : List α} (h : ∀ a ∈ l, Touches (body a)) :
    Touches (Cmd.each body l) :=
  Cmd.each_induction touches_skip (fun _ _ => Touches.andThen) h

/-- A byte of a character touches pixels only through calls. -/
theorem touches_putByte (b : U32) (i j : ℕ) (font : FontDef) (color : U8) :
    Touches (putByte b i j font color) :=
  touches_each fun _ _ s => touches_drawPixel _ _ _ s

/-- A character touches pixels only through calls. -/
theorem touches_putcWith (load : U8 → U32) (ch : U8) (font : FontDef) (color : U8) :
    Touches (putcWith load ch font color).2 := by
  refine Touches.andThen ?_ fun _ _ _ _ _ => rfl
  exact touches_each fun i _ => touches_each fun j _ => touches_putByte _ i j font color

/-- A string touches pixels only through calls. -/
theorem touches_putsWith (load : U8 → U32) (str : List U8) (font : FontDef) (color : U8) :
    Touches (putsWith (putcWith load) str font color).2 := by
  induction str with
  | nil => exact touches_skip
  | cons ch str ih =>
    rw [putsWith]
    split
    · exact touches_skip
    · split
      · exact touches_putcWith load ch font color
      · exact (touches_putcWith load ch font color).andThen ih

/-- Started with the cursor at `(x, y)`, a command draws in the rectangle of width `w` and height
`h` from there on, and leaves the cursor. -/
def Within (x y : U16) (w h : ℕ) (c : ScreenCmd) : Prop :=
  ∀ s, s.currentX = x → s.currentY = y →
    ((c s).1.currentX = x ∧ (c s).1.currentY = y) ∧
      ∀ p ∈ drawn (c s).2, (x.toNat ≤ p.1 ∧ p.1 < x.toNat + w) ∧ y.toNat ≤ p.2 ∧ p.2 < y.toNat + h

/-- Two commands in one rectangle draw in it. -/
theorem Within.andThen {x y : U16} {w h : ℕ} {c d : ScreenCmd} (hc : Within x y w h c)
    (hd : Within x y w h d) : Within x y w h (c.andThen d) := by
  intro s hx hy
  obtain ⟨⟨hx', hy'⟩, hfirst⟩ := hc s hx hy
  obtain ⟨hcursor, hsecond⟩ := hd (c s).1 hx' hy'
  refine ⟨hcursor, fun p hp => ?_⟩
  rw [Cmd.andThen_apply, drawn_append] at hp
  rcases List.mem_append.mp hp with hp | hp
  · exact hfirst p hp
  · exact hsecond p hp

/-- Doing nothing draws in any rectangle. -/
theorem within_skip (x y : U16) (w h : ℕ) : Within x y w h Cmd.skip :=
  fun _ hx hy => ⟨⟨hx, hy⟩, fun _ hp => absurd hp List.not_mem_nil⟩

/-- A loop draws in a rectangle when its body does. -/
theorem within_each {α : Type} {x y : U16} {w h : ℕ} {body : α → ScreenCmd} {l : List α}
    (hbody : ∀ a ∈ l, Within x y w h (body a)) : Within x y w h (Cmd.each body l) :=
  Cmd.each_induction (within_skip x y w h) (fun _ _ => Within.andThen) hbody

/-- A pixel write leaves the cursor. -/
theorem cursor_drawPixel (x y : U16) (color : U8) (s : Screen) :
    (drawPixel x y color s).1.currentX = s.currentX ∧ (drawPixel x y color s).1.currentY = s.currentY := by
  unfold drawPixel
  split <;> exact ⟨rfl, rfl⟩

/-- A font with as many bytes in a row as its width needs. -/
def WellSized (font : FontDef) : Prop := font.bytes.toNat = (font.width.toNat + 7) / 8

section Cells

variable {font : FontDef} (hfont : WellSized font) {x y : U16}
  (hx : x.toNat + font.width.toNat < 65536) (hy : y.toNat + font.height.toNat < 65536)

include hfont hx hy

/-- The pixels of one byte of a row: columns `8 * j` on, and none beyond the width. -/
theorem within_putByte (b : U32) {i j : ℕ} (hi : i < font.height.toNat) (hj : j < font.bytes.toNat)
    (color : U8) : Within x y font.width.toNat font.height.toNat (putByte b i j font color) := by
  have hwidth := font.width.isLt
  have hheight := font.height.isLt
  have h8 : (8 : U32).toNat = 8 := rfl
  rw [WellSized] at hfont
  -- `8 * j < width`, so the unsigned difference is the difference
  have hstop : (font.width.setWidth 32 - BitVec.ofNat 32 j * 8).toNat = font.width.toNat - 8 * j := by
    have hmul : (BitVec.ofNat 32 j * 8 : U32).toNat = 8 * j := by
      simp only [BitVec.toNat_mul, BitVec.toNat_ofNat, h8]
      omega
    have hload : (font.width.setWidth 32).toNat = font.width.toNat := by
      rw [BitVec.toNat_setWidth]
      omega
    rw [BitVec.toNat_sub_of_le]
    · rw [hmul, hload]
    · rw [BitVec.le_def, hmul, hload]
      omega
  unfold putByte
  apply within_each
  intro k hk s hsx hsy
  rw [hstop] at hk
  have hk' := List.mem_range.mp hk
  refine ⟨⟨(cursor_drawPixel _ _ _ s).1.trans hsx, (cursor_drawPixel _ _ _ s).2.trans hsy⟩, fun p hp => ?_⟩
  rw [drawn_drawPixel] at hp
  obtain rfl := List.mem_singleton.mp hp
  have hpx : ((s.currentX.setWidth 32 + BitVec.ofNat 32 j * 8 + BitVec.ofNat 32 k).setWidth 16).toNat =
      x.toNat + 8 * j + k := by
    rw [hsx]
    simp only [BitVec.toNat_setWidth, BitVec.toNat_add, BitVec.toNat_mul, BitVec.toNat_ofNat, h8]
    omega
  have hpy : ((s.currentY.setWidth 32 + BitVec.ofNat 32 i).setWidth 16).toNat = y.toNat + i := by
    rw [hsy]
    simp only [BitVec.toNat_setWidth, BitVec.toNat_add, BitVec.toNat_ofNat]
    omega
  rw [hpx, hpy]
  exact ⟨⟨by omega, by omega⟩, by omega, by omega⟩

/-- One character: the calls are for its cell, and the cursor moves on by the width. -/
theorem putcWith_cell (load : U8 → U32) (ch color : U8) {s : Screen} (hsx : s.currentX = x)
    (hsy : s.currentY = y) :
    (((putcWith load ch font color).2 s).1.currentX.toNat = x.toNat + font.width.toNat ∧
        ((putcWith load ch font color).2 s).1.currentY = y) ∧
      ∀ p ∈ drawn ((putcWith load ch font color).2 s).2,
        (x.toNat ≤ p.1 ∧ p.1 < x.toNat + font.width.toNat) ∧
          y.toNat ≤ p.2 ∧ p.2 < y.toNat + font.height.toNat := by
  have hrows : Within x y font.width.toNat font.height.toNat
      (Cmd.each (fun i => Cmd.each (fun j =>
          putByte (load (font.byte ch (BitVec.ofNat 32 i) (BitVec.ofNat 32 j))) i j font color)
        (List.range font.bytes.toNat)) (List.range font.height.toNat)) :=
    within_each fun i hi => within_each fun j hj =>
      within_putByte hfont hx hy _ (List.mem_range.mp hi) (List.mem_range.mp hj) color
  obtain ⟨⟨hcx, hcy⟩, hdrawn⟩ := hrows s hsx hsy
  rw [putcWith]
  simp only [Cmd.andThen_apply, Cmd.modify_apply, List.append_nil]
  refine ⟨⟨?_, hcy⟩, hdrawn⟩
  rw [hcx, BitVec.toNat_add, BitVec.toNat_setWidth]
  have := font.width.isLt
  omega

end Cells

/-- **A string draws in the row of its cells.** -/
theorem putsWith_cells {font : FontDef} (hfont : WellSized font) (load : U8 → U32) (color : U8)
    {str : List U8} (hstr : ∀ ch ∈ str, ch ≠ 0) {s : Screen}
    (hx : s.currentX.toNat + str.length * font.width.toNat < 65536)
    (hy : s.currentY.toNat + font.height.toNat < 65536) :
    ∀ p ∈ drawn ((putsWith (putcWith load) str font color).2 s).2,
      (s.currentX.toNat ≤ p.1 ∧ p.1 < s.currentX.toNat + str.length * font.width.toNat) ∧
        s.currentY.toNat ≤ p.2 ∧ p.2 < s.currentY.toNat + font.height.toNat := by
  induction str generalizing s with
  | nil => exact fun p hp => absurd hp List.not_mem_nil
  | cons ch str ih =>
    have hlen : (ch :: str).length * font.width.toNat = str.length * font.width.toNat + font.width.toNat := by
      rw [List.length_cons, Nat.succ_mul]
    rw [hlen] at hx ⊢
    obtain ⟨⟨hcx, hcy⟩, hcell⟩ :=
      putcWith_cell hfont (x := s.currentX) (y := s.currentY) (by omega) hy load ch color rfl rfl
    have hrest := ih (fun d hd => hstr d (List.mem_cons_of_mem ch hd))
      (s := ((putcWith load ch font color).2 s).1) (by omega) (by rw [hcy]; exact hy)
    rw [hcx, hcy] at hrest
    intro p hp
    have hret : ¬ (putcWith load ch font color).1 ≠ ch := not_not_intro rfl
    rw [putsWith, if_neg (hstr ch List.mem_cons_self), if_neg hret] at hp
    dsimp only at hp
    rw [Cmd.andThen_apply, drawn_append] at hp
    rcases List.mem_append.mp hp with hp | hp
    · have := hcell p hp
      omega
    · have := hrest p hp
      omega

/-! ## Highlighted and inverse text -/

/-- A bit that differs between two screens. -/
def Changed (s t : Screen) (i b : ℕ) : Prop := (t.memory i).getLsbD b ≠ (s.memory i).getLsbD b

/-- **Highlighted and inverse text agree.** For every screen, cursor, font whose rows have the
bytes its width needs, printable string and colour, the two routines leave the same framebuffer
and the same cursor; and as long as the cells stay within 16 bits, each of them changes only bits of
pixels that lie in the cells and on the screen.
SOURCE: ST7567.c:204-335 -/
theorem highlight_agrees (s : Screen) {font : FontDef} (hfont : WellSized font) {str : List U8}
    (hstr : ∀ ch ∈ str, 32 ≤ ch.toNat ∧ ch.toNat ≤ 126) {c : U8}
    (hc : c = colorBack ∨ c = colorFront) :
    ((putsHightLight str font c).2 s).1 = ((puts str font (1 - c)).2 s).1 ∧
      (s.currentX.toNat + str.length * font.width.toNat < 65536 →
        s.currentY.toNat + font.height.toNat < 65536 →
        ∀ i b, b < 8 → Changed s ((putsHightLight str font c).2 s).1 i b ∨
            Changed s ((puts str font (1 - c)).2 s).1 i b →
          ∃ x y, OnScreen x y ∧
            (s.currentX.toNat ≤ x ∧ x < s.currentX.toNat + str.length * font.width.toNat) ∧
            (s.currentY.toNat ≤ y ∧ y < s.currentY.toNat + font.height.toNat) ∧
            i = byteOf x y ∧ b = y % 8) := by
  rw [putsHightLight_eq hc]
  refine ⟨rfl, fun hx hy i b hb hchanged => ?_⟩
  have hchar : ∀ ch ∈ str, ch ≠ 0 := by
    rintro ch hch rfl
    exact absurd (hstr 0 hch).1 (by decide)
  obtain ⟨p, hp, hon, hbyte, hbit⟩ :=
    (touches_putsWith (fun b => b.setWidth 32) str font (1 - c)).changed hb (or_self_iff.mp hchanged)
  obtain ⟨hcol, hrow⟩ := putsWith_cells hfont _ (1 - c) hchar hx hy p hp
  exact ⟨p.1, p.2, hon, hcol, hrow, hbyte, hbit⟩

/-- A font of five lines of ten pixels, in two bytes each. -/
def tinyFont : FontDef := ⟨10, 5, 1, 2, fun i => if i.toNat % 2 = 0 then 0xA5 else 0x03⟩

/-- A framebuffer with a pattern in it, and the cursor at column 20 of line 9. -/
def patternScreen : Screen := ⟨fun i => if i % 3 = 0 then 0x5A else 0xF0, 20, 9⟩

/-- The text `AB`, highlighted and in inverse: its cells are the columns 20 to 39 of the lines 9 to 13. -/
theorem highlight_agrees_tiny :
    ((putsHightLight [65, 66] tinyFont 1).2 patternScreen).1 =
        ((puts [65, 66] tinyFont (1 - 1)).2 patternScreen).1 ∧
      ∀ i b, b < 8 → Changed patternScreen ((putsHightLight [65, 66] tinyFont 1).2 patternScreen).1 i b →
        ∃ x y, (20 ≤ x ∧ x < 40) ∧ (9 ≤ y ∧ y < 14) ∧ i = byteOf x y ∧ b = y % 8 := by
  have hfont : WellSized tinyFont := rfl
  have hstr : ∀ ch ∈ ([65, 66] : List U8), 32 ≤ ch.toNat ∧ ch.toNat ≤ 126 := by decide
  have h := highlight_agrees patternScreen hfont hstr (c := 1) (Or.inr rfl)
  refine ⟨h.1, fun i b hb hchanged => ?_⟩
  obtain ⟨x, y, -, hcol, hrow, hbyte, hbit⟩ := h.2 (by decide) (by decide) i b hb (.inl hchanged)
  exact ⟨x, y, hcol, hrow, hbyte, hbit⟩

end InfraredModule.Analysis
