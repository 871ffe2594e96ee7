import InfraredModule.Foundation.Loop
import InfraredModule.Model.Data
import Mathlib.Logic.Function.Basic
import Mathlib.Data.Int.Notation

/-!
# The display driver

`ST7567.c`: the framebuffer, and the routines of the user interface that draw into it or send it
to the display. A routine is a command on the memory of the driver whose observations are the
calls of `ST7567_DrawPixel`, the indices applied to `ST7567_Buffer_all`, the bytes sent, and the
values assigned to the `int16_t` variable `err` before they are converted.

`Screen.memory` is the memory from the start of `ST7567_Buffer_all` on; the array is its first
`bufferSize` bytes. Values of type `int16_t` are integers, and `int16` is the conversion to that
type.

SOURCE: Oled1309/st7567/ST7567.c, ST7567.h, ascii_fonts.h
-/

set_option autoImplicit false

namespace InfraredModule.Model

open InfraredModule.Foundation

/-! ## Dimensions and conversions -/

/-- `ST7567_WIDTH`.
SOURCE: ST7567.h:56-61 -/
def st7567Width : ℕ := 128

/-- `ST7567_HEIGHT`.
SOURCE: ST7567.h:56-61 -/
def st7567Height : ℕ := 64

/-- `ST7567_SEG_EXPAND`, the columns of the controller beyond the glass.
SOURCE: ST7567.h:56-61 -/
def st7567SegExpand : ℕ := 4

/-- The segments run in the normal direction.
SOURCE: ST7567.c:6-10, ST7567.h:62-63 -/
def st7567XOffset : ℕ := 0

/-- `sizeof(ST7567_Buffer_all)`.
SOURCE: ST7567.c:22 -/
def bufferSize : ℕ := (st7567Width + st7567SegExpand) * st7567Height / 8

/-- `ST7567_COLOR_BACK`.
SOURCE: ST7567.h:155-157 -/
def colorBack : U8 := 0x00

/-- `ST7567_COLOR_FRONT`.
SOURCE: ST7567.h:155-157 -/
def colorFront : U8 := 0x01

/-- Conversion to `int16_t`. -/
def int16 (v : ℤ) : ℤ := v.bmod 65536

/-- Conversion to `uint16_t`. -/
def uint16 (v : ℤ) : U16 := BitVec.ofInt 16 v

/-! ## The state of the driver -/

/-- SOURCE: ST7567.c:22-34 -/
structure Screen where
  memory : ℕ → U8
  currentX : U16
  currentY : U16

/-- What the driver does that shows outside its memory, or that a bound is about. -/
inductive ScreenObs where
  /-- A call of `ST7567_DrawPixel`. -/
  | pixel (x y : U16) (color : U8)
  /-- An index applied to `ST7567_Buffer_all`. -/
  | access (i : ℕ)
  /-- A value assigned to `err`, before its conversion. -/
  | err (v : ℤ)
  | command (b : U8)
  | data (b : U8)
  deriving DecidableEq, Repr

/-- A function of the driver. -/
abbrev ScreenCmd := Cmd Screen ScreenObs

/-! ## Sending the framebuffer -/

/-- Sends a command byte.
SOURCE: ST7567.c:78-83 -/
def writeCommand (b : U8) : ScreenCmd := Cmd.emit fun _ => [.command b]

/-- `ST7567_WriteData(ST7567_Buffer_all[i])`. -/
def writeDataAt (i : ℕ) : ScreenCmd := Cmd.emit fun s => [.access i, .data (s.memory i)]

/-- The body of the outer loop.
SOURCE: ST7567.c:145-151 -/
def updatePage (i : ℕ) : ScreenCmd :=
  Cmd.each id [writeCommand (BitVec.ofNat 8 (0xb0 + i)), writeCommand 0x10, writeCommand 0x00,
    Cmd.each (fun j => writeDataAt (i * 132 + j)) (List.range 132)]

/-- SOURCE: ST7567.c:140-157 -/
def updateScreen : ScreenCmd := Cmd.each updatePage (List.range 9)

/-! ## Pixels -/

/-- SOURCE: ST7567.c:173-177 -/
def fill (color : U8) : ScreenCmd := fun s =>
  ({ s with memory := fun i =>
      if i < bufferSize then (if color = colorBack then 0x00 else 0xFF) else s.memory i },
    (List.range bufferSize).map .access)

/-- The byte of a pixel. -/
def pixelIndex (x y : U16) : ℕ :=
  st7567XOffset + x.toNat + y.toNat / 8 * (st7567Width + st7567SegExpand)

/-- What `ST7567_DrawPixel` makes of the byte of a pixel in line `y`. -/
def paint (y : U16) (color b : U8) : U8 :=
  if color = colorFront then b ||| (1#8 <<< (y.toNat % 8)) else b &&& ~~~(1#8 <<< (y.toNat % 8))

/-- SOURCE: ST7567.c:179-195 -/
def drawPixel (x y : U16) (color : U8) : ScreenCmd := fun s =>
  if st7567Width ≤ x.toNat ∨ st7567Height ≤ y.toNat then (s, [.pixel x y color])
  else
    ({ s with memory :=
        Function.update s.memory (pixelIndex x y) (paint y color (s.memory (pixelIndex x y))) },
      [.pixel x y color, .access (pixelIndex x y)])

/-! ## Text -/

/-- `data` is the memory the font points to.
SOURCE: ascii_fonts.h:6-12 -/
structure FontDef where
  width : U8
  height : U8
  order : U8
  bytes : U8
  data : U32 → U8

/-- `font->data[((ch - 32) * font->height + i) * font->bytes + j]`. -/
def FontDef.byte (font : FontDef) (ch : U8) (i j : U32) : U8 :=
  font.data (((ch.setWidth 32 - 32) * font.height.setWidth 32 + i) * font.bytes.setWidth 32 + j)

/-- The test for a pixel of the character, in both bit orders.
SOURCE: ST7567.c:213-229 -/
def FontDef.bit (font : FontDef) (b k : U32) : Bool :=
  if font.order = 0 then decide ((b <<< k) &&& 0x80 ≠ 0) else decide (b &&& ((0x0001 : U32) <<< k) ≠ 0)

/-- `!color`. -/
def notColor (color : U8) : U8 := if color = 0 then 1 else 0

/-- One byte of a character: up to eight pixels, and no more than the unsigned
`font->width - j * 8`.
SOURCE: ST7567.c:212-240 -/
def putByte (b : U32) (i j : ℕ) (font : FontDef) (color : U8) : ScreenCmd :=
  let stop : U32 := font.width.setWidth 32 - BitVec.ofNat 32 j * 8
  Cmd.each (fun k s => drawPixel
      ((s.currentX.setWidth 32 + BitVec.ofNat 32 j * 8 + BitVec.ofNat 32 k).setWidth 16)
      ((s.currentY.setWidth 32 + BitVec.ofNat 32 i).setWidth 16)
      (if font.bit b (BitVec.ofNat 32 k) then color else notColor color) s)
    (List.range (min 8 stop.toNat))

/-- `ST7567_Putc` and `ST7567_Putc_Hightlight` differ in what they make of a byte of the font.
SOURCE: ST7567.c:204-249, 251-296 -/
def putcWith (load : U8 → U32) (ch : U8) (font : FontDef) (color : U8) : U8 × ScreenCmd :=
  (ch, Cmd.andThen
    (Cmd.each (fun i => Cmd.each (fun j =>
        putByte (load (font.byte ch (BitVec.ofNat 32 i) (BitVec.ofNat 32 j))) i j font color)
      (List.range font.bytes.toNat)) (List.range font.height.toNat))
    (Cmd.modify fun s => { s with currentX := s.currentX + font.width.setWidth 16 }))

/-- SOURCE: ST7567.c:204-249 -/
def putc : U8 → FontDef → U8 → U8 × ScreenCmd := putcWith fun b => b.setWidth 32

/-- SOURCE: ST7567.c:251-296 -/
def putcHightlight : U8 → FontDef → U8 → U8 × ScreenCmd := putcWith fun b => ~~~b.setWidth 32

/-- The characters of a string, up to the terminating zero.
SOURCE: ST7567.c:298-335 -/
def putsWith (put : U8 → FontDef → U8 → U8 × ScreenCmd) : List U8 → FontDef → U8 → U8 × ScreenCmd
  | [], _, _ => (0, Cmd.skip)
  | ch :: str, font, color =>
    if ch = 0 then (ch, Cmd.skip)
    else if (put ch font color).1 ≠ ch then (ch, (put ch font color).2)
    else
      let rest := putsWith put str font color
      (rest.1, (put ch font color).2.andThen rest.2)

/-- SOURCE: ST7567.c:298-316 -/
def puts : List U8 → FontDef → U8 → U8 × ScreenCmd := putsWith putc

/-- SOURCE: ST7567.c:317-335 -/
def putsHightLight : List U8 → FontDef → U8 → U8 × ScreenCmd := putsWith putcHightlight

/-! ## Lines -/

/-- SOURCE: ST7567.c:342-357 -/
def clamp (limit : ℕ) (v : U16) : U16 := if limit ≤ v.toNat then BitVec.ofNat 16 (limit - 1) else v

/-- The swap before the loops for vertical and horizontal lines. -/
def ordered (a b : U16) : U16 × U16 := if b.toNat < a.toNat then (b, a) else (a, b)

/-- The variables the loop of `ST7567_DrawLine` changes. -/
structure LineVars where
  x0 : U16
  y0 : U16
  err : ℤ
  deriving DecidableEq, Repr

/-- One round of the loop.
SOURCE: ST7567.c:416-434 -/
def lineRound (dx dy sx sy : ℤ) (x1 y1 : U16) (c : U8) : Loop.Round LineVars Screen ScreenObs :=
  fun v =>
    if v.x0 = x1 ∧ v.y0 = y1 then (some (drawPixel v.x0 v.y0 c), none)
    else
      let e2 := v.err
      let vx : LineVars :=
        if e2 > -dx then ⟨uint16 (v.x0.toNat + sx), v.y0, int16 (v.err - dy)⟩ else v
      let vy : LineVars :=
        if e2 < dy then ⟨vx.x0, uint16 (vx.y0.toNat + sy), int16 (vx.err + dx)⟩ else vx
      let stored := (if e2 > -dx then [v.err - dy] else []) ++ if e2 < dy then [vx.err + dx] else []
      (some ((drawPixel v.x0 v.y0 c).andThen (Cmd.emit fun _ => stored.map .err)), some vy)

/-- The part of `ST7567_DrawLine` after its parameters have been checked. The open loop is granted
as many rounds as the screen is wide.
SOURCE: ST7567.c:359-435 -/
def drawClampedLine (x0 y0 x1 y1 : U16) (c : U8) : Option ScreenCmd :=
  let dx := int16 (if x0.toNat < x1.toNat then (x1.toNat : ℤ) - x0.toNat else x0.toNat - x1.toNat)
  let dy := int16 (if y0.toNat < y1.toNat then (y1.toNat : ℤ) - y0.toNat else y0.toNat - y1.toNat)
  let sx : ℤ := if x0.toNat < x1.toNat then 1 else -1
  let sy : ℤ := if y0.toNat < y1.toNat then 1 else -1
  let err := (if dx > dy then dx else -dy).tdiv 2
  let body : Option ScreenCmd :=
    if dx = 0 then
      let y := ordered y0 y1
      let x := ordered x0 x1
      some (Cmd.each (fun i => drawPixel x.1 (BitVec.ofNat 16 i) c)
        (List.range' y.1.toNat (y.2.toNat + 1 - y.1.toNat)))
    else if dy = 0 then
      let y := ordered y0 y1
      let x := ordered x0 x1
      some (Cmd.each (fun i => drawPixel (BitVec.ofNat 16 i) y.1 c)
        (List.range' x.1.toNat (x.2.toNat + 1 - x.1.toNat)))
    else Loop.run (lineRound dx dy sx sy x1 y1 c) st7567Width ⟨x0, y0, int16 err⟩
  body.map (Cmd.andThen (Cmd.emit fun _ => [.err err]))

/-- SOURCE: ST7567.c:337-436 -/
def drawLine (x0 y0 x1 y1 : U16) (c : U8) : Option ScreenCmd :=
  drawClampedLine (clamp st7567Width x0) (clamp st7567Height y0) (clamp st7567Width x1)
    (clamp st7567Height y1) c

/-! ## Filled circles -/

/-- The variables of `ST7567_DrawFilledCircle`. -/
structure CircleVars where
  f : ℤ
  ddFx : ℤ
  ddFy : ℤ
  x : ℤ
  y : ℤ
  deriving DecidableEq, Repr

/-- The variables at the end of a round.
SOURCE: ST7567.c:622-630 -/
def CircleVars.next (v : CircleVars) : CircleVars :=
  let y := if v.f ≥ 0 then int16 (v.y - 1) else v.y
  let ddFy := if v.f ≥ 0 then int16 (v.ddFy + 2) else v.ddFy
  let f := if v.f ≥ 0 then int16 (v.f + ddFy) else v.f
  let x := int16 (v.x + 1)
  let ddFx := int16 (v.ddFx + 2)
  ⟨int16 (f + ddFx), ddFx, ddFy, x, y⟩

/-- The four lines of a round. -/
def circleLines (x0 y0 x y : ℤ) (c : U8) : Option ScreenCmd :=
  Loop.seq [drawLine (uint16 (x0 - x)) (uint16 (y0 + y)) (uint16 (x0 + x)) (uint16 (y0 + y)) c,
    drawLine (uint16 (x0 + x)) (uint16 (y0 - y)) (uint16 (x0 - x)) (uint16 (y0 - y)) c,
    drawLine (uint16 (x0 + y)) (uint16 (y0 + x)) (uint16 (x0 - y)) (uint16 (y0 + x)) c,
    drawLine (uint16 (x0 + y)) (uint16 (y0 - x)) (uint16 (x0 - y)) (uint16 (y0 - x)) c]

/-- SOURCE: ST7567.c:620-637 -/
def circleRound (x0 y0 : ℤ) (c : U8) : Loop.Round CircleVars Screen ScreenObs := fun v =>
  if v.x < v.y then (circleLines x0 y0 v.next.x v.next.y c, some v.next) else (some Cmd.skip, none)

/-- The loop runs while `x < y`, and `x` starts at zero and `y` at `r`.
SOURCE: ST7567.c:606-638 -/
def drawFilledCircle (x0 y0 r : ℤ) (c : U8) : Option ScreenCmd :=
  Loop.seq [some (drawPixel (uint16 x0) (uint16 (y0 + r)) c),
    some (drawPixel (uint16 x0) (uint16 (y0 - r)) c),
    some (drawPixel (uint16 (x0 + r)) (uint16 y0) c),
    some (drawPixel (uint16 (x0 - r)) (uint16 y0) c),
    drawLine (uint16 (x0 - r)) (uint16 y0) (uint16 (x0 + r)) (uint16 y0) c,
    Loop.run (circleRound x0 y0 c) (r.toNat + 1) ⟨int16 (1 - r), 1, int16 (-2 * r), 0, r⟩]

end InfraredModule.Model
