import InfraredModule.Foundation.ClockedLine
import InfraredModule.Model.Wire

/-!
# The display at the other end of the wires

The controller as the driver's header and its comment on the column address describe it: a word
with the mode low is a command, one with the mode high is written to the display memory, at the page
and the column set before, and moves the column on up to `83h`. The word after `ST7567_SET_EV` is
the contrast, whatever command it would be otherwise.

`ST7567_SET_PAGE_ADDRESS` is documented for the pages 0 to 7. What a controller makes of the page
commands is a parameter (`pages`).

SOURCE: ST7567.h:65-148, ST7567.c:12-20
-/

set_option autoImplicit false

namespace InfraredModule.Interface

open InfraredModule.Foundation InfraredModule.Foundation.ClockedLine InfraredModule.Model

/-- The controller: where the next byte goes, the display memory, and the settings that show on the glass. -/
structure Panel where
  page : ℕ
  column : ℕ
  ram : ℕ → ℕ → U8
  contrast : U8
  setEv : Bool
  inverse : Bool
  on : Bool
  allPixels : Bool
  startLine : ℕ

/-- The last column, `83h`. -/
def lastColumn : ℕ := 131

/-- A command. Those that set the power, the bias and the directions change nothing that is kept here;
the reset leaves the display memory alone. -/
def Panel.command (pages : U8 → ℕ) (b : U8) (p : Panel) : Panel :=
  if p.setEv then { p with contrast := b &&& 0x3F, setEv := false }
  else if b = 0x81 then { p with setEv := true }
  else if b &&& 0xF0 = 0xB0 then { p with page := pages b }
  else if b &&& 0xF0 = 0x10 then { p with column := (b &&& 0x0F).toNat * 16 + p.column % 16 }
  else if b &&& 0xF0 = 0x00 then { p with column := p.column / 16 * 16 + (b &&& 0x0F).toNat }
  else if b &&& 0xC0 = 0x40 then { p with startLine := (b &&& 0x3F).toNat }
  else if b = 0xA6 ∨ b = 0xA7 then { p with inverse := decide (b = 0xA7) }
  else if b = 0xA4 ∨ b = 0xA5 then { p with allPixels := decide (b = 0xA5) }
  else if b = 0xAE ∨ b = 0xAF then { p with on := decide (b = 0xAF) }
  else p

/-- A byte for the display memory. -/
def Panel.write (b : U8) (p : Panel) : Panel :=
  { p with
    ram := Function.update p.ram p.page (Function.update (p.ram p.page) p.column b)
    column := if p.column < lastColumn then p.column + 1 else p.column }

/-- The byte whose bits came first to last, the highest first. -/
def byteOfBits (bits : List Bool) : U8 := BitVec.ofNat 8 (bits.foldl (fun n b => 2 * n + b.toNat) 0)

/-- A word from the line. -/
def Panel.take (pages : U8 → ℕ) (p : Panel) (word : Bool × List Bool) : Panel :=
  if word.1 then p.write (byteOfBits word.2) else p.command pages (byteOfBits word.2)

/-- The receiver at the wires and the controller behind it. -/
structure Display where
  receiver : Receiver
  panel : Panel

/-- A pin changes. A low level of the reset pin stops a contrast setting half way. -/
def Display.step (pages : U8 → ℕ) (d : Display) : PanelDrive → Display
  | .line e =>
    ⟨(d.receiver.step 8 e).1, (d.receiver.step 8 e).2.foldl (Panel.take pages) d.panel⟩
  | .reset v => if v then d else ⟨{ d.receiver with bits := [] }, { d.panel with setEv := false }⟩
  | .backLight _ => d

/-- The display after a sequence of levels. -/
def Display.run (pages : U8 → ℕ) (d : Display) (drives : List PanelDrive) : Display :=
  drives.foldl (Display.step pages) d

/-- A pixel of the glass. -/
def Panel.pixel (p : Panel) (x y : ℕ) : Bool := ((p.ram (y / 8) x).getLsbD (y % 8)) != p.inverse

end InfraredModule.Interface
