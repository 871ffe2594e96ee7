import InfraredModule.Foundation.ClockedLine
import InfraredModule.Model.Screen

/-!
# The wires to the display

The part of `ST7567.c` below `ST7567_WriteCommand` and `ST7567_WriteData`: with
`ST7567_HARDWARE_SPI` 0 every byte is clocked out by hand, bit by bit, on the pins of `GPIOB`. A
routine is the list of the levels it drives its pins to, in order. `CS` is the select of the line,
`SCK` its clock, `MOSI` its data and `DC` its mode.

SOURCE: Oled1309/st7567/ST7567.c:36-138, 159-171, ST7567.h:9-54
-/

set_option autoImplicit false

namespace InfraredModule.Model

open InfraredModule.Foundation InfraredModule.Foundation.ClockedLine

/-- A pin of the display is driven to a level: one of the line, the reset, or the backlight. -/
inductive PanelDrive where
  | line (d : Drive)
  | reset (v : Bool)
  | backLight (v : Bool)
  deriving DecidableEq, Repr

/-- Sets the select line.
SOURCE: ST7567.h:33-54 -/
def cs (v : Bool) : PanelDrive := .line (.select, v)

/-- Sets the clock line. -/
def sck (v : Bool) : PanelDrive := .line (.clock, v)

/-- Sets the data line. -/
def mosi (v : Bool) : PanelDrive := .line (.data, v)

/-- Sets the command and data line. -/
def dc (v : Bool) : PanelDrive := .line (.mode, v)

/-- The rounds of the loop over the bits: `dat` is shifted so that the next bit comes first.
SOURCE: ST7567.c:46-59 -/
def transmitRounds : ℕ → U8 → List PanelDrive
  | 0, _ => []
  | n + 1, dat =>
    [sck false, mosi (decide (dat &&& 0x80 ≠ 0)), sck true] ++ transmitRounds n (dat <<< 1)

/-- SOURCE: ST7567.c:36-61 -/
def st7567TransmitByte (dat : U8) : List PanelDrive := [cs false] ++ transmitRounds 8 dat ++ [cs true]

/-- SOURCE: ST7567.c:78-83 -/
def st7567WriteCommand (command : U8) : List PanelDrive :=
  [dc false] ++ st7567TransmitByte command ++ [dc true]

/-- `DC` is left as the last command left it.
SOURCE: ST7567.c:85-89 -/
def st7567WriteData (data : U8) : List PanelDrive := st7567TransmitByte data

/-- SOURCE: ST7567.c:117-122 -/
def st7567Reset : List PanelDrive := [.reset false, .reset true]

/-- SOURCE: ST7567.c:124-132 -/
def st7567BackLightOn : List PanelDrive := [.backLight true]

/-- Switches the back light off. -/
def st7567BackLightOff : List PanelDrive := [.backLight false]

/-- The commands of `ST7567_Init`, in order.
SOURCE: ST7567.c:96-114, ST7567.h:65-148 -/
def initCommands : List U8 :=
  [0xE2, 0x28 ||| 0x04 ||| 0x02 ||| 0x01, 0x81, 0x3F &&& 0x20, 0xA2, 0xA0, 0xC8, 0x20 ||| 0x03, 0xA6, 0xAF,
    0xA4, 0x40 ||| (0x00 &&& 0x3F), 0xB0 ||| (0x00 &&& 0x07), 0x10, 0x00]

/-- SOURCE: ST7567.c:91-115 -/
def st7567Init : List PanelDrive :=
  st7567Reset ++ st7567BackLightOff ++ initCommands.flatMap st7567WriteCommand

/-- SOURCE: ST7567.c:134-138 -/
def st7567SetContrast (val : U8) : List PanelDrive :=
  st7567WriteCommand 0x81 ++ st7567WriteCommand (0x3F &&& val)

/-- The new `ST7567.Inverted`, and the command that goes with it.
SOURCE: ST7567.c:159-171 -/
def st7567ToggleInvert (inverted : Bool) : Bool × List PanelDrive :=
  (!inverted, st7567WriteCommand (if !inverted then 0xA7 else 0xA6))

/-- What the routines of the framebuffer send, on the wires. -/
def ScreenObs.drives : ScreenObs → List PanelDrive
  | .command b => st7567WriteCommand b
  | .data b => st7567WriteData b
  | _ => []

/-- `ST7567_UpdateScreen` on the wires. -/
def updateScreenDrives (s : Screen) : List PanelDrive := (updateScreen s).2.flatMap ScreenObs.drives

end InfraredModule.Model
