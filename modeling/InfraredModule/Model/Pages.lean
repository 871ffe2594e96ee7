import InfraredModule.Model.System
import InfraredModule.Model.Wire

/-!
# What the pages draw

The drawing side of `OledPage.c`. Every routine clears the framebuffer, places its texts, lines and
circles, and sends the framebuffer to the display: it is a list of `Element`s, in the order of its
calls. `PageCall` are the calls of these routines, with what each of them reads. `Apparatus` is the
firmware with the framebuffer and what is on the other end of its wires: the display thread calls
the routine of its page, the serial task a callback.

A routine draws in one step of the apparatus: the other threads act before it and after it.

SOURCE: Oled1309/OledPage.c, Oled1309/Oled1309.c:40-51, 86-176, 210-358, ST7567.c:197-202, 569-604
-/

set_option autoImplicit false

namespace InfraredModule.Model

open InfraredModule.Foundation

/-! ## Circles -/

/-- The eight pixels of a round.
SOURCE: ST7567.c:594-602 -/
def ringPixels (x0 y0 x y : ℤ) (c : U8) : ScreenCmd :=
  Cmd.each id [drawPixel (uint16 (x0 + x)) (uint16 (y0 + y)) c, drawPixel (uint16 (x0 - x)) (uint16 (y0 + y)) c,
    drawPixel (uint16 (x0 + x)) (uint16 (y0 - y)) c, drawPixel (uint16 (x0 - x)) (uint16 (y0 - y)) c,
    drawPixel (uint16 (x0 + y)) (uint16 (y0 + x)) c, drawPixel (uint16 (x0 - y)) (uint16 (y0 + x)) c,
    drawPixel (uint16 (x0 + y)) (uint16 (y0 - x)) c, drawPixel (uint16 (x0 - y)) (uint16 (y0 - x)) c]

/-- The variables are those of the filled circle.
SOURCE: ST7567.c:582-603 -/
def ringRound (x0 y0 : ℤ) (c : U8) : Loop.Round CircleVars Screen ScreenObs := fun v =>
  if v.x < v.y then (some (ringPixels x0 y0 v.next.x v.next.y c), some v.next) else (some Cmd.skip, none)

/-- SOURCE: ST7567.c:569-604 -/
def drawCircle (x0 y0 r : ℤ) (c : U8) : Option ScreenCmd :=
  Loop.seq [some (drawPixel (uint16 x0) (uint16 (y0 + r)) c),
    some (drawPixel (uint16 x0) (uint16 (y0 - r)) c),
    some (drawPixel (uint16 (x0 + r)) (uint16 y0) c),
    some (drawPixel (uint16 (x0 - r)) (uint16 y0) c),
    Loop.run (ringRound x0 y0 c) (r.toNat + 1) ⟨int16 (1 - r), 1, int16 (-2 * r), 0, r⟩]

/-! ## Texts -/

/-- SOURCE: ST7567.c:197-202 -/
def gotoXY (x y : U16) : ScreenCmd := Cmd.modify fun s => { s with currentX := x, currentY := y }

/-- The tables of the glyphs. -/
structure Glyphs where
  font6x12 : U32 → U8
  font8x16 : U32 → U8
  font16x32 : U32 → U8

/-- The fonts the pages use. -/
inductive FontName where
  | font6x12
  | font8x16
  | font16x32
  deriving DecidableEq, Repr

/-- SOURCE: ascii_fonts.c:1339-1342 -/
def FontName.font (g : Glyphs) : FontName → FontDef
  | .font6x12 => ⟨6, 12, 1, 1, g.font6x12⟩
  | .font8x16 => ⟨8, 16, 1, 1, g.font8x16⟩
  | .font16x32 => ⟨16, 32, 1, 2, g.font16x32⟩

/-! ## Elements of a page -/

/-- A call of `ST7567_GotoXY` and `ST7567_Puts`, of `ST7567_DrawCircle`, or of `ST7567_DrawLine`. -/
inductive Element where
  | text (x y : U16) (str : List U8) (font : FontName) (color : U8)
  | circle (x0 y0 r : ℤ) (c : U8)
  | line (x0 y0 x1 y1 : U16) (c : U8)
  deriving DecidableEq, Repr

/-- The calls of the driver that draw an element. -/
def Element.draw (g : Glyphs) : Element → Option ScreenCmd
  | .text x y str font color => some ((gotoXY x y).andThen (puts str (font.font g) color).2)
  | .circle x0 y0 r c => drawCircle x0 y0 r c
  | .line x0 y0 x1 y1 c => drawLine x0 y0 x1 y1 c

/-- `clear_screen()`, the elements, `ST7567_UpdateScreen()`.
SOURCE: Oled1309.c:40-44 -/
def showElements (g : Glyphs) (elements : List Element) : Option ScreenCmd :=
  Loop.seq (some (fill 0) :: elements.map (Element.draw g) ++ [some updateScreen])

/-- A string literal in `Font_8x16`. -/
def label (x y : U16) (text : String) (color : U8) : Element :=
  .text x y (textBytes text.toList) .font8x16 color

/-! ## The pages -/

/-- Without one of the two modes the cursor is set and nothing written.
SOURCE: OledPage.c:38-95 -/
def homePageElements (nowTemp switchState select : U8) : List Element :=
  [.text 0 0 homePageName .font6x12 0,
    .text 8 22 (itoa nowTemp.toNat) .font16x32 1,
    .circle 42 30 1 1,
    label 44 30 "C" 1,
    label 78 22 (if switchState = yes then "On" else "Off") 1,
    .line (8 + 3 * 16) 38 127 38 1,
    label 70 39 (if select = selectMatch then "match" else if select = selectLearn then "learn" else "") 1]

/-- The rows and colours are those of `settingPageShow`.
SOURCE: OledPage.c:97-143 -/
def settingPageElements (page : PageSelect) : List Element :=
  (settingPageShow page).mapIdx fun index row =>
    label 8 (BitVec.ofNat 16 (16 + index * 16)) (settingShow.getD row.1.toNat "") row.2

/-- SOURCE: OledPage.c:153-171 -/
def oneKeyMatchPageElements : List Element := [label 8 16 "Matching Now" 0]

/-- The static `show` is what it was when the cursor is on neither row; the static `cnt` is
incremented by the caller.
SOURCE: OledPage.c:173-216 -/
def selectModePageElements (shown : List U8) (cnt : U8) : List Element :=
  [label 8 16 "select" 1, .text (8 * 8) 16 shown .font8x16 (if cnt.toNat % 2 ≠ 0 then 0 else 1)]

/-- SOURCE: OledPage.c:176, 181-189 -/
def selectModePageText (page : PageSelect) (shown : List U8) : List U8 :=
  if page.cusor = 1 then textBytes "match".toList
  else if page.cusor = 2 then textBytes "learn".toList
  else shown

/-- SOURCE: OledPage.c:218-252 -/
def testPageElements (page : PageSelect) : List Element :=
  [label 8 16 "Send On Command" (if page.cusor = 1 then 0 else 1),
    label 8 (16 * 2) "Send Off Command" (if page.cusor = 2 then 0 else 1)]

/-- SOURCE: OledPage.c:254-269 -/
def learnPageElements (page : PageSelect) : List Element :=
  [label 8 16 "learn on" (if page.cusor = 1 then 0 else 1),
    label 8 (16 * 2) "learn off" (if page.cusor = 2 then 0 else 1)]

/-- SOURCE: OledPage.c:271-291 -/
def learnOnPageElements : List Element := [label 8 16 "start send on" 1, label 8 (16 * 2) "command" 1]

/-- SOURCE: OledPage.c:293-313 -/
def learnOffPageElements : List Element := [label 8 16 "start send off" 1, label 8 (16 * 2) "command" 1]

/-- SOURCE: infrared.h:23-29 -/
def infraredEventMatchFail : U8 := 0x02

/-- `INFRARED_EVENT_SAVE_FAIL`. -/
def infraredEventSaveFail : U8 := 0x04

/-- With no other result it draws nothing.
SOURCE: OledPage.c:321-373 -/
def matchCallBackElements (result : U8) (brandCode : U16) : Option (List Element) :=
  if result = infraredEventMatchOk then some [label 8 16 "Match Sucess" 0]
  else if result = infraredEventMatchFail then some [label 8 16 "Match Fail" 0]
  else if result = infraredEventSaveOk then
    some [label 8 16 "Save Sucess" 0, label 8 (16 * 2) "key code = " 0,
      .text (12 * 8) (16 * 2) (itoa brandCode.toNat) .font8x16 0]
  else if result = infraredEventSaveFail then some [label 8 16 "Save Fail" 0]
  else none

/-- SOURCE: OledPage.c:395-429 -/
def learnCallBackElements (result : U8) : Option (List Element) :=
  if result = cbInLearnOn then some [label 8 16 "Press the on" 1, label 8 (16 * 2) "key, please" 1]
  else if result = cbInLearnOff then some [label 8 16 "Press the off" 1, label 8 (16 * 2) "key, please" 1]
  else none

/-- A call of a routine that draws, with what it reads. -/
inductive PageCall where
  | homePage (nowTemp switchState select : U8)
  | settingPage (page : PageSelect)
  | oneKeyMatchPage
  | selectModePage (shown : List U8) (cnt : U8)
  | testPage (page : PageSelect)
  | learnPage (page : PageSelect)
  | learnOnPage
  | learnOffPage
  | matchCallBack (result : U8) (brandCode : U16)
  | learnCallBack (result : U8)
  deriving DecidableEq, Repr

/-- What a call draws, if it draws. -/
def PageCall.elements : PageCall → Option (List Element)
  | .homePage nowTemp switchState select => some (homePageElements nowTemp switchState select)
  | .settingPage page => some (settingPageElements page)
  | .oneKeyMatchPage => some oneKeyMatchPageElements
  | .selectModePage shown cnt => some (selectModePageElements shown cnt)
  | .testPage page => some (testPageElements page)
  | .learnPage page => some (learnPageElements page)
  | .learnOnPage => some learnOnPageElements
  | .learnOffPage => some learnOffPageElements
  | .matchCallBack result brandCode => matchCallBackElements result brandCode
  | .learnCallBack result => learnCallBackElements result

/-! ## The apparatus -/

/-- The routine of a page, called in the state in which `pageProgram` runs, with the statics of
`selectModePage`.
SOURCE: Oled1309.c:210-295 -/
def pageProgramCall (page : U8) (shown : List U8) (cnt : U8) (s : Firmware) : Option PageCall :=
  if page = homePage then some (.homePage s.nowTemp s.switchState s.moduleInfo.select)
  else if page = settingPage then some (.settingPage s.oled.pageSelect)
  else if page = onekeyMatchPage then some .oneKeyMatchPage
  else if page = selectModePage then
    some (.selectModePage (selectModePageText s.oled.pageSelect shown) cnt)
  else if page = learnModePage then some (.learnPage s.oled.pageSelect)
  else if page = learnOnPage then some .learnOnPage
  else if page = learnOffPage then some .learnOffPage
  else if page = testPage then some (.testPage s.oled.pageSelect)
  else none

/-- The routine an iteration of the display thread calls.
SOURCE: Oled1309.c:319-335 -/
def oledCall (shown : List U8) (cnt : U8) (s : Firmware) : Option PageCall :=
  if s.oled.nowPagePre ≠ s.oled.page then
    pageProgramCall s.oled.page shown cnt (pageSetting s.oled.page s).1
  else if s.oled.reflashFlag then pageProgramCall s.oled.page shown cnt s
  else none

/-- A callback of the serial task draws with the state it finds. -/
def callBackCall (s : Firmware) : Obs → Option PageCall
  | .callBack .matchCallBack _ result => some (.matchCallBack result s.moduleInfo.brandCode)
  | .callBack .learnCallBack _ result => some (.learnCallBack result)
  | _ => none

/-- The firmware, the memory of the display driver and the statics of `selectModePage`. -/
structure Apparatus where
  threads : Threads
  screen : Screen
  shown : List U8
  cnt : U8

/-- What is seen of the apparatus: a routine draws, a pin of the display is driven. -/
inductive ApparatusObs where
  | call (call : PageCall)
  | drive (d : PanelDrive)
  deriving DecidableEq

/-- `cnt++`, and what `strcpy` left in `show`. -/
def PageCall.statics (d : Apparatus) : PageCall → Apparatus
  | .selectModePage shown cnt => { d with shown := shown, cnt := cnt + 1 }
  | _ => d

/-- A routine draws into the framebuffer, and its refresh goes out on the wires. -/
def perform (g : Glyphs) (call : PageCall) : Cmd Apparatus ApparatusObs := fun d =>
  match call.elements.bind (showElements g) with
  | some c => (call.statics { d with screen := (c d.screen).1 },
      .call call :: ((c d.screen).2.flatMap ScreenObs.drives).map .drive)
  | none => (d, [])

/-- The routines that are called in a step. -/
def Apparatus.calls (chip : Chip) (i : ThreadInput) (d : Apparatus) : List PageCall :=
  match i with
  | .peer .oledIteration => (oledCall d.shown d.cnt d.threads.fw).toList
  | _ => (Model.threads chip i d.threads).2.filterMap (callBackCall d.threads.fw)

/-- A short press of a button clears the framebuffer, and leaves the refresh to the display thread.
SOURCE: Oled1309.c:95, 137, 161 -/
def clearsScreen : ThreadInput → Bool
  | .peer (.enterBtn .shortPress) | .peer (.upBtn .shortPress) | .peer (.dowmBtn .shortPress) => true
  | _ => false

/-- One step of the threads, with what its routines draw. -/
def apparatus (chip : Chip) (g : Glyphs) (i : ThreadInput) : Cmd Apparatus ApparatusObs := fun d =>
  Cmd.each (perform g) (d.calls chip i)
    { d with
      threads := (Model.threads chip i d.threads).1
      screen := if clearsScreen i then (fill 0 d.screen).1 else d.screen }

/-- After `st7567Init`, with the framebuffer cleared.
SOURCE: Oled1309.c:46-51, 307, OledPage.c:175-176 -/
def Apparatus.boot (s : Firmware) (screen : Screen) : Apparatus := ⟨⟨s, .skip⟩, (fill 0 screen).1, [0x20], 0⟩

end InfraredModule.Model
