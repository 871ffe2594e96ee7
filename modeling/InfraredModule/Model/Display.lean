import InfraredModule.Model.Firmware

/-!
# The button callbacks and the display thread

`Oled1309.c` and the parts of `OledPage.c` that decide something: which page is shown, where
the cursor stands, which event a page posts. What is drawn is not read back by any of this and
is left out, except for the rows of the setting menu and the texts built in a buffer on the stack.
-/

set_option autoImplicit false

namespace InfraredModule.Model

open InfraredModule.Foundation

/-- The page on top of the shift register: its low byte. -/
def Oled.page (o : Oled) : U8 := o.pageInfor.setWidth 8

/-- `pageInfor <<= 8; pageInfor |= page`. -/
def Oled.push (o : Oled) (page : U8) : Oled :=
  { o with pageInfor := (o.pageInfor <<< 8) ||| page.setWidth 32 }

/-- `pageInfor >>= 8`. -/
def Oled.pop (o : Oled) : Oled := { o with pageInfor := o.pageInfor >>> 8 }

/-- Sets the `select` of the page record. -/
def Oled.setSelect (o : Oled) (select : Bool) : Oled :=
  { o with pageSelect := { o.pageSelect with select := select } }

/-- Sets the `cusor` of the page record. -/
def Oled.setCusor (o : Oled) (cusor : U8) : Oled :=
  { o with pageSelect := { o.pageSelect with cusor := cusor } }

/-- A command on the display's own memory. -/
def onOled (f : Oled → Oled) : FwCmd := Cmd.modify fun s => { s with oled := f s.oled }

/-- Restarts the back light's count and switches it on.
SOURCE: Oled1309.c:61-68 -/
def wakeUpOledBackLight : FwCmd :=
  Cmd.andThen (onOled fun o => { o with backlightTime := 0 })
    (Cmd.emit fun _ => [.pin .oledBackLight yes])

/-- Counts the seconds of the back light and switches it off after sixty.
SOURCE: Oled1309.c:70-84 -/
def monitorBackLight : FwCmd := fun s =>
  if s.oled.backlightTime < 60 then
    ({ s with oled := { s.oled with backlightTime := s.oled.backlightTime + 1 } }, [])
  else (s, [.pin .oledBackLight no])

/-! ## Button callbacks

SOURCE: Oled1309.c:60-174 -/

/-- The event a long press posts on the page it leaves. The posters set `event` only, so the
pointer beside it is whatever the stack held. -/
def overEvent (info : U8) : Option EventCode :=
  if info = onekeyMatchPage then some .sendMatchOver
  else if info = learnOnPage then some .sendLearnOnOver
  else if info = learnOffPage then some .sendLearnOffOver
  else none

/-- The callback of the enter button: a short press sets the selection, a long press posts the over event of
the page and leaves it. -/
def enterBtnCallBack (type : PressType) : FwCmd :=
  match type with
  | .shortPress =>
    Cmd.andThen wakeUpOledBackLight
      (onOled fun o => { o.setSelect true with reflashFlag := true })
  | .longPress => fun s =>
    Cmd.andThen
      (match overEvent s.oled.page with
        | some code => setinfraredEvent ⟨code, .uninitialised⟩
        | none => Cmd.skip)
      (onOled Oled.pop) s
  | .nullPress => Cmd.skip

/-- The callback of the up button: the cursor goes up, and from the first row to the last. -/
def upBtnCallBack (type : PressType) : FwCmd :=
  if type = .shortPress then
    Cmd.andThen wakeUpOledBackLight (onOled fun o =>
      { o.setCusor (if o.pageSelect.cusor > o.pageSelect.cusorHome then o.pageSelect.cusor - 1
          else o.pageSelect.cusorMax) with reflashFlag := true })
  else Cmd.skip

/-- The callback of the down button: the cursor goes down, and from the last row to the first. -/
def dowmBtnCallBack (type : PressType) : FwCmd :=
  if type = .shortPress then
    Cmd.andThen wakeUpOledBackLight (onOled fun o =>
      { (if o.pageSelect.cusorMax > 0 then
          o.setCusor (if o.pageSelect.cusor < o.pageSelect.cusorMax then o.pageSelect.cusor + 1
            else o.pageSelect.cusorHome)
        else o) with reflashFlag := true })
  else Cmd.skip

/-! ## Pages

SOURCE: Oled1309.c:176-295, OledPage.c:153-313 -/

/-- Sets the bounds of the cursor and puts it on the first row. -/
def pageSelectSet (home max : U8) : FwCmd := onOled fun o =>
  { o with pageSelect := { o.pageSelect with cusorHome := home, cusor := home, cusorMax := max } }

/-- Sets the cursor for a page that is shown for the first time. -/
def pageSetting (page : U8) : FwCmd :=
  if page = homePage then pageSelectSet 1 1
  else if page = settingPage then pageSelectSet 1 4
  else if page = learnModePage then pageSelectSet 1 2
  else if page = selectModePage then
    Cmd.andThen (pageSelectSet 1 2) fun s =>
      onOled (fun o => o.setCusor (if s.moduleInfo.select = selectMatch then 1 else 2)) s
  else if page = testPage then pageSelectSet 1 2
  else Cmd.skip

/-- A menu page: when Enter was pressed, push the page of the cursor's row and take the press. -/
def menuPage (rows : U8 → Option U8) : FwCmd := fun s =>
  if s.oled.pageSelect.select then
    onOled (fun o => ((match rows o.pageSelect.cusor with
      | some page => o.push page
      | none => o).setSelect false)) s
  else (s, [])

/-- The rows of the three menu pages.
SOURCE: Oled1309.c:213-246, 254-268 -/
def homeRows (cusor : U8) : Option U8 := if cusor = 1 then some settingPage else none

/-- The page behind each row of the setting menu. -/
def settingRows (cusor : U8) : Option U8 :=
  if cusor = 1 then some selectModePage
  else if cusor = 2 then some onekeyMatchPage
  else if cusor = 3 then some learnModePage
  else if cusor = 4 then some testPage
  else none

/-- The page behind each row of the learn menu. -/
def learnRows (cusor : U8) : Option U8 :=
  if cusor = 1 then some learnOnPage else if cusor = 2 then some learnOffPage else none

/-- The titles of the rows of the setting menu.
SOURCE: OledPage.c:99 -/
def settingShow : List String := ["Select Mode", "One Key Match", "Learn Mode", "Test Command"]

/-- What `SettingPage` draws: on each of its three lines a row of the menu, in colour 0 when it is the
selected one. The row is computed in `int`.
SOURCE: OledPage.c:97-143 -/
def settingPageShow (page : PageSelect) : List (Int × U8) :=
  if page.cusor ≤ 3 then
    (List.range 3).map fun index => (index, if page.cusor.toNat = index + 1 then 0 else 1)
  else
    (List.range 3).map fun index => (index + page.cusor.toNat - 3,
      if (page.cusor.toNat : Int) = index + 1 + page.cusor.toNat - 3 then 0 else 1)

/-- The match page posts the match event.
SOURCE: OledPage.c:153-171 -/
def oneKeyMatchPage : FwCmd := setinfraredEvent ⟨.sendMatch, .matchCallBack⟩

/-- The page that selects between match mode and learn mode.
SOURCE: OledPage.c:173-216 -/
def selectModePageShow : FwCmd := fun s =>
  if s.oled.pageSelect.select then
    Cmd.andThen
      (Cmd.modify fun s => { s with moduleInfo := { s.moduleInfo with
        select := if s.oled.pageSelect.cusor = 1 then selectMatch
          else if s.oled.pageSelect.cusor = 2 then selectLearn
          else s.moduleInfo.select } })
      (Cmd.andThen pageReturn (onOled fun o => o.setSelect false)) s
  else (s, [])

/-- The page that sends a test command.
SOURCE: OledPage.c:218-252 -/
def testPageShow : FwCmd := fun s =>
  if s.oled.pageSelect.select then
    Cmd.andThen
      (if s.oled.pageSelect.cusor = 1 then setinfraredEvent ⟨.sendOnTest, .uninitialised⟩
        else if s.oled.pageSelect.cusor = 2 then setinfraredEvent ⟨.sendOffTest, .uninitialised⟩
        else Cmd.skip)
      (onOled fun o => o.setSelect false) s
  else (s, [])

/-- The page that learns the on command.
SOURCE: OledPage.c:271-291 -/
def learnOnPageShow : FwCmd := setinfraredEvent ⟨.sendLearnModeOn, .learnCallBack⟩

/-- The page that learns the off command.
SOURCE: OledPage.c:293-313 -/
def learnOffPageShow : FwCmd := setinfraredEvent ⟨.sendLearnModeOff, .learnCallBack⟩

/-- Runs the function of the page. -/
def pageProgram (page : U8) : FwCmd :=
  Cmd.andThen
    (if page = homePage then menuPage homeRows
      else if page = settingPage then menuPage settingRows
      else if page = onekeyMatchPage then oneKeyMatchPage
      else if page = selectModePage then selectModePageShow
      else if page = learnModePage then menuPage learnRows
      else if page = learnOnPage then learnOnPageShow
      else if page = learnOffPage then learnOffPageShow
      else if page = testPage then testPageShow
      else Cmd.skip)
    (onOled fun o => { o with reflashFlag := false })

/-- Show a page: with its settings when it is new, again when a refresh is due.
SOURCE: Oled1309.c:319-335 -/
def oledShow (nowPage : U8) : FwCmd := fun s =>
  if s.oled.nowPagePre ≠ nowPage then
    Cmd.andThen (pageSetting nowPage) (Cmd.andThen (pageProgram nowPage)
      (onOled fun o => { o with nowPagePre := nowPage })) s
  else if s.oled.reflashFlag then pageProgram nowPage s
  else (s, [])

/-- A changed control word asks for a refresh.
SOURCE: Oled1309.c:337-342 -/
def oledCtrl : FwCmd := fun s =>
  if s.oled.ctrl ≠ s.moduleInfo.ctrl then
    ({ s with oled := { s.oled with ctrl := s.moduleInfo.ctrl, reflashFlag := true } }, [])
  else (s, [])

/-- SOURCE: Oled1309.c:345-354 -/
def oled1s (nowPage : U8) : FwCmd := fun s =>
  if s.oled.timer1s.touch then
    Cmd.andThen monitorBackLight
      (if nowPage = selectModePage ∨ nowPage = homePage then
        onOled fun o => { o with reflashFlag := true }
      else Cmd.skip) s
  else (s, [])

/-- One iteration of `OledTaskEntry`.
SOURCE: Oled1309.c:311-356 -/
def oledIteration : FwCmd :=
  Cmd.andThen (onOled fun o => { o with timer1s := timerTask o.timer1s 20 }) fun s =>
    Cmd.andThen (oledShow s.oled.page) (Cmd.andThen oledCtrl (oled1s s.oled.page)) s

/-! ## Texts built on the stack

Each text is the bytes that are stored, the terminating NUL included. -/

/-- The characters of a string literal. -/
def textBytes (text : List Char) : List U8 := text.map fun c => BitVec.ofNat 8 c.toNat

/-- `itoa(value, str, 10)` of the C library, at a value that is not negative. -/
def itoa (value : ℕ) : List U8 := textBytes (Nat.toDigits 10 value) ++ [0]

/-- SOURCE: Uart.h:75 -/
def iarVersion : String := "V1.0.0"

/-- `strcpy(name, " Setting       ")`, then `strcat(name, IAR_VERSION)`.
SOURCE: OledPage.c:41, 49-50 -/
def homePageName : List U8 := textBytes " Setting       ".toList ++ textBytes iarVersion.toList ++ [0]

/-- `itoa(getNowTemp(), temp, 10)`.
SOURCE: OledPage.c:40, 55 -/
def homePageTemp (s : Firmware) : List U8 := itoa s.nowTemp.toNat

/-- `itoa(getModuleInfo()->brand_code, brand_code, 10)`.
SOURCE: OledPage.c:323, 349 -/
def matchCallBackCode (s : Firmware) : List U8 := itoa s.moduleInfo.brandCode.toNat

/-- The size of `name`.
SOURCE: OledPage.c:40-41 -/
def nameSize : ℕ := 22

/-- The size of `temp`.
SOURCE: OledPage.c:40-41 -/
def tempSize : ℕ := 5

/-- The size of `brand_code`.
SOURCE: OledPage.c:323 -/
def brandCodeSize : ℕ := 5

end InfraredModule.Model
