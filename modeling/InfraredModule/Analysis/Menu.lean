import InfraredModule.Analysis.LongPress
import InfraredModule.Interface.Menu

/-!
# The menu stack, the cursor and the Enter press

`Screen` is the part of the display's memory that decides which page is on top, where the cursor
stands, whether an Enter press is pending and which page was shown last. `screen_step` says what
each step does to it. `menu_invariant` is the invariant of all of them: the stack is a path of the
menu tree, the cursor is within its bounds, and the setting menu highlights the row that Enter
opens. `enter_consumed` says in which runs an Enter press is taken by the page it was made on.
-/

set_option autoImplicit false

namespace InfraredModule.Analysis

open InfraredModule.Foundation InfraredModule.Model InfraredModule.Interface

/-! ## The screen -/

/-- What the menu is about: the stack of pages, the page record, and the page shown last. -/
structure Screen where
  pageInfor : U32
  pageSelect : PageSelect
  nowPagePre : U8

/-- The screen in the display's memory. -/
def screen (o : Oled) : Screen := ⟨o.pageInfor, o.pageSelect, o.nowPagePre⟩

namespace Screen

/-- The page on top. -/
def page (x : Screen) : U8 := x.pageInfor.setWidth 8

/-- Opens a page. -/
def push (x : Screen) (page : U8) : Screen :=
  { x with pageInfor := (x.pageInfor <<< 8) ||| page.setWidth 32 }

/-- Goes back a page. -/
def pop (x : Screen) : Screen := { x with pageInfor := x.pageInfor >>> 8 }

/-- Sets or takes a press of Enter. -/
def setSelect (x : Screen) (select : Bool) : Screen :=
  { x with pageSelect := { x.pageSelect with select := select } }

/-- Puts the cursor on a row. -/
def setCusor (x : Screen) (cusor : U8) : Screen :=
  { x with pageSelect := { x.pageSelect with cusor := cusor } }

/-- Sets the bounds of the cursor and puts it on the first row. -/
def setRange (x : Screen) (home max : U8) : Screen :=
  { x with pageSelect := { x.pageSelect with cusorHome := home, cusor := home, cusorMax := max } }

/-- The settings of a new page.
SOURCE: Oled1309.c:185-211 -/
def set (mode page : U8) (x : Screen) : Screen :=
  if page = homePage then x.setRange 1 1
  else if page = settingPage then x.setRange 1 4
  else if page = learnModePage then x.setRange 1 2
  else if page = selectModePage then
    (x.setRange 1 2).setCusor (if mode = selectMatch then 1 else 2)
  else if page = testPage then x.setRange 1 2
  else x

/-- A menu page with Enter pressed. -/
def enter (x : Screen) (rows : U8 → Option U8) : Screen :=
  (match rows x.pageSelect.cusor with
    | some page => x.push page
    | none => x).setSelect false

/-- What showing a page does: a menu takes the press and opens a row, the mode page takes it and goes
back, the test page takes it; the match page and the learn pages leave it.
SOURCE: Oled1309.c:213-295 -/
def program (page : U8) (x : Screen) : Screen :=
  if x.pageSelect.select then
    if page = homePage then x.enter homeRows
    else if page = settingPage then x.enter settingRows
    else if page = selectModePage then x.pop.setSelect false
    else if page = learnModePage then x.enter learnRows
    else if page = testPage then x.setSelect false
    else x
  else x

/-- An iteration of the display.
SOURCE: Oled1309.c:316-335 -/
def shown (mode : U8) (reflash : Bool) (x : Screen) : Screen :=
  if x.nowPagePre ≠ x.page then { (x.set mode x.page).program x.page with nowPagePre := x.page }
  else if reflash then x.program x.page
  else x

/-- What a step does to the screen, by the mode and the refresh flag it finds. -/
def step (mode : U8) (reflash : Bool) (x : Screen) : MenuInput → Screen
  | .peer (.enterBtn .shortPress) => x.setSelect true
  | .peer (.enterBtn .longPress) => x.pop
  | .peer (.upBtn .shortPress) =>
    x.setCusor (if x.pageSelect.cusor > x.pageSelect.cusorHome then x.pageSelect.cusor - 1
      else x.pageSelect.cusorMax)
  | .peer (.dowmBtn .shortPress) =>
    if x.pageSelect.cusorMax > 0 then
      x.setCusor (if x.pageSelect.cusor < x.pageSelect.cusorMax then x.pageSelect.cusor + 1
        else x.pageSelect.cusorHome)
    else x
  | .peer .oledIteration => x.shown mode reflash
  | .pageReturn => x.pop
  | _ => x

end Screen

/-- The settings of a page do to the screen what `set` does. -/
theorem screen_pageSetting (page : U8) (s : Firmware) :
    screen (pageSetting page s).1.oled = (screen s.oled).set s.moduleInfo.select page := by
  unfold pageSetting Screen.set
  split
  · rfl
  split
  · rfl
  split
  · rfl
  split
  · rfl
  split <;> rfl

/-- A page with rows does to the screen what `enter` does, when Enter was pressed. -/
theorem screen_menuPage (rows : U8 → Option U8) (s : Firmware) :
    screen (menuPage rows s).1.oled =
      if s.oled.pageSelect.select then (screen s.oled).enter rows else screen s.oled := by
  unfold menuPage Screen.enter
  split
  · show screen ((match rows s.oled.pageSelect.cusor with
      | some page => s.oled.push page
      | none => s.oled).setSelect false) = (match rows s.oled.pageSelect.cusor with
      | some page => (screen s.oled).push page
      | none => screen s.oled).setSelect false
    cases rows s.oled.pageSelect.cusor with
    | some page => rfl
    | none => rfl
  · rfl

/-- The selection page goes back and takes the press. -/
theorem screen_selectModePageShow (s : Firmware) :
    screen (selectModePageShow s).1.oled =
      if s.oled.pageSelect.select then (screen s.oled).pop.setSelect false else screen s.oled := by
  unfold selectModePageShow
  split <;> rfl

/-- The test page takes the press. -/
theorem screen_testPageShow (s : Firmware) :
    screen (testPageShow s).1.oled =
      if s.oled.pageSelect.select then (screen s.oled).setSelect false else screen s.oled := by
  unfold testPageShow
  split
  · simp only [Cmd.andThen_apply]
    repeat' split
    all_goals rfl
  · rfl

/-- Running a page does to the screen what `program` does. -/
theorem screen_pageProgram (page : U8) (s : Firmware) :
    screen (pageProgram page s).1.oled = (screen s.oled).program page := by
  obtain ⟨c, hc, heq⟩ := pageProgram_eq page
  rw [heq]
  show screen (c s).1.oled = (screen s.oled).program page
  cases hc with
  | home | setting | learnMode => exact screen_menuPage _ s
  | selectMode => exact screen_selectModePageShow s
  | test => exact screen_testPageShow s
  | onekeyMatch | learnOn | learnOff => exact (ite_self _).symm
  | other hhome hsetting hmode hlearn htest =>
    rw [Screen.program, if_neg hhome, if_neg hsetting, if_neg hmode, if_neg hlearn, if_neg htest]
    exact (ite_self _).symm

/-- What follows the page in an iteration of the display does not change the screen. -/
theorem screen_afterShow (page : U8) :
    Cmd.Keeps (fun s : Firmware => screen s.oled) (Cmd.andThen oledCtrl (oled1s page)) := by
  refine Cmd.Keeps.andThen (fun s => ?_) (fun s => ?_)
  · unfold oledCtrl
    split <;> rfl
  · unfold oled1s monitorBackLight
    repeat' split
    all_goals simp only [Cmd.andThen_apply]
    all_goals split <;> rfl

/-- An iteration of the display does to the screen what `shown` does. -/
theorem screen_oledIteration (s : Firmware) :
    screen (oledIteration s).1.oled =
      (screen s.oled).shown s.moduleInfo.select s.oled.reflashFlag := by
  rw [oledIteration, Cmd.andThen_apply, Cmd.andThen_apply]
  dsimp only
  rw [show ∀ t, screen (Cmd.andThen oledCtrl (oled1s t.oled.page) (oledShow t.oled.page t).1).1.oled =
    screen (oledShow t.oled.page t).1.oled from fun t => screen_afterShow _ _]
  have hscreen : ∀ t : Firmware, screen (oledShow t.oled.page t).1.oled =
      (screen t.oled).shown t.moduleInfo.select t.oled.reflashFlag := by
    intro t
    unfold oledShow Screen.shown
    by_cases hnew : t.oled.nowPagePre ≠ t.oled.page
    · rw [if_pos hnew, if_pos (show (screen t.oled).nowPagePre ≠ (screen t.oled).page from hnew)]
      simp only [Cmd.andThen_apply]
      have hprogram := screen_pageProgram t.oled.page (pageSetting t.oled.page t).1
      rw [screen_pageSetting] at hprogram
      exact congrArg (fun x : Screen => { x with nowPagePre := t.oled.page }) hprogram
    rw [if_neg hnew, if_neg (show ¬ (screen t.oled).nowPagePre ≠ (screen t.oled).page from hnew)]
    split
    · exact screen_pageProgram t.oled.page t
    · rfl
  exact hscreen _

/-- **What each step does to the screen.** -/
theorem screen_step (i : MenuInput) (s : Firmware) :
    screen (menu i s).1.oled = (screen s.oled).step s.moduleInfo.select s.oled.reflashFlag i := by
  cases i with
  | pageReturn => rfl
  | elsewhere t => rfl
  | peer p =>
    cases p with
    | uart1Burst bytes =>
      simp only [menu, peerStep, Cmd.modify_apply, uart1Input]
      repeat' split
      all_goals rfl
    | uart2Burst bytes =>
      simp only [menu, peerStep, Cmd.modify_apply, uart2Input]
      split <;> rfl
    | enterBtn type =>
      cases type with
      | longPress => exact congrArg screen (oled_longPress s)
      | _ => rfl
    | upBtn type =>
      cases type with
      | shortPress => rfl
      | _ => rfl
    | dowmBtn type =>
      cases type with
      | shortPress =>
        have hmax : ((screen s.oled).pageSelect.cusorMax > 0) = (s.oled.pageSelect.cusorMax > 0) := rfl
        simp only [menu, peerStep, dowmBtnCallBack, if_true, Screen.step, Cmd.andThen_apply,
          wakeUpOledBackLight, onOled, Cmd.modify_apply, Cmd.emit_apply, hmax]
        by_cases hrange : s.oled.pageSelect.cusorMax > 0
        · rw [if_pos hrange, if_pos hrange]
          rfl
        · rw [if_neg hrange, if_neg hrange]
          rfl
      | _ => rfl
    | oledIteration => exact screen_oledIteration s

/-! ## The invariant of the menu -/

/-- The stack is the path to a page, the cursor is within its bounds, and the bounds are those of the
setting menu as long as it is the page shown last. -/
structure Placed (x : Screen) : Prop where
  path : ∃ page : Page, x.pageInfor = encode page.path
  low : x.pageSelect.cusorHome ≤ x.pageSelect.cusor
  high : x.pageSelect.cusor ≤ x.pageSelect.cusorMax
  setting : x.nowPagePre = settingPage →
    x.pageSelect.cusorHome = 1 ∧ x.pageSelect.cusorMax = 4

/-- The page on top of a path. -/
theorem encode_top (page : Page) : (encode page.path).setWidth 8 = page.code := by
  cases page <;> decide

/-- A pop goes to the parent. -/
theorem encode_pop (page : Page) : encode page.path >>> 8 = encode page.parent.path := by
  cases page <;> decide

/-- A path has three bytes at most, so the next shift loses none of it. -/
theorem encode_lt (page : Page) : (encode page.path).toNat * 2 ^ 8 < 2 ^ 32 := by
  cases page <;> decide

/-- A page number on top that is not one of a leaf tells the page. -/
theorem encode_push {parent page : Page} (h : page ≠ .home) (hparent : page.parent = parent) :
    (encode parent.path <<< 8) ||| page.code.setWidth 32 = encode page.path := by
  rw [Page.path_eq h, encode_concat, hparent]

namespace Placed

variable {x : Screen}

/-- Going back keeps the menu in place. -/
theorem pop (h : Placed x) : Placed x.pop := by
  obtain ⟨page, hpage⟩ := h.path
  refine ⟨⟨page.parent, ?_⟩, h.low, h.high, h.setting⟩
  rw [← encode_pop, ← hpage]
  rfl

/-- A press of Enter keeps the menu in place. -/
theorem setSelect (h : Placed x) (select : Bool) : Placed (x.setSelect select) :=
  ⟨h.path, h.low, h.high, h.setting⟩

/-- A cursor within its bounds keeps the menu in place. -/
theorem setCusor (h : Placed x) {cusor : U8} (hlow : x.pageSelect.cusorHome ≤ cusor)
    (hhigh : cusor ≤ x.pageSelect.cusorMax) : Placed (x.setCusor cusor) :=
  ⟨h.path, hlow, hhigh, h.setting⟩

/-- The rows of a menu open children of its page. -/
def Opens (parent : Page) (rows : U8 → Option U8) : Prop :=
  ∀ cusor code, rows cusor = some code →
    ∃ page : Page, page ≠ .home ∧ page.parent = parent ∧ page.code = code

/-- The row of the home page opens a child of it. -/
theorem opens_home : Opens .home homeRows := by
  intro cusor code h
  unfold homeRows at h
  split at h
  · exact ⟨.setting, by decide, rfl, Option.some.inj h⟩
  · cases h

/-- The rows of the setting menu open children of it. -/
theorem opens_setting : Opens .setting settingRows := by
  intro cusor code h
  unfold settingRows at h
  repeat' split at h
  · exact ⟨.selectMode, by decide, rfl, Option.some.inj h⟩
  · exact ⟨.onekeyMatch, by decide, rfl, Option.some.inj h⟩
  · exact ⟨.learnMode, by decide, rfl, Option.some.inj h⟩
  · exact ⟨.test, by decide, rfl, Option.some.inj h⟩
  · cases h

/-- The rows of the learn menu open children of it. -/
theorem opens_learn : Opens .learnMode learnRows := by
  intro cusor code h
  unfold learnRows at h
  repeat' split at h
  · exact ⟨.learnOn, by decide, rfl, Option.some.inj h⟩
  · exact ⟨.learnOff, by decide, rfl, Option.some.inj h⟩
  · cases h

/-- Opening a child of the page on top keeps the menu in place. -/
theorem enter (h : Placed x) {parent : Page} (hparent : x.pageInfor = encode parent.path)
    {rows : U8 → Option U8} (hrows : Opens parent rows) : Placed (x.enter rows) := by
  unfold Screen.enter
  cases hrow : rows x.pageSelect.cusor with
  | none => exact h.setSelect false
  | some code =>
    obtain ⟨page, hhome, hchild, rfl⟩ := hrows _ _ hrow
    have hpush : (x.push page.code).pageInfor = encode page.path := by
      rw [← encode_push hhome hchild, ← hparent]
      rfl
    have hplaced : Placed (x.push page.code) := ⟨⟨page, hpush⟩, h.low, h.high, h.setting⟩
    exact hplaced.setSelect false

/-- Showing the page on top: a menu opens one of its rows, the mode page goes back. -/
theorem program (h : Placed x) : Placed (x.program x.page) := by
  obtain ⟨page, hpath⟩ := h.path
  have htop : x.page = page.code := by rw [Screen.page, hpath, encode_top]
  rw [htop, Screen.program]
  split
  case isFalse => exact h
  cases page with
  | home => exact h.enter hpath opens_home
  | setting => exact h.enter hpath opens_setting
  | selectMode => exact h.pop.setSelect false
  | learnMode => exact h.enter hpath opens_learn
  | test => exact h.setSelect false
  | onekeyMatch => exact h
  | learnOn => exact h
  | learnOff => exact h

end Placed

/-- Showing a page does not look at the page shown last. -/
theorem Screen.program_shownLast (x : Screen) (page last : U8) :
    { x.program page with nowPagePre := last } =
      ({ x with nowPagePre := last } : Screen).program page := by
  have henter : ∀ rows, { x.enter rows with nowPagePre := last } =
      ({ x with nowPagePre := last } : Screen).enter rows := by
    intro rows
    unfold Screen.enter
    dsimp only
    cases rows x.pageSelect.cusor with
    | some page => rfl
    | none => rfl
  unfold Screen.program
  dsimp only
  repeat' split
  · exact henter _
  · exact henter _
  · rfl
  · exact henter _
  · rfl
  · rfl
  · rfl

/-- The settings of a page leave the stack. -/
theorem Screen.set_pageInfor (x : Screen) (mode page : U8) :
    (x.set mode page).pageInfor = x.pageInfor := by
  unfold Screen.set
  repeat' split
  all_goals rfl

/-- The settings of a new page put the cursor within its bounds; they are those of the setting menu
when that is the page. -/
theorem Screen.set_bounds {x : Screen} (hlow : x.pageSelect.cusorHome ≤ x.pageSelect.cusor)
    (hhigh : x.pageSelect.cusor ≤ x.pageSelect.cusorMax) (mode page : U8) :
    ((x.set mode page).pageSelect.cusorHome ≤ (x.set mode page).pageSelect.cusor ∧
        (x.set mode page).pageSelect.cusor ≤ (x.set mode page).pageSelect.cusorMax) ∧
      (page = settingPage → (x.set mode page).pageSelect.cusorHome = 1 ∧
        (x.set mode page).pageSelect.cusorMax = 4) := by
  have hrange : ∀ home max : U8, home ≤ max →
      (x.setRange home max).pageSelect.cusorHome ≤ (x.setRange home max).pageSelect.cusor ∧
        (x.setRange home max).pageSelect.cusor ≤ (x.setRange home max).pageSelect.cusorMax :=
    fun home _ h => ⟨BitVec.le_refl home, h⟩
  unfold Screen.set
  split
  · rename_i hpage
    exact ⟨hrange 1 1 (by decide), fun h => absurd (hpage.symm.trans h) (by decide)⟩
  split
  · exact ⟨hrange 1 4 (by decide), fun _ => ⟨rfl, rfl⟩⟩
  rename_i hsetting
  split
  · exact ⟨hrange 1 2 (by decide), fun h => absurd h hsetting⟩
  split
  · have hmode : (1 : U8) ≤ (if mode = selectMatch then 1 else 2) ∧
        (if mode = selectMatch then 1 else 2) ≤ (2 : U8) := by
      split <;> decide
    exact ⟨hmode, fun h => absurd h hsetting⟩
  split
  · exact ⟨hrange 1 2 (by decide), fun h => absurd h hsetting⟩
  · exact ⟨⟨hlow, hhigh⟩, fun h => absurd h hsetting⟩

namespace Placed

variable {x : Screen}

/-- The settings of a new page keep the stack and the bounds. -/
theorem set (h : Placed x) (mode : U8) :
    Placed { x.set mode x.page with nowPagePre := x.page } := by
  obtain ⟨⟨hlow, hhigh⟩, hsetting⟩ := Screen.set_bounds h.low h.high mode x.page
  obtain ⟨page, hpage⟩ := h.path
  exact ⟨⟨page, (x.set_pageInfor _ _).trans hpage⟩, hlow, hhigh, hsetting⟩

/-- An iteration of the display keeps the menu in place. -/
theorem shown (h : Placed x) (mode : U8) (reflash : Bool) : Placed (x.shown mode reflash) := by
  unfold Screen.shown
  split
  · have htop : ({ x.set mode x.page with nowPagePre := x.page } : Screen).page = x.page :=
      congrArg (fun pageInfor : U32 => pageInfor.setWidth 8)
        (x.set_pageInfor mode x.page)
    have hnew := (h.set mode).program
    rw [htop] at hnew
    rw [Screen.program_shownLast]
    exact hnew
  split
  · exact h.program
  · exact h

end Placed

/-- The cursor keys wrap around within the bounds. -/
theorem cusorUp_within {home cusor max : U8} (hlow : home ≤ cusor) (hhigh : cusor ≤ max) :
    home ≤ (if cusor > home then cusor - 1 else max) ∧
      (if cusor > home then cusor - 1 else max) ≤ max := by
  split <;> constructor <;> bv_omega

/-- The cursor going down stays within its bounds. -/
theorem cusorDown_within {home cusor max : U8} (hlow : home ≤ cusor) (hhigh : cusor ≤ max) :
    home ≤ (if cusor < max then cusor + 1 else home) ∧
      (if cusor < max then cusor + 1 else home) ≤ max := by
  split <;> constructor <;> bv_omega

/-- Every step keeps the menu in place. -/
theorem Placed.step {x : Screen} (h : Placed x) (mode : U8) (reflash : Bool) (i : MenuInput) :
    Placed (x.step mode reflash i) := by
  cases i with
  | pageReturn => exact h.pop
  | elsewhere t => exact h
  | peer p =>
    cases p with
    | uart1Burst bytes => exact h
    | uart2Burst bytes => exact h
    | enterBtn type =>
      cases type with
      | nullPress => exact h
      | shortPress => exact h.setSelect true
      | longPress => exact h.pop
    | upBtn type =>
      cases type with
      | nullPress => exact h
      | longPress => exact h
      | shortPress =>
        obtain ⟨hlow, hhigh⟩ := cusorUp_within h.low h.high
        exact h.setCusor hlow hhigh
    | dowmBtn type =>
      cases type with
      | nullPress => exact h
      | longPress => exact h
      | shortPress =>
        simp only [Screen.step]
        split
        · obtain ⟨hlow, hhigh⟩ := cusorDown_within h.low h.high
          exact h.setCusor hlow hhigh
        · exact h
    | oledIteration => exact h.shown mode reflash

/-- After power-on the menu is in place. -/
theorem placed_boot (flash : FlashPage) (beyond : Vector U8 10) :
    Placed (screen (boot flash beyond).oled) := by
  have hscreen : screen (boot flash beyond).oled = ⟨0, ⟨0, 0, 0, false⟩, 0xFF⟩ := rfl
  rw [hscreen]
  exact ⟨⟨.home, by decide⟩, BitVec.le_refl _, BitVec.le_refl _, fun h => absurd h (by decide)⟩

/-- Whatever happens in whatever order, the screen stays placed. -/
theorem placed_run (flash : FlashPage) (beyond : Vector U8 10) (inputs : List MenuInput) :
    Placed (screen (run menu (boot flash beyond) inputs).oled) := by
  refine run_invariant (fun _ (s : Firmware) => Placed (screen s.oled)) (fun _ _ _ => True)
    (placed_boot flash beyond) (fun before i h _ => ?_) fun _ _ _ _ => trivial
  rw [screen_step]
  exact h.step _ _ i

/-! ## What the setting menu shows -/

/-- The timer at the head of an iteration of the display. -/
def displayTimer : FwCmd := onOled fun o => { o with timer1s := timerTask o.timer1s 20 }

/-- The state in which an iteration of the display runs the program of the page on top, if it does:
after the settings of a new page, or at once when a refresh is due. -/
def atProgram (s : Firmware) : Option Firmware :=
  if s.oled.nowPagePre ≠ s.oled.page then some (pageSetting s.oled.page s).1
  else if s.oled.reflashFlag then some s
  else none

/-- An iteration of the display in its parts. -/
theorem oledIteration_eq (s : Firmware) :
    oledIteration s = Cmd.andThen displayTimer (fun t => Cmd.andThen (oledShow t.oled.page)
      (Cmd.andThen oledCtrl (oled1s t.oled.page)) t) s := rfl

/-- The program runs there and nowhere else. -/
theorem oledShow_atProgram (s : Firmware) :
    (∀ t, atProgram s = some t → ∃ last, oledShow s.oled.page s =
      Cmd.andThen (pageProgram s.oled.page) (onOled last) t) ∧
    (atProgram s = none → oledShow s.oled.page s = (s, [])) := by
  have hsilent : ∀ page, (pageSetting page s).2 = [] := by
    intro page
    unfold pageSetting
    repeat' split
    all_goals rfl
  unfold atProgram oledShow
  by_cases hnew : s.oled.nowPagePre ≠ s.oled.page
  · rw [if_pos hnew, if_pos hnew]
    refine ⟨fun t ht => ⟨fun o => { o with nowPagePre := s.oled.page }, ?_⟩, fun h => by cases h⟩
    rw [← Option.some.inj ht, Cmd.andThen_apply, hsilent]
    rfl
  rw [if_neg hnew, if_neg hnew]
  split
  · refine ⟨fun t ht => ⟨fun o => o, ?_⟩, fun h => by cases h⟩
    rw [← Option.some.inj ht]
    exact Prod.ext rfl (List.append_nil _).symm
  · exact ⟨fun t ht => absurd ht (by simp), fun _ => rfl⟩

/-- What the setting menu draws in a state, against the page an Enter press pushes there: every row is
one of the four, and just one is selected, the one with the title of that page. -/
def ShowsEntered (s : Firmware) : Prop :=
  (∀ row ∈ settingPageShow s.oled.pageSelect, 0 ≤ row.1 ∧ row.1 ≤ 3) ∧
    ∃ (row : ℕ) (target : Page),
      (settingPageShow s.oled.pageSelect).filter (·.2 = 0) = [((row : Int), 0)] ∧
      settingShow[row]? = target.title ∧
      (pageProgram settingPage (enterBtnCallBack .shortPress s).1).1.oled.pageInfor =
        (s.oled.pageInfor <<< 8) ||| target.code.setWidth 32

/-- It is enough to see what is drawn and which page the row of the cursor opens. -/
theorem showsEntered_of_draw {s : Firmware} (rows : List (Int × U8)) (row : ℕ) (target : Page)
    (hdraw : settingPageShow s.oled.pageSelect = rows) (hrows : ∀ row ∈ rows, 0 ≤ row.1 ∧ row.1 ≤ 3)
    (hselected : rows.filter (·.2 = 0) = [((row : Int), 0)])
    (htitle : settingShow[row]? = target.title)
    (hopens : settingRows s.oled.pageSelect.cusor = some target.code) : ShowsEntered s := by
  refine ⟨hdraw ▸ hrows, row, target, hdraw ▸ hselected, htitle, ?_⟩
  have hprogram := screen_pageProgram settingPage (enterBtnCallBack .shortPress s).1
  have hpressed : (screen (enterBtnCallBack .shortPress s).1.oled).program settingPage =
      ((screen s.oled).setSelect true).enter settingRows := rfl
  have hcusor : settingRows ((screen s.oled).setSelect true).pageSelect.cusor = some target.code :=
    hopens
  rw [hpressed, Screen.enter, hcusor] at hprogram
  exact congrArg Screen.pageInfor hprogram

/-- With the cursor on one of the four rows the setting menu shows the page that Enter opens. -/
theorem showsEntered_of_range {s : Firmware} (hlow : 1 ≤ s.oled.pageSelect.cusor)
    (hhigh : s.oled.pageSelect.cusor ≤ 4) : ShowsEntered s := by
  have hcases : s.oled.pageSelect.cusor = 1 ∨ s.oled.pageSelect.cusor = 2 ∨
      s.oled.pageSelect.cusor = 3 ∨ s.oled.pageSelect.cusor = 4 := by bv_omega
  have hdraw : ∀ cusor, s.oled.pageSelect.cusor = cusor →
      settingPageShow s.oled.pageSelect = settingPageShow ⟨0, 0, cusor, false⟩ := by
    rintro cusor rfl
    rfl
  rcases hcases with h | h | h | h
  · exact showsEntered_of_draw [(0, 0), (1, 1), (2, 1)] 0 .selectMode (hdraw _ h) (by decide) rfl rfl
      (by rw [h]; rfl)
  · exact showsEntered_of_draw [(0, 1), (1, 0), (2, 1)] 1 .onekeyMatch (hdraw _ h) (by decide) rfl rfl
      (by rw [h]; rfl)
  · exact showsEntered_of_draw [(0, 1), (1, 1), (2, 0)] 2 .learnMode (hdraw _ h) (by decide) rfl rfl
      (by rw [h]; rfl)
  · exact showsEntered_of_draw [(1, 1), (2, 1), (3, 0)] 3 .test (hdraw _ h) (by decide) rfl rfl
      (by rw [h]; rfl)

/-- When the program of the setting menu runs, the bounds are its own. -/
theorem Placed.atProgram {s t : Firmware} (h : Placed (screen s.oled))
    (ht : atProgram s = some t) (hpage : s.oled.page = settingPage) :
    t.oled.pageSelect.cusorHome = 1 ∧ t.oled.pageSelect.cusorMax = 4 ∧ ShowsEntered t := by
  have hbounds : (t.oled.pageSelect.cusorHome ≤ t.oled.pageSelect.cusor ∧
      t.oled.pageSelect.cusor ≤ t.oled.pageSelect.cusorMax) ∧
      t.oled.pageSelect.cusorHome = 1 ∧ t.oled.pageSelect.cusorMax = 4 := by
    unfold InfraredModule.Analysis.atProgram at ht
    split at ht
    · have hscreen := screen_pageSetting s.oled.page s
      rw [Option.some.inj ht] at hscreen
      obtain ⟨hrange, hsetting⟩ :=
        Screen.set_bounds h.low h.high s.moduleInfo.select s.oled.page
      rw [← hscreen] at hrange hsetting
      exact ⟨hrange, hsetting hpage⟩
    · rename_i hshown
      split at ht
      · rw [← Option.some.inj ht]
        have hpre : (screen s.oled).nowPagePre = settingPage := (not_not.mp hshown).trans hpage
        exact ⟨⟨h.low, h.high⟩, h.setting hpre⟩
      · cases ht
  obtain ⟨⟨hlow, hhigh⟩, hhome, hmax⟩ := hbounds
  rw [hhome] at hlow
  rw [hmax] at hhigh
  exact ⟨hhome, hmax, showsEntered_of_range hlow hhigh⟩

/-- **The menu stack and the cursor.** After any sequence of serial bursts, button callbacks, display
iterations, calls of `pageReturn` and changes to the rest of the memory: the stack is a path from the
root of the menu tree and has room for another page, the cursor is within its bounds, and whenever the
next display iteration runs the setting menu its bounds are 1 and 4, it draws rows of its table, and
the one row it selects is the page that an Enter press pushes.
SOURCE: Oled1309.c:128-358, OledPage.c:97-143, 315-318 -/
theorem menu_invariant (flash : FlashPage) (beyond : Vector U8 10) (inputs : List MenuInput) :
    let s := run menu (boot flash beyond) inputs
    (∃ page : Page, s.oled.pageInfor = encode page.path) ∧
      s.oled.pageInfor.toNat * 2 ^ 8 < 2 ^ 32 ∧
      (s.oled.pageSelect.cusorHome ≤ s.oled.pageSelect.cusor ∧
        s.oled.pageSelect.cusor ≤ s.oled.pageSelect.cusorMax) ∧
      ∀ t, atProgram (displayTimer s).1 = some t → s.oled.page = settingPage →
        t.oled.pageSelect.cusorHome = 1 ∧ t.oled.pageSelect.cusorMax = 4 ∧ ShowsEntered t := by
  intro s
  have hplaced : Placed (screen s.oled) := placed_run flash beyond inputs
  obtain ⟨page, hpath⟩ := hplaced.path
  refine ⟨⟨page, hpath⟩, ?_, ⟨hplaced.low, hplaced.high⟩, fun t ht hpage => ?_⟩
  · rw [show s.oled.pageInfor = encode page.path from hpath]
    exact encode_lt page
  · exact Placed.atProgram (s := (displayTimer s).1) hplaced ht hpage

/-! ## The serial task as a part of the menu system -/

/-- The input pin leaves the display alone. -/
theorem oled_checkIo (pin : U8) : Cmd.Keeps Firmware.oled (checkIo pin) :=
  keeps_checkIo (fun _ _ _ _ => rfl) (fun _ _ => rfl) pin

/-- Every action of the serial task leaves the display's memory alone or is a call of
`pageReturn`. -/
theorem all_oled (id : U32) (pin : U8) (heap : Heap) :
    (uartIteration id pin heap).All fun c => Cmd.Keeps Firmware.oled c ∨ c = pageReturn := by
  have hapart : ∀ {c : FwCmd}, Cmd.Keeps apart c → Cmd.Keeps Firmware.oled c ∨ c = pageReturn :=
    fun h => .inl (keeps_oled h)
  have hsend : sendEvent.All fun c => Cmd.Keeps Firmware.oled c ∨ c = pageReturn :=
    all_sendActions (fun _ => .inl fun _ => rfl) (hapart apart_onTest) (hapart apart_offTest)
      (.inl fun _ => rfl) (.inl fun _ => rfl)
  have htick : (tick1s id).All fun c => Cmd.Keeps Firmware.oled c ∨ c = pageReturn :=
    ⟨⟨.inl fun _ => rfl, ⟨⟨.inl fun _ => rfl, hsend⟩, trivial⟩, hapart apart_lights,
      hapart (apart_startRegister id), hapart apart_monitorConnect, hapart apart_sendThreeTimes, trivial⟩,
      trivial⟩
  have hreplies : uart2Replies.All fun c => Cmd.Keeps Firmware.oled c ∨ c = pageReturn :=
    all_replyActions (.inl fun _ => rfl) (.inl fun _ => rfl) (fun _ => .inl fun _ => rfl)
      (.inl fun _ => rfl) (.inr rfl) (fun _ _ => .inl fun _ => rfl) (.inl fun _ => rfl)
  exact ⟨.inl fun _ => rfl, .inl (oled_checkIo pin), hapart (apart_pollUart1 id heap), hreplies,
    hapart apart_saveFlash, hapart apart_tick100ms, htick, hapart apart_tick5s,
    hapart (apart_tick10s id), trivial⟩

/-- **The threads refine the menu system.** Whatever the serial task and the other threads do in
whatever order, the menu system can do: its invariants are theirs. -/
theorem menu_of_threads (chip : Chip) (flash : FlashPage) (beyond : Vector U8 10)
    (inputs : List ThreadInput) :
    ∃ steps, (run (threads chip) ⟨boot flash beyond, .skip⟩ inputs).fw =
      run menu (boot flash beyond) steps := by
  suffices h : (∃ steps, (run (threads chip) ⟨boot flash beyond, .skip⟩ inputs).fw =
      run menu (boot flash beyond) steps) ∧ (run (threads chip) ⟨boot flash beyond, .skip⟩ inputs).rest.All
        fun c => Cmd.Keeps Firmware.oled c ∨ c = pageReturn from h.1
  refine run_invariant (fun _ (t : Threads) => (∃ steps, t.fw = run menu (boot flash beyond) steps) ∧
    t.rest.All fun c => Cmd.Keeps Firmware.oled c ∨ c = pageReturn) (fun _ _ _ => True)
    ?_ ?_ fun _ _ _ _ => trivial
  · exact ⟨⟨[], rfl⟩, trivial⟩
  rintro before i ⟨⟨steps, hsteps⟩, hrest⟩ -
  generalize run (threads chip) ⟨boot flash beyond, .skip⟩ before = t at hsteps hrest ⊢
  have hmenu : ∀ j u, (menu j t.fw).1 = u → ∃ steps, u = run menu (boot flash beyond) steps := by
    rintro j u rfl
    exact ⟨steps ++ [j], by rw [run_append, ← hsteps]; rfl⟩
  cases i with
  | peer p => exact ⟨hmenu (.peer p) _ rfl, hrest⟩
  | start pin heap =>
    rcases threads_start chip pin heap t with ⟨-, hstart⟩ | hstart
    · rw [hstart]
      exact ⟨⟨steps, hsteps⟩, all_oled _ pin heap⟩
    · rw [hstart]
      exact ⟨⟨steps, hsteps⟩, hrest⟩
  | action =>
    obtain ⟨hstep, hnext⟩ := hrest.next t.fw
    refine ⟨?_, hnext⟩
    show ∃ steps, (t.rest.next t.fw).1.1 = _
    rcases hstep with hskip | ⟨c, hkeep | rfl, hrun⟩
    · rw [hskip]
      exact ⟨steps, hsteps⟩
    · rw [hrun]
      refine hmenu (.elsewhere (c t.fw).1) _ ?_
      show { (c t.fw).1 with oled := t.fw.oled } = (c t.fw).1
      rw [← hkeep t.fw]
    · rw [hrun]
      exact hmenu .pageReturn _ rfl

/-! ## Which page takes an Enter press -/

/-- A short press of Enter. -/
def press : MenuInput := .peer (.enterBtn .shortPress)

/-- The last press of a history was made while `page` was on the display. -/
def PressedOn (s₀ : Firmware) (before : List MenuInput) (page : U8) : Prop :=
  ∃ pre post, before = pre ++ press :: post ∧ press ∉ post ∧
    (run menu s₀ pre).oled.nowPagePre = page

/-- An iteration of the display opens or leaves a page, selects a mode or posts a test. -/
def Acts (s : Firmware) : Prop :=
  (oledIteration s).1.oled.pageInfor ≠ s.oled.pageInfor ∨
    (oledIteration s).1.moduleInfo.select ≠ s.moduleInfo.select ∨
    ∃ e, IsTest e.event ∧ .setEvent e ∈ (oledIteration s).2

/-- A new page finds no press pending, and a page acts only on a press that was made on it. -/
def TakesOwn (s₀ : Firmware) (before : List MenuInput) (s : Firmware) (i : MenuInput) : Prop :=
  i = .peer .oledIteration →
    (s.oled.nowPagePre ≠ s.oled.page → s.oled.pageSelect.select = false) ∧
      (Acts s → PressedOn s₀ before s.oled.page)

/-- Enter is pressed on a page that is on the display and on top, and a page is left with no press
pending; the home page cannot be left. -/
def InPlace (s : Firmware) : MenuInput → Prop
  | .peer (.enterBtn .shortPress) => s.oled.nowPagePre = s.oled.page
  | .peer (.enterBtn .longPress) | .pageReturn =>
    s.oled.pageSelect.select = false ∨ s.oled.page = homePage
  | _ => True

instance (s : Firmware) : (i : MenuInput) → Decidable (InPlace s i)
  | .peer (.enterBtn .shortPress) => inferInstanceAs (Decidable (_ = _))
  | .peer (.enterBtn .longPress) | .pageReturn => inferInstanceAs (Decidable (_ ∨ _))
  | .peer (.enterBtn .nullPress) | .peer (.uart1Burst _) | .peer (.uart2Burst _)
  | .peer (.upBtn _) | .peer (.dowmBtn _) | .peer .oledIteration | .elsewhere _ =>
    inferInstanceAs (Decidable True)

/-- The page of the last press stays the same over a step that is no press. -/
theorem PressedOn.concat {s₀ : Firmware} {before : List MenuInput} {page : U8}
    (h : PressedOn s₀ before page) {i : MenuInput} (hi : i ≠ press) :
    PressedOn s₀ (before ++ [i]) page := by
  obtain ⟨pre, post, rfl, hlast, hpage⟩ := h
  refine ⟨pre, post ++ [i], by rw [List.append_assoc, List.cons_append], fun hmem => ?_, hpage⟩
  rcases List.mem_append.mp hmem with hpost | hnow
  · exact hlast hpost
  · exact hi (List.mem_singleton.mp hnow).symm

namespace Screen

variable {x : Screen}

/-- Without a press a page does nothing to the screen. -/
theorem program_of_not_select (h : x.pageSelect.select = false) (page : U8) : x.program page = x := by
  rw [program, h, if_neg Bool.false_ne_true]

/-- A page takes the press or leaves the screen as it is. -/
theorem program_of_select {page : U8} (h : (x.program page).pageSelect.select = true) :
    x.program page = x := by
  unfold program at h ⊢
  split at h
  case isFalse hselect => rw [if_neg hselect]
  case isTrue hselect =>
    rw [if_pos hselect]
    repeat' split at h
    · cases h
    · cases h
    · cases h
    · cases h
    · cases h
    · rename_i hhome hsetting hmode hlearn htest
      rw [if_neg hhome, if_neg hsetting, if_neg hmode, if_neg hlearn, if_neg htest]

/-- The settings of a page leave a press as it is. -/
theorem set_select (x : Screen) (mode page : U8) :
    (x.set mode page).pageSelect.select = x.pageSelect.select := by
  unfold set
  repeat' split
  all_goals rfl

/-- Without a press an iteration of the display keeps the stack. -/
theorem shown_of_not_select (h : x.pageSelect.select = false) (mode : U8) (reflash : Bool) :
    (x.shown mode reflash).pageInfor = x.pageInfor ∧
      (x.shown mode reflash).pageSelect.select = false := by
  have hset : (x.set mode x.page).pageSelect.select = false := (x.set_select _ _).trans h
  unfold shown
  split
  · rw [program_of_not_select hset]
    exact ⟨x.set_pageInfor _ _, hset⟩
  split
  · rw [program_of_not_select h]
    exact ⟨rfl, h⟩
  · exact ⟨rfl, h⟩

/-- A press that was made on the page on top is taken by it, or nothing changes. -/
theorem shown_of_select (hpage : x.nowPagePre = x.page) {mode : U8} {reflash : Bool}
    (h : (x.shown mode reflash).pageSelect.select = true) : x.shown mode reflash = x := by
  unfold shown at h ⊢
  rw [if_neg (not_not.mpr hpage)] at h ⊢
  split at h
  · rename_i hdue
    rw [if_pos hdue, program_of_select h]
  · rename_i hdue
    rw [if_neg hdue]

end Screen

/-- A home page on top is the whole stack. -/
theorem Placed.pop_home {x : Screen} (h : Placed x) (hpage : x.page = homePage) : x.pop = x := by
  obtain ⟨page, hpath⟩ := h.path
  have htop : page.code = homePage := by rw [← hpage, Screen.page, hpath, encode_top]
  have hhome : page = .home := by
    cases page with
    | home => rfl
    | _ => exact absurd htop (by decide)
  have hzero : x.pageInfor >>> 8 = x.pageInfor := by
    rw [hpath, hhome]
    decide
  rw [Screen.pop, hzero]

/-- In place, a press that is pending after a step other than a press was pending before it, on the
same page. -/
theorem Screen.step_select {s : Firmware} {i : MenuInput} (hplaced : Placed (screen s.oled))
    (hown : s.oled.pageSelect.select = true → s.oled.nowPagePre = s.oled.page) (hi : i ≠ press)
    (hstep : InPlace s i) {mode : U8} {reflash : Bool}
    (hselect : ((screen s.oled).step mode reflash i).pageSelect.select = true) :
    s.oled.pageSelect.select = true ∧
      ((screen s.oled).step mode reflash i).page = (screen s.oled).page ∧
      ((screen s.oled).step mode reflash i).nowPagePre = (screen s.oled).nowPagePre := by
  -- a page is left without a press, or it is the home page, which stays on top
  have hleave : s.oled.pageSelect.select = false ∨ s.oled.page = homePage →
      (screen s.oled).pop.pageSelect.select = true → s.oled.pageSelect.select = true ∧
        (screen s.oled).pop.page = (screen s.oled).page ∧
        (screen s.oled).pop.nowPagePre = (screen s.oled).nowPagePre := by
    intro hcase hpending
    have hhome : s.oled.page = homePage := hcase.resolve_left fun hno =>
      Bool.false_ne_true (hno.symm.trans hpending)
    rw [hplaced.pop_home hhome]
    exact ⟨hpending, rfl, rfl⟩
  cases i with
  | pageReturn => exact hleave hstep hselect
  | elsewhere t => exact ⟨hselect, rfl, rfl⟩
  | peer p =>
    cases p with
    | uart1Burst bytes => exact ⟨hselect, rfl, rfl⟩
    | uart2Burst bytes => exact ⟨hselect, rfl, rfl⟩
    | enterBtn type =>
      cases type with
      | nullPress => exact ⟨hselect, rfl, rfl⟩
      | shortPress => exact absurd rfl hi
      | longPress => exact hleave hstep hselect
    | upBtn type =>
      cases type with
      | nullPress => exact ⟨hselect, rfl, rfl⟩
      | shortPress => exact ⟨hselect, rfl, rfl⟩
      | longPress => exact ⟨hselect, rfl, rfl⟩
    | dowmBtn type =>
      cases type with
      | nullPress => exact ⟨hselect, rfl, rfl⟩
      | longPress => exact ⟨hselect, rfl, rfl⟩
      | shortPress =>
        simp only [Screen.step] at hselect ⊢
        split at hselect
        · rename_i hmax
          rw [if_pos hmax]
          exact ⟨hselect, rfl, rfl⟩
        · rename_i hmax
          rw [if_neg hmax]
          exact ⟨hselect, rfl, rfl⟩
    | oledIteration =>
      cases hpending : s.oled.pageSelect.select with
      | false =>
        have hnone := ((screen s.oled).shown_of_not_select hpending mode reflash).2
        exact absurd (hnone.symm.trans hselect) Bool.false_ne_true
      | true =>
        -- a press still pending has not been taken, so the page is the same
        have hsame := Screen.shown_of_select (x := screen s.oled) (hown hpending) hselect
        simp only [Screen.step, hsame]
        exact ⟨trivial, trivial, trivial⟩

/-- A press is pending only on the page on the display, where the last one was made. -/
structure Pressed (s₀ : Firmware) (before : List MenuInput) (s : Firmware) : Prop where
  placed : Placed (screen s.oled)
  pending : s.oled.pageSelect.select = true →
    s.oled.nowPagePre = s.oled.page ∧ PressedOn s₀ before s.oled.page

/-- A step in place keeps the press with its page. -/
theorem Pressed.step {s₀ s : Firmware} {before : List MenuInput} (h : Pressed s₀ before s)
    (hs : s = run menu s₀ before) {i : MenuInput} (hstep : InPlace s i) :
    Pressed s₀ (before ++ [i]) (menu i s).1 := by
  have hscreen := screen_step i s
  refine ⟨hscreen ▸ h.placed.step _ _ i, fun hselect => ?_⟩
  by_cases hi : i = press
  · subst hi
    have hpage : s.oled.nowPagePre = s.oled.page := hstep
    exact ⟨hpage, before, [], rfl, List.not_mem_nil, by rw [← hs]; exact hpage⟩
  · obtain ⟨hbefore, hpage, hpre⟩ := Screen.step_select h.placed (fun hb => (h.pending hb).1) hi hstep
      (show ((screen s.oled).step s.moduleInfo.select s.oled.reflashFlag i).pageSelect.select = true by
        rw [← hscreen]; exact hselect)
    rw [← hscreen] at hpage hpre
    obtain ⟨hown, hpressed⟩ := h.pending hbefore
    have hpage' : (menu i s).1.oled.page = s.oled.page := hpage
    have hpre' : (menu i s).1.oled.nowPagePre = s.oled.nowPagePre := hpre
    rw [hpage', hpre']
    exact ⟨hown, hpressed.concat hi⟩

/-- Without a press the program of a page selects no mode and posts no test. -/
theorem pageProgram_of_not_select {s : Firmware} (h : s.oled.pageSelect.select = false) (page : U8) :
    (pageProgram page s).1.moduleInfo = s.moduleInfo ∧
      ∀ e, .setEvent e ∈ (pageProgram page s).2 → ¬ IsTest e.event := by
  have hmenu : ∀ rows, menuPage rows s = (s, []) := fun rows => by
    rw [menuPage, h, if_neg Bool.false_ne_true]
  have hmode : selectModePageShow s = (s, []) := by
    rw [selectModePageShow, h, if_neg Bool.false_ne_true]
  have htest : testPageShow s = (s, []) := by
    rw [testPageShow, h, if_neg Bool.false_ne_true]
  have hsilent : ∀ e, Obs.setEvent e ∈ [] → ¬ IsTest e.event := fun e he => absurd he List.not_mem_nil
  have hpost : ∀ posted : InfraredEvent, ¬ IsTest posted.event →
      ∀ e, .setEvent e ∈ (setinfraredEvent posted s).2 → ¬ IsTest e.event := by
    intro posted hposted e he
    cases List.mem_singleton.mp he
    exact hposted
  obtain ⟨c, hc, heq⟩ := pageProgram_eq page
  suffices hprogram : (c s).1.moduleInfo = s.moduleInfo ∧
      ∀ e, .setEvent e ∈ (c s).2 → ¬ IsTest e.event by
    rw [heq]
    exact ⟨hprogram.1, fun e he =>
      hprogram.2 e ((List.mem_append.mp he).resolve_right List.not_mem_nil)⟩
  cases hc with
  | home | setting | learnMode =>
    rw [hmenu]
    exact ⟨rfl, hsilent⟩
  | onekeyMatch | learnOn | learnOff => exact ⟨rfl, hpost _ (by simp [IsTest])⟩
  | selectMode =>
    rw [hmode]
    exact ⟨rfl, hsilent⟩
  | test =>
    rw [htest]
    exact ⟨rfl, hsilent⟩
  | other => exact ⟨rfl, hsilent⟩

/-- The settings of a page change neither the press nor the mode. -/
theorem atProgram_fields {s t : Firmware} (h : atProgram s = some t) :
    t.oled.pageSelect.select = s.oled.pageSelect.select ∧ t.moduleInfo.select = s.moduleInfo.select := by
  unfold atProgram at h
  split at h
  · have hscreen := screen_pageSetting s.oled.page s
    rw [Option.some.inj h] at hscreen
    have hvital := (incidental_pageSetting s.oled.page).keeps s
    rw [Option.some.inj h] at hvital
    exact ⟨(congrArg (fun x : Screen => x.pageSelect.select) hscreen).trans (Screen.set_select _ _ _),
      congrArg Vital.select hvital⟩
  · split at h
    · cases h
      exact ⟨rfl, rfl⟩
    · cases h

/-- An iteration of the display acts only on a press. -/
theorem Acts.select {s : Firmware} (h : Acts s) : s.oled.pageSelect.select = true := by
  by_contra hno
  have hselect : s.oled.pageSelect.select = false := Bool.not_eq_true _ ▸ hno
  set t := (displayTimer s).1
  have hshow : (oledShow t.oled.page t).1.moduleInfo.select = s.moduleInfo.select ∧
      ∀ e, .setEvent e ∈ (oledShow t.oled.page t).2 → ¬ IsTest e.event := by
    obtain ⟨hruns, hrests⟩ := oledShow_atProgram t
    cases hat : atProgram t with
    | none =>
      rw [hrests hat]
      exact ⟨rfl, fun e he => absurd he List.not_mem_nil⟩
    | some u =>
      obtain ⟨last, heq⟩ := hruns u hat
      obtain ⟨hpress, hmode⟩ := atProgram_fields hat
      obtain ⟨hinfo, htests⟩ := pageProgram_of_not_select (hpress.trans hselect) t.oled.page
      rw [heq, Cmd.andThen_apply]
      exact ⟨(congrArg ModuleInfo.select hinfo).trans hmode,
        fun e he => htests e ((List.mem_append.mp he).resolve_right List.not_mem_nil)⟩
  have hafter := incidental_oledCtrl.andThen (incidental_oled1s t.oled.page)
  rcases h with hpage | hmode | ⟨e, htest, he⟩
  · refine hpage ?_
    have hscreen := congrArg Screen.pageInfor (screen_oledIteration s)
    exact hscreen.trans (Screen.shown_of_not_select (x := screen s.oled) hselect _ _).1
  · refine hmode ?_
    rw [oledIteration_eq]
    exact (congrArg Vital.select (hafter.keeps _)).trans hshow.1
  · rw [oledIteration_eq] at he
    rcases List.mem_append.mp he with hno | he
    · cases hno
    rcases List.mem_append.mp he with hshown | hlater
    · exact hshow.2 e hshown htest
    · exact hafter.emits _ _ hlater

/-- **An Enter press is taken by the page it was made on.** In every run in which Enter is pressed on
the page that is displayed, and no page is left while a press is pending, a new page finds no press,
and a page opens another, selects a mode or posts a test only for a press made on it.
SOURCE: Oled1309.c:86-126, 185-295, 311-335, OledPage.c:153-252 -/
theorem enter_consumed (flash : FlashPage) (beyond : Vector U8 10) (inputs : List MenuInput)
    (h : Along menu (boot flash beyond) inputs fun _ => InPlace) :
    Along menu (boot flash beyond) inputs (TakesOwn (boot flash beyond)) := by
  refine along_of_invariant (Pressed (boot flash beyond)) (fun _ => InPlace) _ ?_
    (fun before i hpressed hstep => hpressed.step rfl hstep) ?_ h
  · exact ⟨placed_boot flash beyond, fun hselect => absurd hselect Bool.false_ne_true⟩
  rintro before i hpressed - rfl
  refine ⟨fun hnew => ?_, fun hacts => (hpressed.pending hacts.select).2⟩
  by_contra hselect
  exact hnew (hpressed.pending (Bool.not_eq_false _ ▸ hselect)).1

/-- From power-on through the setting menu to an Enter press on its second row. -/
def toMatchPage : List MenuInput :=
  [.peer .oledIteration, press, .peer .oledIteration, .peer .oledIteration,
    .peer (.dowmBtn .shortPress), press]

/-- The match page is opened for a press made on the setting menu. -/
theorem enter_consumed_setting :
    PressedOn (boot (Vector.replicate 12 0xFF) (Vector.replicate 10 0)) toMatchPage settingPage := by
  have hpage : (run menu (boot (Vector.replicate 12 0xFF) (Vector.replicate 10 0))
      toMatchPage).oled.page = settingPage := by decide +kernel
  have hrun := enter_consumed (Vector.replicate 12 0xFF) (Vector.replicate 10 0)
    (toMatchPage ++ [.peer .oledIteration]) (by decide +kernel)
  have hpressed := ((along_concat.mp hrun).2 rfl).2 (.inl (by decide +kernel))
  rw [hpage] at hpressed
  exact hpressed

/-- Enter is pressed on the match page, which leaves the press pending; after a long press the setting
menu finds it there and opens the mode page. -/
theorem stale_enter_taken :
    let s₀ := boot (Vector.replicate 12 0xFF) (Vector.replicate 10 0)
    let before := toMatchPage ++ [.peer .oledIteration, .peer .oledIteration, press,
      .peer .oledIteration, .peer (.enterBtn .longPress)]
    let s := run menu s₀ before
    s.oled.page = settingPage ∧ s.oled.nowPagePre = onekeyMatchPage ∧
      (menu (.peer .oledIteration) s).1.oled.page = selectModePage ∧
      ¬ Along menu s₀ (before ++ [.peer .oledIteration]) (TakesOwn s₀) := by
  intro s₀ before s
  have hnew : s.oled.nowPagePre ≠ s.oled.page := by decide +kernel
  have hpending : s.oled.pageSelect.select = true := by decide +kernel
  refine ⟨by decide +kernel, by decide +kernel, by decide +kernel, fun halong => ?_⟩
  have htakes : TakesOwn s₀ before s (.peer .oledIteration) := (along_concat.mp halong).2
  rw [(htakes rfl).1 hnew] at hpending
  exact Bool.false_ne_true hpending

end InfraredModule.Analysis
