import InfraredModule.Analysis.Effects

/-!
# What each step leaves alone

`vital` collects the memory the results about whole runs are about: the two message slots, the
fields of `module_info` that are saved or checked, the flash page, and the two copies of the
infrared event. Most of the code never touches it. Such a command is `Incidental`: it keeps
`vital`, and the observations it makes are not the calls those results count. `peer_cases` says
what the other threads can do to it; `all_uart2Replies` and `all_afterSave` reduce a property of
the serial task's statements to the incidental commands and the few others.
-/

set_option autoImplicit false

namespace InfraredModule.Analysis

open InfraredModule.Foundation InfraredModule.Model

/-- The memory that results about runs look at. `cell` is the shared event, `copy` the local copy
of it in the serial task, `tick` the one-second flag. -/
structure Vital where
  uart1Msg : RxMsg
  uart2Msg : RxMsg
  crc : U16
  addr : U8
  type : U8
  brandCode : U16
  select : U8
  modulePre : ModuleInfo
  flash : FlashPage
  tick : Bool
  copy : InfraredEvent
  cell : InfraredEvent

/-- The fields of the state that the frames of the two ports and the flash depend on. -/
def vital (s : Firmware) : Vital where
  uart1Msg := s.uart1Msg
  uart2Msg := s.uart2Msg
  crc := s.moduleInfo.crc
  addr := s.moduleInfo.addr
  type := s.moduleInfo.type
  brandCode := s.moduleInfo.brandCode
  select := s.moduleInfo.select
  modulePre := s.task.modulePre
  flash := s.flash
  tick := s.task.timer1s.touch
  copy := s.task.infraredEvent
  cell := s.infraredEvent

/-- The observations that are not the dispatch of a frame, of an event or of a callback, nor a
store into the shared event. -/
def Plain : Obs → Prop
  | .registration _ _ | .analyze _ _ | .setEvent _ | .dispatch _ | .callBack _ _ _ => False
  | _ => True

/-- A command that touches nothing vital and makes plain observations only. -/
def Incidental (c : FwCmd) : Prop := ∀ s, vital (c s).1 = vital s ∧ ∀ o ∈ (c s).2, Plain o

namespace Incidental

variable {c d : FwCmd}

/-- Incidental code leaves the vital fields alone. -/
theorem keeps (hc : Incidental c) : Cmd.Keeps vital c := fun s => (hc s).1

/-- Incidental code does nothing but plain things. -/
theorem emits (hc : Incidental c) : Cmd.Emits Plain c := fun s => (hc s).2

/-- Incidental code, from its two effects. -/
theorem of_effects (hkeeps : Cmd.Keeps vital c) (hemits : Cmd.Emits Plain c) : Incidental c :=
  fun s => ⟨hkeeps s, hemits s⟩

/-- Incidental code in sequence. -/
theorem andThen (hc : Incidental c) (hd : Incidental d) : Incidental (Cmd.andThen c d) :=
  fun s => ⟨hc.keeps.andThen hd.keeps s, hc.emits.andThen hd.emits s⟩

/-- An assignment outside the vital fields is incidental. -/
theorem modify {f : Firmware → Firmware} (h : ∀ s, vital (f s) = vital s) :
    Incidental (Cmd.modify f) :=
  fun s => ⟨h s, fun _ ho => absurd ho List.not_mem_nil⟩

/-- An observation that is plain is incidental. -/
theorem emit {f : Firmware → List Obs} (h : ∀ s, ∀ o ∈ f s, Plain o) : Incidental (Cmd.emit f) :=
  fun s => ⟨rfl, h s⟩

/-- Doing nothing is incidental. -/
theorem skip : Incidental Cmd.skip := modify fun _ => rfl

end Incidental

/-! ## Commands of the serial task -/

/-- The return from a page is incidental. -/
theorem incidental_pageReturn : Incidental pageReturn := fun _ => ⟨rfl, emits_singleton trivial⟩

/-- The check of the input pin is incidental. -/
theorem incidental_checkIo (state : U8) : Incidental (checkIo state) :=
  .of_effects (keeps_checkIo (fun _ _ _ _ => rfl) (fun _ _ => rfl) state)
    (kinds_checkIo (fun _ => trivial) state)

/-- The copy of a reply is incidental. -/
theorem incidental_copyReply : Incidental copyReply := .modify fun _ => rfl

/-- The 100 ms branch is incidental. -/
theorem incidental_tick100ms : Incidental tick100ms :=
  .of_effects (keeps_tick100ms fun _ _ _ _ => rfl) (kinds_tick100ms fun _ _ => trivial)

/-- The on test is incidental. -/
theorem incidental_onTest : Incidental onTest :=
  .of_effects (keeps_onTest fun _ _ _ _ => rfl) (kinds_onTest fun _ => trivial)

/-- The off test is incidental. -/
theorem incidental_offTest : Incidental offTest :=
  .of_effects (keeps_offTest fun _ _ _ _ => rfl) (kinds_offTest fun _ => trivial)

/-- The lamps are incidental. -/
theorem incidental_lights : Incidental lights :=
  .of_effects (keeps_lights fun _ _ => rfl) (kinds_lights fun _ _ => trivial)

/-- The start of a registration is incidental. -/
theorem incidental_startRegister (id : U32) : Incidental (startRegister id) :=
  .of_effects (keeps_startRegister (fun _ _ => rfl) id)
    (kinds_startRegister (fun _ _ => trivial) (fun _ => trivial) id)

/-- The watch on the connection is incidental. -/
theorem incidental_monitorConnect : Incidental monitorConnect :=
  .of_effects (keeps_monitorConnect fun _ _ _ => rfl) kinds_monitorConnect

/-- The threefold send is incidental. -/
theorem incidental_sendThreeTimes : Incidental sendThreeTimes :=
  .of_effects (keeps_sendThreeTimes (fun _ _ _ _ => rfl) fun _ _ _ => rfl)
    (kinds_sendThreeTimes (fun _ => trivial) trivial)

/-- The 5 s branch is incidental. -/
theorem incidental_tick5s : Incidental tick5s :=
  .of_effects (keeps_tick5s fun _ _ => rfl) kinds_tick5s

/-- The 10 s branch is incidental. -/
theorem incidental_tick10s (id : U32) : Incidental (tick10s id) :=
  .of_effects (keeps_tick10s id) (kinds_tick10s (fun _ _ => trivial) (fun _ => trivial) id)

/-- This iteration has the one-second tick. -/
def ticks (s : Firmware) : Bool := (timerTask s.task.timer1s 20).touch

/-- The timers set the tick. -/
theorem vital_timers (s : Firmware) :
    vital (timers s).1 = { vital s with tick := (timerTask s.task.timer1s 20).touch } := rfl

/-! ## The other threads -/

/-- A burst from the hub changes the hub's slot and no other vital field. -/
theorem vital_uart1Burst (bytes : List U8) (s : Firmware) :
    vital (peerStep (.uart1Burst bytes) s).1 =
      { vital s with uart1Msg := (uart1Input bytes s).2.uart1Msg } := by
  simp only [peerStep, Cmd.modify_apply, uart1Input]
  repeat' split
  all_goals rfl

/-- A burst from the code-library chip changes its slot and no other vital field. -/
theorem vital_uart2Burst (bytes : List U8) (s : Firmware) :
    vital (peerStep (.uart2Burst bytes) s).1 =
      { vital s with uart2Msg := (uart2Input bytes s).uart2Msg } := by
  simp only [peerStep, Cmd.modify_apply, uart2Input]
  split
  all_goals rfl

/-- A command on the display's memory is incidental. -/
theorem incidental_onOled (f : Oled → Oled) : Incidental (onOled f) := .modify fun _ => rfl

/-- Waking the back light is incidental. -/
theorem incidental_wakeUpOledBackLight : Incidental wakeUpOledBackLight :=
  .andThen (incidental_onOled _) (.emit fun _ => emits_singleton trivial)

/-- The up button is incidental. -/
theorem incidental_upBtn (type : PressType) : Incidental (peerStep (.upBtn type)) := by
  rw [peerStep, upBtnCallBack]
  split
  · exact .andThen incidental_wakeUpOledBackLight (incidental_onOled _)
  · exact .skip

/-- The down button is incidental. -/
theorem incidental_dowmBtn (type : PressType) : Incidental (peerStep (.dowmBtn type)) := by
  rw [peerStep, dowmBtnCallBack]
  split
  · exact .andThen incidental_wakeUpOledBackLight (incidental_onOled _)
  · exact .skip

/-- The program of each page; any other page number runs nothing. -/
inductive PageCmd : U8 → FwCmd → Prop
  | home : PageCmd homePage (menuPage homeRows)
  | setting : PageCmd settingPage (menuPage settingRows)
  | onekeyMatch : PageCmd onekeyMatchPage oneKeyMatchPage
  | selectMode : PageCmd selectModePage selectModePageShow
  | learnMode : PageCmd learnModePage (menuPage learnRows)
  | learnOn : PageCmd learnOnPage learnOnPageShow
  | learnOff : PageCmd learnOffPage learnOffPageShow
  | test : PageCmd testPage testPageShow
  | other {page : U8} (home : page ≠ homePage) (setting : page ≠ settingPage)
      (selectMode : page ≠ selectModePage) (learnMode : page ≠ learnModePage)
      (test : page ≠ testPage) : PageCmd page Cmd.skip

/-- `pageProgram` runs the program of its page and takes the refresh flag. -/
theorem pageProgram_eq (page : U8) : ∃ c, PageCmd page c ∧
    pageProgram page = Cmd.andThen c (onOled fun o => { o with reflashFlag := false }) := by
  refine ⟨_, ?_, rfl⟩
  by_cases hhome : page = homePage
  · rw [if_pos hhome, hhome]
    exact .home
  rw [if_neg hhome]
  by_cases hsetting : page = settingPage
  · rw [if_pos hsetting, hsetting]
    exact .setting
  rw [if_neg hsetting]
  by_cases hmatch : page = onekeyMatchPage
  · rw [if_pos hmatch, hmatch]
    exact .onekeyMatch
  rw [if_neg hmatch]
  by_cases hmode : page = selectModePage
  · rw [if_pos hmode, hmode]
    exact .selectMode
  rw [if_neg hmode]
  by_cases hlearn : page = learnModePage
  · rw [if_pos hlearn, hlearn]
    exact .learnMode
  rw [if_neg hlearn]
  by_cases hon : page = learnOnPage
  · rw [if_pos hon, hon]
    exact .learnOn
  rw [if_neg hon]
  by_cases hoff : page = learnOffPage
  · rw [if_pos hoff, hoff]
    exact .learnOff
  rw [if_neg hoff]
  by_cases htest : page = testPage
  · rw [if_pos htest, htest]
    exact .test
  rw [if_neg htest]
  exact .other hhome hsetting hmode hlearn htest

/-- The events the pages store. -/
inductive Shown : InfraredEvent → Prop
  | oneKeyMatch : Shown ⟨.sendMatch, .matchCallBack⟩
  | learnOn : Shown ⟨.sendLearnModeOn, .learnCallBack⟩
  | learnOff : Shown ⟨.sendLearnModeOff, .learnCallBack⟩
  | onTest : Shown ⟨.sendOnTest, .uninitialised⟩
  | offTest : Shown ⟨.sendOffTest, .uninitialised⟩

/-- The events the button and display threads store. -/
inductive Posted : InfraredEvent → Prop
  | page {e : InfraredEvent} (h : Shown e) : Posted e
  | longPress {info : U8} {code : EventCode} (h : overEvent info = some code) :
      Posted ⟨code, .uninitialised⟩

/-- What `selectModePage` does to the mode. -/
def setMode : FwCmd := Cmd.modify fun s =>
  { s with moduleInfo := { s.moduleInfo with
      select := if s.oled.pageSelect.cusor = 1 then selectMatch
        else if s.oled.pageSelect.cusor = 2 then selectLearn
        else s.moduleInfo.select } }

/-- A property of commands that the button and display threads have if these parts of them have
it. -/
structure Threaded (P : FwCmd → Prop) : Prop where
  andThen {c d : FwCmd} : P c → P d → P (Cmd.andThen c d)
  choose {c : FwCmd} : (∀ s, ∃ d, c s = d s ∧ P d) → P c
  onOled (f : Oled → Oled) : P (onOled f)
  light (level : U8) : P (Cmd.emit fun _ => [.pin .oledBackLight level])
  post {e : InfraredEvent} : Shown e → P (setinfraredEvent e)
  mode : P setMode
  pop : P pageReturn

namespace Threaded

variable {P : FwCmd → Prop} (h : Threaded P)
include h

/-- A threaded property holds of doing nothing. -/
theorem skip : P Cmd.skip := h.onOled fun o => o

/-- A threaded property holds of waking the back light. -/
theorem wakeUpOledBackLight : P wakeUpOledBackLight := h.andThen (h.onOled _) (h.light _)

/-- A threaded property holds of the up button. -/
theorem upBtn (type : PressType) : P (upBtnCallBack type) := by
  unfold upBtnCallBack
  split
  · exact h.andThen h.wakeUpOledBackLight (h.onOled _)
  · exact h.skip

/-- A threaded property holds of the down button. -/
theorem dowmBtn (type : PressType) : P (dowmBtnCallBack type) := by
  unfold dowmBtnCallBack
  split
  · exact h.andThen h.wakeUpOledBackLight (h.onOled _)
  · exact h.skip

/-- A threaded property holds of the enter button, when it holds of the over event a long press posts. -/
theorem enterBtn (longPress : ∀ {info code}, overEvent info = some code →
    P (setinfraredEvent ⟨code, .uninitialised⟩)) (type : PressType) : P (enterBtnCallBack type) := by
  cases type with
  | nullPress => exact h.skip
  | shortPress => exact h.andThen h.wakeUpOledBackLight (h.onOled _)
  | longPress =>
    refine h.choose fun s => ?_
    cases hpage : overEvent s.oled.page with
    | some code =>
      refine ⟨Cmd.andThen (setinfraredEvent ⟨code, .uninitialised⟩) (Model.onOled Oled.pop), ?_,
        h.andThen (longPress hpage) (h.onOled _)⟩
      simp only [enterBtnCallBack, hpage]
    | none =>
      refine ⟨Cmd.andThen Cmd.skip (Model.onOled Oled.pop), ?_, h.andThen h.skip (h.onOled _)⟩
      simp only [enterBtnCallBack, hpage]

/-- A threaded property holds of the settings of a page. -/
theorem pageSetting (page : U8) : P (pageSetting page) := by
  unfold Model.pageSetting
  repeat' split
  · exact h.onOled _
  · exact h.onOled _
  · exact h.onOled _
  · exact h.andThen (h.onOled _) (h.choose fun s => ⟨_, rfl, h.onOled _⟩)
  · exact h.onOled _
  · exact h.skip

/-- A threaded property holds of a page with rows. -/
theorem menuPage (rows : U8 → Option U8) : P (menuPage rows) := by
  refine h.choose fun s => ?_
  unfold Model.menuPage
  split
  · exact ⟨_, rfl, h.onOled _⟩
  · exact ⟨_, rfl, h.skip⟩

/-- A threaded property holds of the selection page. -/
theorem selectModePageShow : P selectModePageShow := by
  refine h.choose fun s => ?_
  unfold Model.selectModePageShow
  split
  · exact ⟨_, rfl, h.andThen h.mode (h.andThen h.pop (h.onOled _))⟩
  · exact ⟨_, rfl, h.skip⟩

/-- A threaded property holds of the test page. -/
theorem testPageShow : P testPageShow := by
  refine h.choose fun s => ?_
  unfold Model.testPageShow
  split
  · refine ⟨_, rfl, h.andThen ?_ (h.onOled _)⟩
    repeat' split
    · exact h.post .onTest
    · exact h.post .offTest
    · exact h.skip
  · exact ⟨_, rfl, h.skip⟩

/-- A threaded property holds of the page that is run. -/
theorem pageProgram (page : U8) : P (pageProgram page) := by
  obtain ⟨c, hc, heq⟩ := pageProgram_eq page
  rw [heq]
  refine h.andThen ?_ (h.onOled _)
  cases hc with
  | home | setting | learnMode => exact h.menuPage _
  | onekeyMatch => exact h.post .oneKeyMatch
  | selectMode => exact h.selectModePageShow
  | learnOn => exact h.post .learnOn
  | learnOff => exact h.post .learnOff
  | test => exact h.testPageShow
  | other => exact h.skip

/-- A threaded property holds of showing a page. -/
theorem oledShow (nowPage : U8) : P (oledShow nowPage) := by
  refine h.choose fun s => ?_
  unfold Model.oledShow
  repeat' split
  · exact ⟨_, rfl, h.andThen (h.pageSetting _) (h.andThen (h.pageProgram _) (h.onOled _))⟩
  · exact ⟨_, rfl, h.pageProgram _⟩
  · exact ⟨_, rfl, h.skip⟩

/-- A threaded property holds of the look at the control word. -/
theorem oledCtrl : P oledCtrl := by
  refine h.choose fun s => ?_
  unfold Model.oledCtrl
  split
  · exact ⟨Model.onOled fun o => { o with ctrl := s.moduleInfo.ctrl, reflashFlag := true }, rfl,
      h.onOled _⟩
  · exact ⟨_, rfl, h.skip⟩

/-- A threaded property holds of the back light's watch. -/
theorem monitorBackLight : P monitorBackLight := by
  refine h.choose fun s => ?_
  unfold Model.monitorBackLight
  split
  · exact ⟨Model.onOled fun o => { o with backlightTime := o.backlightTime + 1 }, rfl, h.onOled _⟩
  · exact ⟨_, rfl, h.light _⟩

/-- A threaded property holds of the display's one-second branch. -/
theorem oled1s (nowPage : U8) : P (oled1s nowPage) := by
  refine h.choose fun s => ?_
  unfold Model.oled1s
  split
  · refine ⟨_, rfl, h.andThen h.monitorBackLight ?_⟩
    split
    · exact h.onOled _
    · exact h.skip
  · exact ⟨_, rfl, h.skip⟩

/-- A threaded property holds of an iteration of the display thread. -/
theorem oledIteration : P oledIteration :=
  h.andThen (h.onOled _) (h.choose fun s => ⟨_, rfl, h.andThen (h.oledShow s.oled.page)
    (h.andThen h.oledCtrl (h.oled1s s.oled.page))⟩)

end Threaded

/-- What a command of the button or display thread may do at a state: select one of the two modes,
and store an event of the kind `E` that is then observed. -/
def PostsAt (E : InfraredEvent → Prop) (c : FwCmd) (s : Firmware) : Prop :=
  ∃ cell select, vital (c s).1 = { vital s with cell := cell, select := select } ∧
    (select = s.moduleInfo.select ∨ select = selectMatch ∨ select = selectLearn) ∧
    (∀ o ∈ (c s).2, Plain o ∨ ∃ e, o = .setEvent e) ∧
    ((cell = s.infraredEvent ∧ ∀ e, .setEvent e ∉ (c s).2) ∨
      (E cell ∧ .setEvent cell ∈ (c s).2))

/-- From every state the code posts only events of the kind. -/
def Posts (E : InfraredEvent → Prop) (c : FwCmd) : Prop := ∀ s, PostsAt E c s

namespace Posts

variable {E F : InfraredEvent → Prop} {c d : FwCmd}

/-- Incidental code posts nothing. -/
theorem of_incidental (h : Incidental c) : Posts E c := by
  intro s
  refine ⟨s.infraredEvent, s.moduleInfo.select, (h s).1, .inl rfl, fun o ho => .inl ((h s).2 o ho),
    .inl ⟨rfl, fun e he => ?_⟩⟩
  exact (h s).2 _ he

/-- Posting an event of the kind. -/
theorem setinfraredEvent {e : InfraredEvent} (h : E e) : Posts E (setinfraredEvent e) := by
  intro s
  refine ⟨e, s.moduleInfo.select, rfl, .inl rfl, fun o ho => .inr ⟨e, ?_⟩,
    .inr ⟨h, List.mem_singleton_self _⟩⟩
  exact List.mem_singleton.mp ho

/-- Code in sequence posts what its parts post. -/
theorem andThen (hc : Posts E c) (hd : Posts E d) : Posts E (Cmd.andThen c d) := by
  intro s
  obtain ⟨cell₁, select₁, hv₁, hs₁, ho₁, hcell₁⟩ := hc s
  obtain ⟨cell₂, select₂, hv₂, hs₂, ho₂, hcell₂⟩ := hd (c s).1
  have hmid : (c s).1.infraredEvent = cell₁ := congrArg Vital.cell hv₁
  have hsel : (c s).1.moduleInfo.select = select₁ := congrArg Vital.select hv₁
  refine ⟨cell₂, select₂, ?_, ?_, ?_, ?_⟩
  · show vital (d (c s).1).1 = _
    rw [hv₂, hv₁]
  · rw [hsel] at hs₂
    rcases hs₂ with rfl | h
    · exact hs₁
    · exact .inr h
  · intro o ho
    exact (List.mem_append.mp ho).elim (ho₁ o) (ho₂ o)
  · rw [hmid] at hcell₂
    rcases hcell₂ with ⟨rfl, hquiet⟩ | ⟨hposted, hmem⟩
    · rcases hcell₁ with ⟨rfl, hquiet₁⟩ | ⟨hposted, hmem⟩
      · exact .inl ⟨rfl, fun e he => (List.mem_append.mp he).elim (hquiet₁ e) (hquiet e)⟩
      · exact .inr ⟨hposted, List.mem_append_left _ hmem⟩
    · exact .inr ⟨hposted, List.mem_append_right _ hmem⟩

/-- A command on the display's memory posts nothing. -/
theorem onOled (f : Oled → Oled) : Posts E (onOled f) := of_incidental (incidental_onOled f)

/-- Doing nothing posts nothing. -/
theorem skip : Posts E Cmd.skip := of_incidental .skip

/-- A command that looks at the state to choose what to do. -/
theorem choose (h : ∀ s, ∃ d, c s = d s ∧ Posts E d) : Posts E c := by
  intro s
  obtain ⟨d, hd, hposts⟩ := h s
  have hat := hposts s
  rw [PostsAt, ← hd] at hat
  exact hat

/-- What posts events of a kind posts events of a wider one. -/
theorem mono (h : Posts E c) (hE : ∀ e, E e → F e) : Posts F c := by
  intro s
  obtain ⟨cell, select, hvital, hmode, hobs, hstore⟩ := h s
  exact ⟨cell, select, hvital, hmode, hobs, hstore.imp_right fun ⟨he, hmem⟩ => ⟨hE _ he, hmem⟩⟩

end Posts

/-- The only page that changes the mode sets it to one of the two. -/
theorem posts_setMode : Posts Shown setMode := by
  intro s
  refine ⟨s.infraredEvent, if s.oled.pageSelect.cusor = 1 then selectMatch
    else if s.oled.pageSelect.cusor = 2 then selectLearn else s.moduleInfo.select, rfl, ?_,
    fun o ho => absurd ho List.not_mem_nil, .inl ⟨rfl, fun _ => List.not_mem_nil⟩⟩
  repeat' split
  · exact .inr (.inl rfl)
  · exact .inr (.inr rfl)
  · exact .inl rfl

/-- Posting what the pages post is a threaded property. -/
theorem threaded_posts : Threaded (Posts Shown) where
  andThen := .andThen
  choose := .choose
  onOled := .onOled
  light _ := .of_incidental (.emit fun _ => emits_singleton trivial)
  post := .setinfraredEvent
  mode := posts_setMode
  pop := .of_incidental incidental_pageReturn

/-- An iteration of the display thread posts what its pages post. -/
theorem posts_oledIteration : Posts Shown (peerStep .oledIteration) := threaded_posts.oledIteration

/-- The enter button posts an over event or nothing. -/
theorem posts_enterBtn (type : PressType) : Posts Posted (peerStep (.enterBtn type)) := by
  have hthreaded : Threaded (Posts Posted) :=
    { andThen := .andThen, choose := .choose, onOled := .onOled,
      light := fun _ => (threaded_posts.light _).mono fun _ => .page,
      post := fun he => .setinfraredEvent (.page he),
      mode := posts_setMode.mono fun _ => .page,
      pop := threaded_posts.pop.mono fun _ => .page }
  exact hthreaded.enterBtn (fun hover => .setinfraredEvent (.longPress hover)) type

/-- The settings of a page are incidental. -/
theorem incidental_pageSetting (page : U8) : Incidental (pageSetting page) := by
  have hset : ∀ home max, Incidental (pageSelectSet home max) := fun _ _ => incidental_onOled _
  unfold pageSetting
  repeat' split
  · exact hset _ _
  · exact hset _ _
  · exact hset _ _
  · exact .andThen (hset _ _) fun s => incidental_onOled _ s
  · exact hset _ _
  · exact .skip

/-- A page with rows is incidental. -/
theorem incidental_menuPage (rows : U8 → Option U8) : Incidental (menuPage rows) := by
  intro s
  unfold menuPage
  split
  · exact incidental_onOled _ s
  · exact ⟨rfl, emits_nil⟩

/-- The look at the control word is incidental. -/
theorem incidental_oledCtrl : Incidental oledCtrl := by
  intro s
  unfold oledCtrl
  split
  · exact ⟨rfl, emits_nil⟩
  · exact ⟨rfl, emits_nil⟩

/-- The back light's watch is incidental. -/
theorem incidental_monitorBackLight : Incidental monitorBackLight := by
  intro s
  unfold monitorBackLight
  split
  · exact ⟨rfl, emits_nil⟩
  · exact ⟨rfl, emits_singleton trivial⟩

/-- The display's one-second branch is incidental. -/
theorem incidental_oled1s (nowPage : U8) : Incidental (oled1s nowPage) := by
  intro s
  unfold oled1s
  split
  · refine incidental_monitorBackLight.andThen ?_ s
    split
    · exact incidental_onOled _
    · exact .skip
  · exact ⟨rfl, emits_nil⟩

/-- A step of a peer: a burst into one of the slots, or a step of the button or display thread. -/
theorem peer_cases (p : Peer) :
    (∃ bytes, p = .uart1Burst bytes) ∨ (∃ bytes, p = .uart2Burst bytes) ∨
      Posts Posted (peerStep p) := by
  cases p with
  | uart1Burst bytes => exact .inl ⟨bytes, rfl⟩
  | uart2Burst bytes => exact .inr (.inl ⟨bytes, rfl⟩)
  | enterBtn type => exact .inr (.inr (posts_enterBtn type))
  | upBtn type => exact .inr (.inr (.of_incidental (incidental_upBtn type)))
  | dowmBtn type => exact .inr (.inr (.of_incidental (incidental_dowmBtn type)))
  | oledIteration => exact .inr (.inr (posts_oledIteration.mono fun _ => .page))

/-- A peer stores events, and is not observed to do anything else that counts. -/
theorem emits_peer {good : Obs → Prop} (plain : ∀ o, Plain o → good o)
    (setEvent : ∀ e, good (.setEvent e)) (p : Peer) : Cmd.Emits good (peerStep p) := by
  intro s o ho
  rcases peer_cases p with ⟨bytes, rfl⟩ | ⟨bytes, rfl⟩ | hposts
  · cases ho
  · cases ho
  · obtain ⟨-, -, -, -, hobs, -⟩ := hposts s
    rcases hobs o ho with hplain | ⟨e, rfl⟩
    · exact plain o hplain
    · exact setEvent e

/-- No peer touches the task's copy of the event; one that changes the shared event is observed to
store it. -/
theorem event_peer (p : Peer) (s : Firmware) :
    (peerStep p s).1.task.infraredEvent = s.task.infraredEvent ∧
      (((peerStep p s).1.infraredEvent = s.infraredEvent ∧ ∀ e, .setEvent e ∉ (peerStep p s).2) ∨
        Posted (peerStep p s).1.infraredEvent ∧
          .setEvent (peerStep p s).1.infraredEvent ∈ (peerStep p s).2) := by
  rcases peer_cases p with ⟨bytes, rfl⟩ | ⟨bytes, rfl⟩ | hposts
  · have hvital := vital_uart1Burst bytes s
    exact ⟨congrArg Vital.copy hvital,
      .inl ⟨congrArg Vital.cell hvital, fun _ => List.not_mem_nil⟩⟩
  · have hvital := vital_uart2Burst bytes s
    exact ⟨congrArg Vital.copy hvital,
      .inl ⟨congrArg Vital.cell hvital, fun _ => List.not_mem_nil⟩⟩
  · obtain ⟨cell, select, hvital, -, -, hstore⟩ := hposts s
    have hcell : (peerStep p s).1.infraredEvent = cell := congrArg Vital.cell hvital
    refine ⟨congrArg Vital.copy hvital, ?_⟩
    rw [hcell]
    exact hstore

/-! ## The memory out of reach of the other threads -/

/-- The memory with what the other threads can reach blanked out: the two slots, the shared event,
the display's own memory and the mode. -/
def core (s : Firmware) : Firmware :=
  { s with
    uart1Msg := RxMsg.zero
    uart2Msg := RxMsg.zero
    infraredEvent := InfraredEvent.zero
    moduleInfo := { s.moduleInfo with select := selectMatch }
    oled := ⟨0, ⟨0, 0, 0, false⟩, false, 0, 0, 0, Timer.zero⟩ }

/-- Keeping `core` is a threaded property. -/
theorem threaded_core : Threaded (Cmd.Keeps core) where
  andThen := .andThen
  choose := .choose
  onOled _ _ := rfl
  light _ _ := rfl
  post _ _ := rfl
  mode _ := rfl
  pop _ := rfl

/-- No interrupt handler, button callback or iteration of the display reaches the rest of the
memory. -/
theorem core_peerStep (p : Peer) : Cmd.Keeps core (peerStep p) := by
  cases p with
  | uart1Burst bytes =>
    intro s
    simp only [peerStep, Cmd.modify_apply, uart1Input]
    repeat' split
    all_goals rfl
  | uart2Burst bytes =>
    intro s
    simp only [peerStep, Cmd.modify_apply, uart2Input]
    split <;> rfl
  | enterBtn type => exact threaded_core.enterBtn (fun _ _ => rfl) type
  | upBtn type => exact threaded_core.upBtn type
  | dowmBtn type => exact threaded_core.dowmBtn type
  | oledIteration => exact threaded_core.oledIteration

/-! ## The parts of an iteration -/

/-- What an iteration does before it compares `module_info` with its copy. -/
def beforeSave (id : U32) (pin : U8) (heap : Heap) : FwCmd :=
  Cmd.andThen timers (Cmd.andThen (checkIo pin) (Cmd.andThen (pollUart1 id heap) uart2Replies.exec))

/-- What it does after that. -/
def afterSave (id : U32) : FwStmt :=
  .block [.act tick100ms, tick1s id, .act tick5s, .act (tick10s id)]

/-- An iteration of the serial task is what comes before the save, the save, and what comes after it. -/
theorem exec_uartIteration (id : U32) (pin : U8) (heap : Heap) :
    (uartIteration id pin heap).exec =
      Cmd.andThen (beforeSave id pin heap) (Cmd.andThen saveFlash (afterSave id).exec) := by
  funext s
  simp only [uartIteration, beforeSave, afterSave, Stmt.block_cons, Stmt.exec_seq, Stmt.exec_act,
    Cmd.andThen_apply, List.append_assoc]

/-- The state in which the one-second tick of an iteration runs. -/
def atTick (id : U32) (pin : U8) (heap : Heap) (s : Firmware) : Firmware :=
  (tick100ms (saveFlash (beforeSave id pin heap s).1).1).1

/-- The part of an iteration before the one-second tick; it ends in `atTick`. -/
def toTick (id : U32) (pin : U8) (heap : Heap) : FwCmd :=
  Cmd.andThen (beforeSave id pin heap) (Cmd.andThen saveFlash tick100ms)

/-- An iteration around its one-second tick. -/
theorem firmware_toTick (chip : Chip) (pin : U8) (heap : Heap) :
    firmware chip (.iteration pin heap) = Cmd.andThen (toTick (readUniqueId chip) pin heap)
      (Cmd.andThen (tick1s (readUniqueId chip)).exec
        (Cmd.andThen tick5s (tick10s (readUniqueId chip)))) := by
  funext s
  simp only [firmware, exec_uartIteration, toTick, afterSave, Stmt.block_cons, Stmt.block_nil,
    Stmt.exec_seq, Stmt.exec_act, Stmt.exec_skip, Cmd.andThen_apply, List.append_assoc,
    List.append_nil]

/-- The part of a one-second tick before the control word is looked at. -/
def toSend (id : U32) : FwCmd :=
  Cmd.andThen sampleEvents (Cmd.andThen dispatchEvent.exec (Cmd.andThen lights
    (Cmd.andThen (startRegister id) monitorConnect)))

/-- The 1 s branch runs when its timer is due, and ends in the threefold send. -/
theorem exec_tick1s (id : U32) (s : Firmware) :
    (tick1s id).exec s =
      if s.task.timer1s.touch then Cmd.andThen (toSend id) sendThreeTimes s else (s, []) := by
  rw [tick1s, Stmt.exec_when]
  refine if_congr Iff.rfl ?_ rfl
  simp only [toSend, Stmt.block_cons, Stmt.block_nil, Stmt.exec_seq, Stmt.exec_act, Stmt.exec_skip,
    Cmd.andThen_apply, List.append_assoc, List.append_nil]

section Parts

variable {P : FwCmd → Prop}

/-- To show a property of every action on the replies, show it of each kind of action. -/
theorem all_replyActions (copy : P copyReply) (brand : P storeBrandCode)
    (setLocal : ∀ code, P (setLocalEvent code)) (back : P writeBack) (pop : P pageReturn)
    (call : ∀ handled result,
      P (Cmd.emit fun s => [.callBack s.task.infraredEvent.callBack handled result]))
    (clear : P (Cmd.modify fun s => { s with uart2Msg := { s.uart2Msg with messageFlag := false } })) :
    uart2Replies.All P := by
  have hcall : ∀ handled result, (invokeCallBack handled result).All P := fun handled result =>
    ⟨call handled result, pop, trivial⟩
  have hmatch : matchReply.All P :=
    ⟨⟨copy, ⟨brand, setLocal _, hcall _ _, back, trivial⟩, trivial⟩, trivial⟩
  have hsave : saveReply.All P := ⟨⟨setLocal _, hcall _ _, back, trivial⟩, trivial⟩
  have hlearn : ∀ code result, (learnReply code result).All P := fun code result =>
    ⟨⟨copy, ⟨hcall _ _, back, trivial⟩, ⟨setLocal _, back, pop, trivial⟩, trivial⟩, trivial⟩
  exact ⟨⟨⟨hmatch, hsave, hlearn _ _, hlearn _ _, trivial⟩, clear⟩, trivial⟩

/-- The same for the `switch` on the event. -/
theorem all_sendActions (send : ∀ bytes : Firmware → List U8,
      P (Cmd.emit fun s => [.uart2Tx (bytes s)]))
    (on : P onTest) (off : P offTest) (null : P (setLocalEvent .null)) (back : P writeBack) :
    sendEvent.All P := by
  have hfinish : ∀ c, P c → (sendAndFinish c).All P := fun c hc => ⟨hc, null, back, trivial⟩
  exact ⟨send _, send _, hfinish _ on, hfinish _ off, send _, send _, hfinish _ (send _),
    hfinish _ (send _), hfinish _ (send _), trivial⟩

/-- On the replies, all but six kinds of action are incidental. -/
theorem all_uart2Replies (incidental : ∀ c, Incidental c → P c)
    (setLocal : ∀ code, P (setLocalEvent code)) (back : P writeBack) (brand : P storeBrandCode)
    (call : ∀ handled result,
      P (Cmd.emit fun s => [.callBack s.task.infraredEvent.callBack handled result]))
    (clear : P (Cmd.modify fun s => { s with uart2Msg := { s.uart2Msg with messageFlag := false } })) :
    uart2Replies.All P :=
  all_replyActions (incidental _ incidental_copyReply) brand setLocal back
    (incidental _ incidental_pageReturn) call clear

/-- A property of sending an event, from its three kinds of parts. -/
theorem all_sendEvent (incidental : ∀ c, Incidental c → P c) (null : P (setLocalEvent .null))
    (back : P writeBack) : sendEvent.All P :=
  all_sendActions (fun _ => incidental _ (.emit fun _ => emits_singleton trivial))
    (incidental _ incidental_onTest) (incidental _ incidental_offTest) null back

/-- All actions after the save. -/
theorem all_afterSave (id : U32) (incidental : ∀ c, Incidental c → P c)
    (null : P (setLocalEvent .null)) (back : P writeBack) (sample : P sampleEvents)
    (dispatch : P (Cmd.emit fun s => [.dispatch s.task.infraredEvent.event])) :
    (afterSave id).All P := by
  have hdispatch : dispatchEvent.All P :=
    ⟨⟨dispatch, all_sendEvent incidental null back⟩, trivial⟩
  have htick : (tick1s id).All P :=
    ⟨⟨sample, hdispatch, incidental _ incidental_lights, incidental _ (incidental_startRegister id),
      incidental _ incidental_monitorConnect, incidental _ incidental_sendThreeTimes, trivial⟩,
      trivial⟩
  exact ⟨incidental _ incidental_tick100ms, htick, incidental _ incidental_tick5s,
    incidental _ (incidental_tick10s id), trivial⟩

end Parts

/-! ## Which kinds of observation the parts of an iteration emit -/

section Kinds

variable {good : Obs → Prop}

/-- The kinds of observations of the dispatch. -/
theorem kinds_dispatchEvent (uart2 : ∀ bytes, good (.uart2Tx bytes)) (dispatch : ∀ code, good (.dispatch code))
    (setEvent : ∀ e, good (.setEvent e)) : Cmd.Emits good dispatchEvent.exec :=
  Stmt.emits_exec ⟨⟨fun _ => emits_singleton (dispatch _), all_sendActions
    (fun _ _ => emits_singleton (uart2 _)) (kinds_onTest uart2) (kinds_offTest uart2)
    (fun _ => emits_nil) fun _ => emits_singleton (setEvent _)⟩, trivial⟩

/-- The kinds of observations of the reply branch. -/
theorem kinds_uart2Replies (setEvent : ∀ e, good (.setEvent e))
    (callBack : ∀ pointer handled result, good (.callBack pointer handled result))
    (pop : ∀ pageInfor, good (.pageReturn pageInfor)) : Cmd.Emits good uart2Replies.exec :=
  Stmt.emits_exec (all_replyActions (fun _ => emits_nil) (fun _ => emits_nil)
    (fun _ _ => emits_nil) (fun _ => emits_singleton (setEvent _))
    (fun _ => emits_singleton (pop _)) (fun _ _ _ => emits_singleton (callBack _ _ _))
    fun _ => emits_nil)

end Kinds

section PeerKinds

variable {good : Obs → Prop} (light : ∀ level, good (.pin .oledBackLight level))
  (setEvent : ∀ e, good (.setEvent e)) (pop : ∀ pageInfor, good (.pageReturn pageInfor))
include light setEvent pop

/-- Emitting only observations of a kind is a threaded property. -/
theorem threaded_emits : Threaded (Cmd.Emits good) where
  andThen := .andThen
  choose := .choose
  onOled _ := Cmd.emits_modify _
  light _ := Cmd.emits_emit fun _ => light _
  post _ _ := emits_singleton (setEvent _)
  mode := Cmd.emits_modify _
  pop _ := emits_singleton (pop _)

/-- The kinds of observations of the other threads. -/
theorem kinds_peerStep (p : Peer) : Cmd.Emits good (peerStep p) := by
  have hthreaded := threaded_emits light setEvent pop
  cases p with
  | uart1Burst bytes => exact Cmd.emits_modify _
  | uart2Burst bytes => exact Cmd.emits_modify _
  | enterBtn type => exact hthreaded.enterBtn (fun _ _ => emits_singleton (setEvent _)) type
  | upBtn type => exact hthreaded.upBtn type
  | dowmBtn type => exact hthreaded.dowmBtn type
  | oledIteration => exact hthreaded.oledIteration

end PeerKinds

/-! ## What the serial task leaves alone -/

/-- The statics of the input pin and the memory of the display. -/
def apart (s : Firmware) : IoCheck × Oled := (s.io, s.oled)

/-- What keeps the pin's statics and the display keeps the statics. -/
theorem keeps_io {c : FwCmd} (h : Cmd.Keeps apart c) : Cmd.Keeps Firmware.io c := fun s =>
  congrArg Prod.fst (h s)

/-- What keeps the pin's statics and the display keeps the display. -/
theorem keeps_oled {c : FwCmd} (h : Cmd.Keeps apart c) : Cmd.Keeps Firmware.oled c := fun s =>
  congrArg Prod.snd (h s)

/-- The poll of the hub's port leaves the pin and the display alone. -/
theorem apart_pollUart1 (id : U32) (heap : Heap) : Cmd.Keeps apart (pollUart1 id heap) := by
  intro s
  dsimp only [pollUart1, Cmd.andThen, Cmd.modify]
  split
  case isFalse => rfl
  split
  · dsimp only [registrationBranch]
    split <;> rfl
  split <;> rfl

/-- The save leaves the pin and the display alone. -/
theorem apart_saveFlash : Cmd.Keeps apart saveFlash := keeps_saveFlash fun _ _ _ => rfl

/-- The 100 ms branch leaves the pin and the display alone. -/
theorem apart_tick100ms : Cmd.Keeps apart tick100ms := keeps_tick100ms fun _ _ _ _ => rfl

/-- The on test leaves the pin and the display alone. -/
theorem apart_onTest : Cmd.Keeps apart onTest := keeps_onTest fun _ _ _ _ => rfl

/-- The off test leaves the pin and the display alone. -/
theorem apart_offTest : Cmd.Keeps apart offTest := keeps_offTest fun _ _ _ _ => rfl

/-- The lamps leave the pin's statics and the display alone. -/
theorem apart_lights : Cmd.Keeps apart lights := keeps_lights fun _ _ => rfl

/-- The start of a registration leaves the pin and the display alone. -/
theorem apart_startRegister (id : U32) : Cmd.Keeps apart (startRegister id) :=
  keeps_startRegister (fun _ _ => rfl) id

/-- The watch on the connection leaves the pin and the display alone. -/
theorem apart_monitorConnect : Cmd.Keeps apart monitorConnect :=
  keeps_monitorConnect fun _ _ _ => rfl

/-- The threefold send leaves the pin and the display alone. -/
theorem apart_sendThreeTimes : Cmd.Keeps apart sendThreeTimes :=
  keeps_sendThreeTimes (fun _ _ _ _ => rfl) fun _ _ _ => rfl

/-- The 5 s branch leaves the pin and the display alone. -/
theorem apart_tick5s : Cmd.Keeps apart tick5s := keeps_tick5s fun _ _ => rfl

/-- The 10 s branch leaves the pin and the display alone. -/
theorem apart_tick10s (id : U32) : Cmd.Keeps apart (tick10s id) := keeps_tick10s id

/-! ## What the parts of an iteration emit -/

/-- Answering the hub does nothing but plain things. -/
theorem plain_analyzeMasterData (heap : Heap) (id : U32) (data : List U8) (size : ℕ)
    (m : ModuleInfo) : ∀ o ∈ (analyzeMasterData heap id data size m).2.2, Plain o :=
  kinds_analyzeMasterData (fun _ _ => trivial) (fun _ => trivial) heap id data size m

/-- Writing the local copy back shows only as the event that is set. -/
theorem emits_writeBack {good : Obs → Prop} (setEvent : ∀ e, good (.setEvent e)) :
    Cmd.Emits good writeBack := fun s o ho => by
  rw [List.mem_singleton.mp ho]
  exact setEvent _

section Observations

variable {good : Obs → Prop} (plain : ∀ o, Plain o → good o)
include plain

/-- Incidental code emits only observations of a kind that takes in the plain ones. -/
theorem Incidental.emitsGood {c : FwCmd} (h : Incidental c) : Cmd.Emits good c :=
  fun s o ho => plain o (h.emits s o ho)

/-- The kinds of observations of the poll. -/
theorem emits_pollUart1 (registration : ∀ f n, good (.registration f n))
    (analyze : ∀ f n, good (.analyze f n)) (id : U32) (heap : Heap) :
    Cmd.Emits good (pollUart1 id heap) :=
  kinds_pollUart1 registration analyze
    (fun _ _ _ _ _ o ho => plain o (plain_analyzeMasterData _ _ _ _ _ o ho)) id heap

/-- The kinds of observations of the save. -/
theorem emits_saveFlash : Cmd.Emits good saveFlash := kinds_saveFlash fun _ => plain _ trivial

/-- The kinds of observations of the reply branch, where the plain ones are all allowed. -/
theorem emits_uart2Replies (setEvent : ∀ e, good (.setEvent e))
    (callBack : ∀ pointer handled result, good (.callBack pointer handled result)) :
    Cmd.Emits good uart2Replies.exec :=
  Stmt.emits_exec (all_uart2Replies (fun _ hc => hc.emitsGood plain) (fun _ => Cmd.emits_modify _)
    (emits_writeBack setEvent) (Cmd.emits_modify _)
    (fun _ _ => Cmd.emits_emit fun _ => callBack _ _ _) (Cmd.emits_modify _))

/-- The kinds of observations of sending an event. -/
theorem emits_sendEvent (setEvent : ∀ e, good (.setEvent e)) : Cmd.Emits good sendEvent.exec :=
  Stmt.emits_exec (all_sendEvent (fun _ hc => hc.emitsGood plain) (Cmd.emits_modify _)
    (emits_writeBack setEvent))

/-- The kinds of observations of what comes after the save. -/
theorem emits_afterSave (setEvent : ∀ e, good (.setEvent e)) (dispatch : ∀ code, good (.dispatch code))
    (id : U32) : Cmd.Emits good (afterSave id).exec :=
  Stmt.emits_exec (all_afterSave id (fun _ hc => hc.emitsGood plain) (Cmd.emits_modify _)
    (emits_writeBack setEvent) (Cmd.emits_modify _)
    (Cmd.emits_emit fun _ => dispatch _))

end Observations

end InfraredModule.Analysis
