import InfraredModule.Analysis.InfraredEvents
import InfraredModule.Analysis.Control
import InfraredModule.Analysis.Menu

/-!
# Replies of the code-library chip

A reply is taken by the event of the task's copy, which may be a second old. Three questions about
it, each with the runs or replies for which the answer is the one wanted:

* `reply_closes_own`: does a reply close only the page that started its exchange;
* `reply_validated`: is a reply looked at before it changes anything;
* `saved_iff`: does a reply to the save command end the exchange as saved only when it says so.
-/

set_option autoImplicit false

namespace InfraredModule.Analysis

open InfraredModule.Foundation InfraredModule.Model InfraredModule.Interface

/-! ## The page of an exchange -/

/-- The pages that start an exchange with the chip. -/
def Starts (page : U8) : Prop := page = onekeyMatchPage ∨ page = learnOnPage ∨ page = learnOffPage

/-- The pages a reply to an event may close; a reply to any other event closes none. -/
def Fits (code : EventCode) (page : U8) : Prop :=
  match code with
  | .sendSave => page = onekeyMatchPage
  | .sendLearnModeOn | .sendLearnModeOff => page = learnOnPage ∨ page = learnOffPage
  | _ => True

/-- The page on top is the one of the exchange, as the shared event and as the task's copy have it. -/
def Ready (s : Firmware) : Prop :=
  Fits s.infraredEvent.event s.oled.page ∧ Fits s.task.infraredEvent.event s.oled.page

/-- A reply of seven bytes is in the slot. -/
def Waiting (s : Firmware) : Prop := s.uart2Msg.messageFlag = true ∧ s.uart2Msg.size = 7

/-- A page that started an exchange is not left while a reply is in the slot, and a reply of seven
bytes comes only while the page of its exchange is on top. -/
def Timely (s : Firmware) : Peer → Prop
  | .enterBtn .longPress => Starts s.oled.page → s.uart2Msg.messageFlag = false
  | .uart2Burst bytes => Waiting (uart2Input bytes s) → Ready s
  | _ => True

/-- The page that the pointer of an event belongs to. -/
def Owns (callBack : CallBack) (page : U8) : Prop :=
  callBack = .matchCallBack ∧ page = onekeyMatchPage ∨
    callBack = .learnCallBack ∧ (page = learnOnPage ∨ page = learnOffPage)

/-- A page that is closed is the one of the exchange in the task's copy. -/
def ClosesOwn (s : Firmware) (o : Obs) : Prop :=
  ∀ pageInfor, o = .pageReturn pageInfor →
    pageInfor = s.oled.pageInfor ∧ Owns s.task.infraredEvent.callBack s.oled.page

instance (page : U8) : Decidable (Starts page) := inferInstanceAs (Decidable (_ ∨ _))

instance (page : U8) : (code : EventCode) → Decidable (Fits code page)
  | .sendSave => inferInstanceAs (Decidable (page = onekeyMatchPage))
  | .sendLearnModeOn | .sendLearnModeOff =>
    inferInstanceAs (Decidable (page = learnOnPage ∨ page = learnOffPage))
  | .null | .sendMatch | .sendOnTest | .sendOffTest | .sendMatchOver | .sendLearnOnOver
  | .sendLearnOffOver | .waitLearnOn | .waitLearnOff => inferInstanceAs (Decidable True)

instance (s : Firmware) : Decidable (Ready s) := inferInstanceAs (Decidable (_ ∧ _))

instance (s : Firmware) : Decidable (Waiting s) := inferInstanceAs (Decidable (_ ∧ _))

instance (s : Firmware) : (p : Peer) → Decidable (Timely s p)
  | .enterBtn .longPress => inferInstanceAs (Decidable (_ → _))
  | .uart2Burst _ => inferInstanceAs (Decidable (_ → _))
  | .enterBtn .nullPress | .enterBtn .shortPress | .uart1Burst _ | .upBtn _ | .dowmBtn _
  | .oledIteration => inferInstanceAs (Decidable True)

/-- An event that fits a page which starts no exchange fits every page. -/
theorem Fits.anywhere {code : EventCode} {page other : U8} (h : Fits code page)
    (hstarts : ¬ Starts page) : Fits code other := by
  cases code with
  | sendSave => exact absurd (.inl h) hstarts
  | sendLearnModeOn => exact absurd (.inr h) hstarts
  | sendLearnModeOff => exact absurd (.inr h) hstarts
  | _ => trivial

/-! ## What the other threads do to an exchange -/

/-- Showing a page that starts an exchange leaves the stack. -/
theorem Screen.shown_of_starts {x : Screen} (h : Starts x.page) (mode : U8) (reflash : Bool) :
    (x.shown mode reflash).pageInfor = x.pageInfor := by
  have hprogram : ∀ (page : U8) (y : Screen), Starts page → y.program page = y := by
    rintro page y (rfl | rfl | rfl)
    · exact ite_self y
    · exact ite_self y
    · exact ite_self y
  unfold shown
  split
  · rw [hprogram _ _ h]
    exact x.set_pageInfor _ _
  split
  · rw [hprogram _ _ h]
  · rfl

/-- While a reply is in the slot a page that started an exchange stays on top. -/
theorem page_peer {s : Firmware} {p : Peer} (htimely : Timely s p)
    (hflag : s.uart2Msg.messageFlag = true) (hstarts : Starts s.oled.page) :
    (peerStep p s).1.oled.page = s.oled.page := by
  have hscreen := congrArg Screen.pageInfor (screen_step (.peer p) s)
  refine congrArg (fun pageInfor : U32 => pageInfor.setWidth 8) (hscreen.trans ?_)
  cases p with
  | uart1Burst bytes => rfl
  | uart2Burst bytes => rfl
  | enterBtn type =>
    cases type with
    | nullPress => rfl
    | shortPress => rfl
    | longPress => exact absurd (hflag.symm.trans (htimely hstarts)) (by decide)
  | upBtn type =>
    cases type with
    | _ => rfl
  | dowmBtn type =>
    cases type with
    | nullPress => rfl
    | longPress => rfl
    | shortPress =>
      simp only [Screen.step]
      split <;> rfl
  | oledIteration => exact Screen.shown_of_starts (x := screen s.oled) hstarts _ _

/-- A page posts an event whose replies may close it, or none that closes a page. -/
theorem fits_pageProgram {page : U8} {s : Firmware} (h : Fits s.infraredEvent.event page) :
    Fits (pageProgram page s).1.infraredEvent.event page := by
  have hmode : (selectModePageShow s).1.infraredEvent = s.infraredEvent := by
    unfold selectModePageShow
    split <;> rfl
  have htest : Fits (testPageShow s).1.infraredEvent.event page := by
    unfold testPageShow
    split
    · simp only [Cmd.andThen_apply]
      repeat' split
      · trivial
      · trivial
      · exact h
    · exact h
  have hmenu : ∀ rows, Fits (menuPage rows s).1.infraredEvent.event page := fun rows => by
    rw [show (menuPage rows s).1.infraredEvent = s.infraredEvent from
      congrArg Vital.cell ((incidental_menuPage rows).keeps s)]
    exact h
  obtain ⟨c, hc, heq⟩ := pageProgram_eq page
  rw [heq]
  show Fits (c s).1.infraredEvent.event page
  cases hc with
  | home | setting | learnMode => exact hmenu _
  | selectMode => exact hmode ▸ h
  | test => exact htest
  | onekeyMatch => trivial
  | learnOn => exact .inl rfl
  | learnOff => exact .inr rfl
  | other => exact h

/-- The event that the display posts fits the page. -/
theorem fits_oledIteration {s : Firmware} (h : Fits s.infraredEvent.event s.oled.page) :
    Fits (oledIteration s).1.infraredEvent.event s.oled.page := by
  set t := (displayTimer s).1
  have hshow : Fits (oledShow t.oled.page t).1.infraredEvent.event s.oled.page := by
    obtain ⟨hruns, hrests⟩ := oledShow_atProgram t
    cases hat : atProgram t with
    | none =>
      rw [hrests hat]
      exact h
    | some u =>
      obtain ⟨last, heq⟩ := hruns u hat
      have hcell : u.infraredEvent = s.infraredEvent := by
        unfold atProgram at hat
        split at hat
        · rw [← Option.some.inj hat]
          exact congrArg Vital.cell ((incidental_pageSetting t.oled.page).keeps t)
        · split at hat
          · rw [← Option.some.inj hat]
            rfl
          · cases hat
      rw [heq]
      exact fits_pageProgram (hcell ▸ h)
  have hafter := (incidental_oledCtrl.andThen (incidental_oled1s t.oled.page)).keeps
    (oledShow t.oled.page t).1
  have hcell : (oledIteration s).1.infraredEvent = (oledShow t.oled.page t).1.infraredEvent :=
    congrArg Vital.cell hafter
  rw [hcell]
  exact hshow

/-- What a peer leaves in the shared event fits the page it found. -/
theorem fits_peer (p : Peer) {s : Firmware} (h : Fits s.infraredEvent.event s.oled.page) :
    Fits (peerStep p s).1.infraredEvent.event s.oled.page := by
  have hkeep : (peerStep p s).1.infraredEvent = s.infraredEvent →
      Fits (peerStep p s).1.infraredEvent.event s.oled.page := fun hsame => hsame ▸ h
  cases p with
  | uart1Burst bytes => exact hkeep (congrArg Vital.cell (vital_uart1Burst bytes s))
  | uart2Burst bytes => exact hkeep (congrArg Vital.cell (vital_uart2Burst bytes s))
  | enterBtn type =>
    cases type with
    | nullPress => exact h
    | shortPress => exact h
    | longPress =>
      cases hover : overEvent s.oled.page with
      | none =>
        refine hkeep ?_
        dsimp only [peerStep, enterBtnCallBack]
        rw [hover]
        rfl
      | some code =>
        rw [event_longPress hover]
        rcases isOver_of_overEvent hover with rfl | rfl | rfl <;> trivial
  | upBtn type => exact hkeep (congrArg Vital.cell ((incidental_upBtn type).keeps s))
  | dowmBtn type => exact hkeep (congrArg Vital.cell ((incidental_dowmBtn type).keeps s))
  | oledIteration => exact fits_oledIteration h

/-- What another thread does in time keeps the page on top, while a reply is in the slot. -/
theorem ready_peer {s : Firmware} {p : Peer} (hready : Ready s) (htimely : Timely s p)
    (hflag : s.uart2Msg.messageFlag = true) : Ready (peerStep p s).1 := by
  have hcell := fits_peer p hready.1
  have hcopy : Fits (peerStep p s).1.task.infraredEvent.event s.oled.page := by
    rw [(event_peer p s).1]
    exact hready.2
  by_cases hstarts : Starts s.oled.page
  · rw [Ready, page_peer htimely hflag hstarts]
    exact ⟨hcell, hcopy⟩
  · exact ⟨hcell.anywhere hstarts, hcopy.anywhere hstarts⟩

/-- Only a burst of the chip changes its slot, and it never clears the flag. -/
theorem replySlot_peer (p : Peer) (s : Firmware) :
    (∃ bytes, p = .uart2Burst bytes ∧ ((peerStep p s).1.uart2Msg.messageFlag = true ∨
      (peerStep p s).1.uart2Msg.messageFlag = s.uart2Msg.messageFlag)) ∨
      (peerStep p s).1.uart2Msg = s.uart2Msg := by
  rcases peer_cases p with ⟨bytes, rfl⟩ | ⟨bytes, rfl⟩ | hposts
  · exact .inr (congrArg Vital.uart2Msg (vital_uart1Burst bytes s))
  · refine .inl ⟨bytes, rfl, ?_⟩
    simp only [peerStep, Cmd.modify_apply, uart2Input]
    split
    · exact .inl rfl
    · exact .inr rfl
  · obtain ⟨cell, select, hvital, -⟩ := hposts s
    exact .inr (congrArg Vital.uart2Msg hvital)

/-- A burst from the chip leaves the events and the page as they are. -/
theorem ready_uart2Input (bytes : List U8) (s : Firmware) : Ready (uart2Input bytes s) = Ready s := by
  simp only [uart2Input]
  split <;> rfl

/-! ## The outline of an iteration -/

/-- What the other threads may do in time. -/
def TimelyStep (s t : Firmware) : Prop := ∃ p, Timely s p ∧ t = (peerStep p s).1

/-- Between replies: a reply in the slot finds its page on top. -/
def Open (s : Firmware) : Prop := Held Initialised s ∧ (Waiting s → Ready s)

/-- A reply is in the slot and has not been looked at; the copy is as `Q` says. -/
def Arrived (Q : InfraredEvent → Prop) (s : Firmware) : Prop :=
  Open s ∧ Q s.task.infraredEvent ∧ s.uart2Msg.messageFlag = true

/-- A reply is being handled: the copy is as `Q` says and the page on top as `R` says. -/
def Busy (Q : InfraredEvent → Prop) (R : U8 → Prop) (s : Firmware) : Prop :=
  Held Q s ∧ s.uart2Msg.messageFlag = true ∧ R s.oled.page

/-- A condition on the page that holds of a page that started an exchange, or says nothing. -/
def Anchored (R : U8 → Prop) : Prop := ∀ page, R page → Starts page ∨ ∀ other, R other

/-- The outlines of the task's statements, with what closes a page watched. -/
abbrev ReplyOutline (P : Firmware → Prop) (p : FwStmt) (P' : Firmware → Prop) : Prop :=
  Stmt.Watched TimelyStep ClosesOwn P p P'

section Stable

/-- What other threads do in time keeps the events initialised. -/
theorem held_timely (Q : InfraredEvent → Prop) : Stmt.Stable TimelyStep (Held Q) := by
  rintro s t ⟨p, -, rfl⟩ h
  exact held_stable Q _ _ ⟨p, rfl⟩ h

/-- What other threads do in time leaves a reply in the slot. -/
theorem flag_stable : Stmt.Stable TimelyStep fun s => s.uart2Msg.messageFlag = true := by
  rintro s t ⟨p, -, rfl⟩ h
  rcases replySlot_peer p s with ⟨-, -, hset | hsame⟩ | hslot
  · exact hset
  · exact hsame.trans h
  · exact hslot ▸ h

/-- What other threads do in time keeps the assertion between replies. -/
theorem open_stable : Stmt.Stable TimelyStep Open := by
  rintro s t ⟨p, htimely, rfl⟩ ⟨hheld, hready⟩
  refine ⟨held_timely _ _ _ ⟨p, htimely, rfl⟩ hheld, fun hwaiting => ?_⟩
  rcases replySlot_peer p s with ⟨bytes, rfl, -⟩ | hslot
  · show Ready (uart2Input bytes s)
    rw [ready_uart2Input]
    exact htimely hwaiting
  · have hbefore : Waiting s := by
      rw [Waiting, hslot] at hwaiting
      exact hwaiting
    exact ready_peer (hready hbefore) htimely hbefore.1

/-- What other threads do in time keeps the assertion of a reply that has come. -/
theorem arrived_stable (Q : InfraredEvent → Prop) : Stmt.Stable TimelyStep (Arrived Q) := by
  rintro s t hstep ⟨hopen, hcopy, hflag⟩
  have hheld := held_timely Q s t hstep ⟨hopen.1.1, hcopy⟩
  exact ⟨open_stable s t hstep hopen, hheld.2, flag_stable s t hstep hflag⟩

/-- What other threads do in time keeps the assertion of a reply that is handled. -/
theorem busy_stable {Q : InfraredEvent → Prop} {R : U8 → Prop} (hR : Anchored R) :
    Stmt.Stable TimelyStep (Busy Q R) := by
  rintro s t hstep ⟨hheld, hflag, hpage⟩
  refine ⟨held_timely Q s t hstep hheld, flag_stable s t hstep hflag, ?_⟩
  obtain ⟨p, htimely, rfl⟩ := hstep
  rcases hR _ hpage with hstarts | hany
  · rw [page_peer htimely hflag hstarts]
    exact hpage
  · exact hany _

end Stable

/-- The parts of the memory an exchange consists of. -/
def exchange (s : Firmware) : InfraredEvent × InfraredEvent × RxMsg × U32 :=
  (s.infraredEvent, s.task.infraredEvent, s.uart2Msg, s.oled.pageInfor)

/-- An observation that closes no page. -/
def ClosesNone (o : Obs) : Prop := ∀ pageInfor, o ≠ .pageReturn pageInfor

/-- An action that has nothing to do with an exchange. -/
structure Aside (c : FwCmd) : Prop where
  keeps : Cmd.Keeps exchange c
  emits : Cmd.Emits ClosesNone c

/-- What closes no page closes no other page. -/
theorem ClosesNone.closesOwn {o : Obs} (h : ClosesNone o) (s : Firmware) : ClosesOwn s o :=
  fun pageInfor ho => absurd ho (h pageInfor)

/-- Incidental code that leaves the display alone has nothing to do with an exchange. -/
theorem Aside.of_incidental {c : FwCmd} (h : Incidental c) (holed : Cmd.Keeps Firmware.oled c)
    (hobs : Cmd.Emits ClosesNone c) : Aside c := by
  refine ⟨fun s => ?_, hobs⟩
  have hvital := h.keeps s
  have hcell : (c s).1.infraredEvent = s.infraredEvent := congrArg Vital.cell hvital
  have hcopy : (c s).1.task.infraredEvent = s.task.infraredEvent := congrArg Vital.copy hvital
  have hslot : (c s).1.uart2Msg = s.uart2Msg := congrArg Vital.uart2Msg hvital
  rw [exchange, hcell, hcopy, hslot, holed s, exchange]

/-- The assertion between replies depends on the exchange only. -/
theorem open_congr {s t : Firmware} (h : exchange t = exchange s) (hs : Open s) : Open t := by
  obtain ⟨hcell, hcopy, hslot, hpage⟩ : t.infraredEvent = s.infraredEvent ∧
      t.task.infraredEvent = s.task.infraredEvent ∧ t.uart2Msg = s.uart2Msg ∧
      t.oled.pageInfor = s.oled.pageInfor := by simpa only [exchange, Prod.mk.injEq] using h
  unfold Open Held Waiting Ready Oled.page at *
  rw [hcell, hcopy, hslot, hpage]
  exact hs

/-- An action of the task that keeps the assertion between replies. -/
def KeepsOpen (c : FwCmd) : Prop := ∀ s, Open s → Open (c s).1 ∧ ∀ o ∈ (c s).2, ClosesOwn s o

/-- What has nothing to do with an exchange keeps the assertion between replies. -/
theorem Aside.keepsOpen {c : FwCmd} (h : Aside c) : KeepsOpen c := fun s hs =>
  ⟨open_congr (h.keeps s) hs, fun o ho => (h.emits s o ho).closesOwn s⟩

/-- The copies of the shared events at a tick keep the assertion. -/
theorem keepsOpen_sampleEvents : KeepsOpen sampleEvents := fun _ hs =>
  ⟨⟨⟨hs.1.1, hs.1.1⟩, fun hwaiting => ⟨(hs.2 hwaiting).1, (hs.2 hwaiting).1⟩⟩,
    fun _ ho => absurd ho List.not_mem_nil⟩

/-- Clearing the copy keeps the assertion. -/
theorem keepsOpen_clearLocal : KeepsOpen (setLocalEvent .null) := fun _ hs =>
  ⟨⟨⟨hs.1.1, fun _ h => by cases h⟩, fun hwaiting => ⟨(hs.2 hwaiting).1, trivial⟩⟩,
    fun _ ho => absurd ho List.not_mem_nil⟩

/-- Writing the copy back keeps the assertion. -/
theorem keepsOpen_writeBack : KeepsOpen writeBack := fun s hs =>
  ⟨⟨⟨hs.1.2, hs.1.2⟩, fun hwaiting => ⟨(hs.2 hwaiting).2, (hs.2 hwaiting).2⟩⟩,
    emits_singleton fun _ ho => by cases ho⟩

section Asides

/-- A frame to the chip closes no page. -/
theorem closesNone_uart2Tx (bytes : List U8) : ClosesNone (.uart2Tx bytes) := fun _ h => by cases h

/-- A frame to the hub closes no page. -/
theorem closesNone_uart1Tx (bytes : List U8) : ClosesNone (.uart1Tx bytes) := fun _ h => by cases h

/-- A level of a pin closes no page. -/
theorem closesNone_pin (pin : Pin) (level : U8) : ClosesNone (.pin pin level) := fun _ h => by cases h

/-- Sending a frame to the chip has nothing to do with an exchange. -/
theorem aside_send (bytes : Firmware → List U8) : Aside (Cmd.emit fun s => [.uart2Tx (bytes s)]) :=
  ⟨fun _ => rfl, fun _ => emits_singleton (closesNone_uart2Tx _)⟩

/-- The poll of the hub's port has nothing to do with an exchange. -/
theorem aside_pollUart1 (id : U32) (heap : Heap) : Aside (pollUart1 id heap) := by
  refine ⟨fun s => ?_, kinds_pollUart1 (fun _ _ _ h => by cases h) (fun _ _ _ h => by cases h)
    (kinds_analyzeMasterData closesNone_pin closesNone_uart1Tx) id heap⟩
  obtain ⟨_, hvital⟩ := vital_pollUart1 id heap s
  have hcell : (pollUart1 id heap s).1.infraredEvent = s.infraredEvent := congrArg Vital.cell hvital
  have hcopy : (pollUart1 id heap s).1.task.infraredEvent = s.task.infraredEvent :=
    congrArg Vital.copy hvital
  have hslot : (pollUart1 id heap s).1.uart2Msg = s.uart2Msg := congrArg Vital.uart2Msg hvital
  rw [exchange, hcell, hcopy, hslot, keeps_oled (apart_pollUart1 id heap) s, exchange]

/-- The save has nothing to do with an exchange. -/
theorem aside_saveFlash : Aside saveFlash :=
  ⟨keeps_saveFlash fun _ _ _ => rfl, kinds_saveFlash fun _ _ h => by cases h⟩

/-- The actions of an iteration before and after the replies. -/
theorem keepsOpen_afterReplies (id : U32) :
    (Stmt.block [.act saveFlash, .act tick100ms, tick1s id, .act tick5s, .act (tick10s id)]).All
      KeepsOpen := by
  have hsend : sendEvent.All KeepsOpen := all_sendActions (fun bytes => (aside_send bytes).keepsOpen)
    (Aside.of_incidental incidental_onTest (keeps_oled apart_onTest)
      (kinds_onTest closesNone_uart2Tx)).keepsOpen
    (Aside.of_incidental incidental_offTest (keeps_oled apart_offTest)
      (kinds_offTest closesNone_uart2Tx)).keepsOpen
    keepsOpen_clearLocal keepsOpen_writeBack
  have hdispatch : Aside (Cmd.emit fun s => [.dispatch s.task.infraredEvent.event]) :=
    ⟨fun _ => rfl, fun _ => emits_singleton fun _ h => by cases h⟩
  have htick : (tick1s id).All KeepsOpen :=
    ⟨⟨keepsOpen_sampleEvents, ⟨⟨hdispatch.keepsOpen, hsend⟩, trivial⟩,
      (Aside.of_incidental incidental_lights (keeps_oled apart_lights)
        (kinds_lights closesNone_pin)).keepsOpen,
      (Aside.of_incidental (incidental_startRegister id) (keeps_oled (apart_startRegister id))
        (kinds_startRegister closesNone_pin closesNone_uart1Tx id)).keepsOpen,
      (Aside.of_incidental incidental_monitorConnect (keeps_oled apart_monitorConnect)
        kinds_monitorConnect).keepsOpen,
      (Aside.of_incidental incidental_sendThreeTimes (keeps_oled apart_sendThreeTimes)
        (kinds_sendThreeTimes closesNone_uart2Tx fun _ h => by cases h)).keepsOpen, trivial⟩, trivial⟩
  exact ⟨aside_saveFlash.keepsOpen, (Aside.of_incidental incidental_tick100ms (keeps_oled apart_tick100ms)
      (kinds_tick100ms closesNone_pin)).keepsOpen, htick,
    (Aside.of_incidental incidental_tick5s (keeps_oled apart_tick5s) kinds_tick5s).keepsOpen,
    (Aside.of_incidental (incidental_tick10s id) (keeps_oled (apart_tick10s id))
      (kinds_tick10s closesNone_pin closesNone_uart1Tx id)).keepsOpen, trivial⟩

end Asides

/-- Nothing is said about the page on top. -/
def Anywhere (_ : U8) : Prop := True

/-- One of the two learn pages. -/
def OnLearn (page : U8) : Prop := page = learnOnPage ∨ page = learnOffPage

/-- Saying nothing is anchored. -/
theorem anchored_anywhere : Anchored Anywhere := fun _ _ => .inr fun _ => trivial

/-- The match page is anchored. -/
theorem anchored_match : Anchored (· = onekeyMatchPage) := fun _ h => .inl (.inl h)

/-- The learn pages are anchored. -/
theorem anchored_learn : Anchored OnLearn := fun _ h => .inl (.inr h)

section Handling

variable {Q Q' : InfraredEvent → Prop} {R R' : U8 → Prop} {c : FwCmd}

/-- An action while a reply is handled. -/
theorem busy_act (hR : Anchored R) (cell : ∀ s, Busy Q R s → Initialised (c s).1.infraredEvent)
    (copy : ∀ s, Busy Q R s → Q' (c s).1.task.infraredEvent)
    (slot : Cmd.Keeps Firmware.uart2Msg c) (page : Cmd.Keeps Firmware.oled c)
    (obs : Cmd.Emits ClosesNone c) : ReplyOutline (Busy Q R) (.act c) (Busy Q' R) := by
  refine .act (busy_stable hR) (busy_stable hR) (fun s hs => ⟨⟨cell s hs, copy s hs⟩, ?_, ?_⟩)
    fun s _ o ho => (obs s o ho).closesOwn s
  · rw [slot s]
    exact hs.2.1
  · rw [page s]
    exact hs.2.2

/-- Assigning the event of the copy while a reply is handled. -/
theorem busy_setLocalEvent {code : EventCode} (hR : Anchored R)
    (h : ∀ e, Q e → Q' { e with event := code }) :
    ReplyOutline (Busy Q R) (.act (setLocalEvent code)) (Busy Q' R) :=
  busy_act hR (fun _ hs => hs.1.1) (fun _ hs => h _ hs.1.2) (fun _ => rfl) (fun _ => rfl)
    (Cmd.emits_modify _)

/-- Writing the copy back while a reply is handled. -/
theorem busy_writeBack (hR : Anchored R) (h : ∀ e, Q e → Initialised e) :
    ReplyOutline (Busy Q R) (.act writeBack) (Busy Q R) :=
  busy_act hR (fun _ hs => h _ hs.1.2) (fun _ hs => hs.1.2) (fun _ => rfl) (fun _ => rfl)
    fun _ => emits_singleton fun _ ho => by cases ho

/-- Copying the reply while it is handled. -/
theorem busy_copyReply (hR : Anchored R) : ReplyOutline (Busy Q R) (.act copyReply) (Busy Q R) :=
  busy_act hR (fun _ hs => hs.1.1) (fun _ hs => hs.1.2) (fun _ => rfl) (fun _ => rfl)
    (Cmd.emits_modify _)

/-- Doing nothing, under stronger assertions. -/
theorem busy_done (hR : Anchored R) (hQ : ∀ e, Q e → Q' e) (hpage : ∀ page, R page → R' page) :
    ReplyOutline (Busy Q R) .skip (Busy Q' R') :=
  .done (busy_stable hR) fun _ hs => ⟨⟨hs.1.1, hQ _ hs.1.2⟩, hs.2.1, hpage _ hs.2.2⟩

/-- **Closing a page.** It is the one of the exchange where the pointer of the copy belongs to the page
on top. -/
theorem busy_pageReturn (hR : Anchored R) (h : ∀ e page, Q e → R page → Owns e.callBack page) :
    ReplyOutline (Busy Q R) (.act pageReturn) (Busy Q Anywhere) := by
  refine .act (busy_stable hR) (busy_stable anchored_anywhere)
    (fun s hs => ⟨hs.1, hs.2.1, trivial⟩) fun s hs => emits_singleton fun pageInfor ho => ?_
  cases ho
  exact ⟨rfl, h _ _ hs.1.2 hs.2.2⟩

/-- A call while a reply is handled. -/
theorem busy_callBack (hR : Anchored R) (handled : EventCode) (result : U8) :
    ReplyOutline (Busy Q R)
      (.act (Cmd.emit fun s => [.callBack s.task.infraredEvent.callBack handled result]))
      (Busy Q R) :=
  busy_act hR (fun _ hs => hs.1.1) (fun _ hs => hs.1.2) (fun _ => rfl) (fun _ => rfl)
    fun _ => emits_singleton fun _ ho => by cases ho

/-- A callback that reports anything but a save closes no page. -/
theorem busy_invoke {handled : EventCode} {result : U8} (hR : Anchored R)
    (h : result ≠ infraredEventSaveOk) :
    ReplyOutline (Busy Q R) (invokeCallBack handled result) (Busy Q R) := by
  -- the branch that closes a page is never taken
  have hnever : ReplyOutline (fun _ => False) (.act pageReturn) (Busy Q R) :=
    .act (fun _ _ _ hs => hs) (busy_stable hR) (fun _ hs => hs.elim) fun _ hs => hs.elim
  exact .seq (busy_callBack hR handled result) (.ite (busy_stable hR)
    (fun s _ htest => h (of_decide_eq_true htest).2) (fun _ hs _ => hs) hnever
    (busy_done hR (fun _ he => he) fun _ hpage => hpage))

/-- The callback after a save waits and closes a page. -/
theorem busy_invokeSaved (hR : Anchored R) (h : ∀ e page, Q e → R page → Owns e.callBack page) :
    ReplyOutline (Busy Q R) (invokeCallBack .sendSave infraredEventSaveOk) (Busy Q Anywhere) :=
  .seq (busy_callBack hR _ _) (.branch (busy_pageReturn hR h)
    (busy_done hR (fun _ he => he) fun _ _ => trivial))

end Handling

/-- The test for the length of a reply: with it, the page on top fits the event of the copy. -/
theorem arrived_sized {code : EventCode} {R : U8 → Prop} {p : FwStmt}
    (hfits : ∀ page, Fits code page → R page)
    (h : ReplyOutline (Busy (fun e => Initialised e ∧ e.event = code) R) p
      (Busy Initialised Anywhere)) :
    ReplyOutline (Arrived (·.event = code)) (.when replySized p) (Busy Initialised Anywhere) := by
  refine .ite (arrived_stable _) (fun s hs hsize => ?_) (fun s hs _ => ?_) h
    (busy_done anchored_anywhere (fun _ he => he) fun _ hpage => hpage)
  · obtain ⟨⟨hheld, hready⟩, hcode, hflag⟩ := hs
    have hcopy := (hready ⟨hflag, of_decide_eq_true hsize⟩).2
    rw [hcode] at hcopy
    exact ⟨⟨hheld.1, hheld.2, hcode⟩, hflag, hfits _ hcopy⟩
  · exact ⟨hs.1.1, hs.2.2, trivial⟩

/-- The outline of the match branch. -/
theorem closes_matchReply :
    ReplyOutline (Arrived (·.event = .sendMatch)) matchReply (Busy Initialised Anywhere) := by
  have hset : ReplyOutline (Busy (fun e => Initialised e ∧ e.event = .sendMatch) Anywhere)
      (.act (setLocalEvent .sendSave)) (Busy (Calls .matchCallBack) Anywhere) :=
    busy_setLocalEvent anchored_anywhere fun e he => calls_setEvent (he.1 _ (by rw [he.2]; rfl))
      fun _ h => Option.some.inj h
  have hbrand : ReplyOutline (Busy (fun e => Initialised e ∧ e.event = .sendMatch) Anywhere)
      (.act storeBrandCode) (Busy (fun e => Initialised e ∧ e.event = .sendMatch) Anywhere) :=
    busy_act anchored_anywhere (fun _ hs => hs.1.1) (fun _ hs => hs.1.2) (fun _ => rfl) (fun _ => rfl)
      (Cmd.emits_modify _)
  have hback : ReplyOutline (Busy (Calls .matchCallBack) Anywhere) (.block [.act writeBack])
      (Busy Initialised Anywhere) :=
    .seq (busy_writeBack anchored_anywhere fun _ he => he.1)
      (busy_done anchored_anywhere (fun _ he => he.1) fun _ h => h)
  refine arrived_sized (fun _ _ => trivial) (.seq (busy_copyReply anchored_anywhere)
    (.branch ?_ (busy_done anchored_anywhere (fun _ he => he.1) fun _ h => h)))
  apply Stmt.Watched.seq hbrand
  apply Stmt.Watched.seq hset
  apply Stmt.Watched.seq (busy_invoke anchored_anywhere (by decide))
  exact hback

/-- The outline of the save branch. -/
theorem closes_saveReply :
    ReplyOutline (Arrived (·.event = .sendSave)) saveReply (Busy Initialised Anywhere) := by
  have hset : ReplyOutline (Busy (fun e => Initialised e ∧ e.event = .sendSave) (· = onekeyMatchPage))
      (.act (setLocalEvent .null)) (Busy (Calls .matchCallBack) (· = onekeyMatchPage)) :=
    busy_setLocalEvent anchored_match fun e he => calls_setEvent (he.1 _ (by rw [he.2]; rfl))
      fun _ h => by cases h
  apply arrived_sized fun _ h => h
  apply Stmt.Watched.seq hset
  apply Stmt.Watched.seq
  · exact busy_invokeSaved anchored_match fun e page he hpage => .inl ⟨he.2, hpage⟩
  · exact .seq (busy_writeBack anchored_anywhere fun _ he => he.1)
      (busy_done anchored_anywhere (fun _ he => he.1) fun _ h => h)

/-- The outline of a learn branch. -/
theorem closes_learnReply {code : EventCode} {result : U8}
    (hcode : wanted code = some .learnCallBack) (hfits : ∀ page, Fits code page → OnLearn page)
    (hresult : result ≠ infraredEventSaveOk) :
    ReplyOutline (Arrived (·.event = code)) (learnReply code result) (Busy Initialised Anywhere) := by
  have hset : ReplyOutline (Busy (fun e => Initialised e ∧ e.event = code) OnLearn)
      (.act (setLocalEvent .null)) (Busy (Calls .learnCallBack) OnLearn) :=
    busy_setLocalEvent anchored_learn fun e he => calls_setEvent (he.1 _ (by rw [he.2, hcode]))
      fun _ h => by cases h
  have hpop : ReplyOutline (Busy (Calls .learnCallBack) OnLearn) (.act pageReturn)
      (Busy (Calls .learnCallBack) Anywhere) :=
    busy_pageReturn anchored_learn fun e page he hpage => .inr ⟨he.2, hpage⟩
  refine arrived_sized hfits (.seq (busy_copyReply anchored_learn) (.branch ?_ (.branch ?_
    (busy_done anchored_learn (fun _ he => he.1) fun _ _ => trivial))))
  · exact .seq (busy_invoke anchored_learn hresult)
      (.seq (busy_writeBack anchored_learn fun _ he => he.1)
        (busy_done anchored_learn (fun _ he => he.1) fun _ _ => trivial))
  · exact .seq hset (.seq (busy_writeBack anchored_learn fun _ he => he.1)
      (.seq hpop (busy_done anchored_anywhere (fun _ he => he.1) fun _ h => h)))

/-- A `case` label while a reply is waiting. -/
theorem arrived_case {code : EventCode} {p q : FwStmt}
    (hp : ReplyOutline (Arrived (·.event = code)) p (Busy Initialised Anywhere))
    (hq : ReplyOutline (Arrived fun _ => True) q (Busy Initialised Anywhere)) :
    ReplyOutline (Arrived fun _ => True) (.ite (handles code) p q) (Busy Initialised Anywhere) :=
  .ite (arrived_stable _) (fun _ hs htest => ⟨hs.1, of_decide_eq_true htest, hs.2.2⟩)
    (fun _ hs _ => hs) hp hq

/-- The outline of the reply branch. -/
theorem closes_uart2Replies : ReplyOutline Open uart2Replies Open := by
  have hdone : ReplyOutline (Arrived fun _ => True) .skip (Busy Initialised Anywhere) :=
    .done (arrived_stable _) fun _ hs => ⟨hs.1.1, hs.2.2, trivial⟩
  have hhandle : ReplyOutline (Arrived fun _ => True) handleReply (Busy Initialised Anywhere) := by
    apply arrived_case closes_matchReply
    apply arrived_case closes_saveReply
    refine arrived_case (closes_learnReply rfl (fun _ h => h) (by decide)) ?_
    exact arrived_case (closes_learnReply rfl (fun _ h => h) (by decide)) hdone
  refine .ite open_stable (fun _ hs htest => ⟨hs, trivial, htest⟩) (fun _ hs _ => hs)
    (.seq hhandle ?_) (.done open_stable fun _ hs => hs)
  -- the flag is cleared, so whatever the replies left is no reply in the slot
  exact .act (busy_stable anchored_anywhere) open_stable
    (fun s hs => ⟨hs.1, fun hwaiting => absurd hwaiting.1 Bool.false_ne_true⟩)
    fun _ _ _ ho => absurd ho List.not_mem_nil

/-- The outline of an iteration. -/
theorem closes_uartIteration (id : U32) (pin : U8) (heap : Heap) :
    ReplyOutline Open (uartIteration id pin heap) Open := by
  have hact : ∀ {c : FwCmd}, KeepsOpen c → ReplyOutline Open (.act c) Open := fun h =>
    .of_all open_stable h
  have htimers : Aside timers := ⟨fun _ => rfl, Cmd.emits_modify _⟩
  have hio : Aside (checkIo pin) := .of_incidental (incidental_checkIo pin) (oled_checkIo pin)
    (kinds_checkIo closesNone_uart2Tx pin)
  apply Stmt.Watched.seq (hact htimers.keepsOpen)
  apply Stmt.Watched.seq (hact hio.keepsOpen)
  apply Stmt.Watched.seq (hact (aside_pollUart1 id heap).keepsOpen)
  apply Stmt.Watched.seq closes_uart2Replies
  exact .of_all open_stable (keepsOpen_afterReplies id)

/-! ## Every timely interleaving -/

/-- The invariant of the interleaved system: an outline of what remains of the iteration, whose
assertion holds now. -/
def ReplyOutlined (t : Threads) : Prop := ∃ P, ReplyOutline P t.rest Open ∧ P t.fw

/-- An input in time. -/
def TimelyInput (t : Threads) : ThreadInput → Prop
  | .peer p => Timely t.fw p
  | _ => True

instance (t : Threads) : (i : ThreadInput) → Decidable (TimelyInput t i)
  | .peer p => inferInstanceAs (Decidable (Timely t.fw p))
  | .start _ _ | .action => inferInstanceAs (Decidable True)

/-- A step in time keeps the invariant, and closes no other page. -/
theorem ReplyOutlined.step {t : Threads} (h : ReplyOutlined t) (chip : Chip) {i : ThreadInput}
    (htimely : TimelyInput t i) :
    ReplyOutlined (threads chip i t).1 ∧
      (i = .action → ∀ o ∈ (threads chip i t).2, ClosesOwn t.fw o) := by
  obtain ⟨P, hout, hP⟩ := h
  cases i with
  | peer p =>
    refine ⟨⟨P, hout, hout.stable _ _ ⟨p, htimely, rfl⟩ hP⟩, fun h => by cases h⟩
  | start pin heap =>
    refine ⟨?_, fun h => by cases h⟩
    rcases threads_start chip pin heap t with ⟨hrest, hstart⟩ | hstart
    · rw [hrest] at hout
      rw [hstart]
      exact ⟨Open, closes_uartIteration (readUniqueId chip) pin heap, hout.post hP⟩
    · rw [hstart]
      exact ⟨P, hout, hP⟩
  | action =>
    obtain ⟨hobs, hnext⟩ := hout.next hP
    exact ⟨hnext, fun _ => hobs⟩

/-- After power-on no reply is in the slot. -/
theorem replyOutlined_boot (flash : FlashPage) (beyond : Vector U8 10) :
    ReplyOutlined ⟨boot flash beyond, .skip⟩ :=
  ⟨Open, .done open_stable fun _ hs => hs, ⟨initialised_zero, initialised_zero⟩,
    fun hwaiting => absurd hwaiting.1 Bool.false_ne_true⟩

/-- **A reply closes only the page that started its exchange.** In every interleaving of the interrupt
handlers, the buttons, the display and the actions of the serial task in which no match or learn page
is left while a reply is in the slot, and a reply of seven bytes to a save or learn event comes only
while the page of that event is on top: when the serial task closes a page, the page on top is the
match page in an exchange with `matchCallBack`, and a learn page in one with `learnCallBack`.
SOURCE: Uart.c:295-381, OledPage.c:315-373, Oled1309.c:86-126 -/
theorem reply_closes_own (chip : Chip) (flash : FlashPage) (beyond : Vector U8 10)
    (inputs : List ThreadInput)
    (h : Along (threads chip) ⟨boot flash beyond, .skip⟩ inputs fun _ => TimelyInput) :
    Along (threads chip) ⟨boot flash beyond, .skip⟩ inputs fun _ t i =>
      i = .action → ∀ pageInfor, .pageReturn pageInfor ∈ (threads chip i t).2 →
        pageInfor = t.fw.oled.pageInfor ∧ Owns t.fw.task.infraredEvent.callBack t.fw.oled.page := by
  refine along_of_invariant (fun _ t => ReplyOutlined t) (fun _ => TimelyInput) _
    (replyOutlined_boot flash beyond) (fun _ i hout htimely => (hout.step chip htimely).1) ?_ h
  intro before i hout htimely hi pageInfor ho
  exact (hout.step chip htimely).2 hi _ ho _ rfl

/-- Iterations of the serial task that nobody interrupts. -/
def alone (n : ℕ) : List ThreadInput :=
  (List.replicate n (.start 1 Heap.ample :: List.replicate 65 .action)).flatten

/-- From power-on to the match page, over the tick that sends the match command, to the iteration that
handles the reply to it: from here the save command is out. -/
def toSaving : List ThreadInput :=
  [.peer .oledIteration, .peer (.enterBtn .shortPress), .peer .oledIteration, .peer .oledIteration,
    .peer (.dowmBtn .shortPress), .peer (.enterBtn .shortPress), .peer .oledIteration,
    .peer .oledIteration] ++ alone 21 ++
    [.peer (.uart2Burst [0xAA, 0x55, 0x04, 0x41, 0x00, 0x24, 0x9E])] ++ alone 1

/-- The reply that the code has been saved. -/
def savedReply : List U8 := [0xAA, 0x55, 0x04, 0x40, 0x00, 0x01, 0xBA]

set_option maxRecDepth 20000 in
/-- With nothing in between, the reply to the save command closes the match page. -/
theorem reply_closes_match :
    let t := run (threads ⟨0, 0, 0⟩) ⟨boot (Vector.replicate 12 0xFF) (Vector.replicate 10 0), .skip⟩
      (toSaving ++ .peer (.uart2Burst savedReply) :: .start 1 Heap.ample ::
        List.replicate 15 .action)
    .pageReturn t.fw.oled.pageInfor ∈ (threads ⟨0, 0, 0⟩ .action t).2 ∧
      Owns t.fw.task.infraredEvent.callBack t.fw.oled.page := by
  intro t
  have hpop : .pageReturn t.fw.oled.pageInfor ∈ (threads ⟨0, 0, 0⟩ .action t).2 := by decide +kernel
  have hrun := reply_closes_own ⟨0, 0, 0⟩ (Vector.replicate 12 0xFF) (Vector.replicate 10 0)
    ((toSaving ++ .peer (.uart2Burst savedReply) :: .start 1 Heap.ample ::
      List.replicate 15 .action) ++ [.action]) (by decide +kernel)
  exact ⟨hpop, ((along_concat.mp hrun).2 rfl _ hpop).2⟩

set_option maxRecDepth 20000 in
/-- After a long press on the match page, and before the tick that would see it, the reply to the save
command closes the setting menu as well. -/
theorem reply_closes_setting :
    let t₀ : Threads := ⟨boot (Vector.replicate 12 0xFF) (Vector.replicate 10 0), .skip⟩
    let before := toSaving ++ .peer (.enterBtn .longPress) :: .peer (.uart2Burst savedReply) ::
      .start 1 Heap.ample :: List.replicate 15 .action
    let t := run (threads ⟨0, 0, 0⟩) t₀ before
    (run (threads ⟨0, 0, 0⟩) t₀ toSaving).fw.oled.page = onekeyMatchPage ∧
      .pageReturn t.fw.oled.pageInfor ∈ (threads ⟨0, 0, 0⟩ .action t).2 ∧
      t.fw.task.infraredEvent.callBack = .matchCallBack ∧ t.fw.oled.page = settingPage ∧
      ¬ Along (threads ⟨0, 0, 0⟩) t₀ (before ++ [.action]) fun _ t i =>
        i = .action → ∀ pageInfor, .pageReturn pageInfor ∈ (threads ⟨0, 0, 0⟩ i t).2 →
          pageInfor = t.fw.oled.pageInfor ∧
            Owns t.fw.task.infraredEvent.callBack t.fw.oled.page := by
  intro t₀ before t
  have hpop : .pageReturn t.fw.oled.pageInfor ∈ (threads ⟨0, 0, 0⟩ .action t).2 := by decide +kernel
  have hpage : t.fw.oled.page = settingPage := by decide +kernel
  refine ⟨by decide +kernel, hpop, by decide +kernel, hpage, fun halong => ?_⟩
  have howns := ((along_concat.mp halong).2 rfl _ hpop).2
  rw [show (run (threads ⟨0, 0, 0⟩) t₀ before).fw.oled.page = settingPage from hpage] at howns
  rcases howns with ⟨-, hno⟩ | ⟨-, hno | hno⟩
  · exact absurd hno (by decide)
  · exact absurd hno (by decide)
  · exact absurd hno (by decide)

/-! ## Which replies are acted on -/

/-- A frame of the chip: seven bytes behind the start code, the last one the exclusive or of the
others.
SOURCE: Uart.h:40-64, main.c:184-195 -/
def ValidReply (frame : List U8) : Prop :=
  frame.length = 7 ∧ byteAt frame 0 = 0xAA ∧ byteAt frame 1 = 0x55 ∧ checkResult frame 7 = 0

instance (frame : List U8) : Decidable (ValidReply frame) := inferInstanceAs (Decidable (_ ∧ _))

/-- What a reply may change: the brand code, the event in both its places and the page stack. -/
def answered (s : Firmware) : U16 × InfraredEvent × InfraredEvent × U32 :=
  (s.moduleInfo.brandCode, s.infraredEvent, s.task.infraredEvent, s.oled.pageInfor)

/-- A reply changes something only when it is a frame of the chip. -/
def ActsOnValid (chip : Chip) (s : Firmware) : Input → Prop
  | .iteration pin heap =>
    let t := atReplies (readUniqueId chip) pin heap s
    answered (uart2Replies.exec t).1 ≠ answered t → ValidReply t.uart2Msg.frame
  | .peer _ => True

/-- A burst that the branch of the task's event will accept is a frame of the chip. -/
def SendsValid (s : Firmware) : Input → Prop
  | .peer (.uart2Burst bytes) => WritesBack (uart2Input bytes s) → ValidReply bytes
  | _ => True

instance (s : Firmware) : (i : Input) → Decidable (SendsValid s i)
  | .peer (.uart2Burst _) => inferInstanceAs (Decidable (_ → _))
  | .peer (.uart1Burst _) | .peer (.enterBtn _) | .peer (.upBtn _) | .peer (.dowmBtn _)
  | .peer .oledIteration | .iteration _ _ => inferInstanceAs (Decidable True)

/-- The slot after a burst from the chip. -/
theorem uart2Msg_uart2Input (bytes : List U8) (s : Firmware) :
    (uart2Input bytes s).uart2Msg.frame = bytes ∧
      (uart2Input bytes s).uart2Msg.size = bytes.length := by
  simp only [uart2Input]
  split <;> exact ⟨List.take_left, rfl⟩

section Unaccepted

variable {s : Firmware}

/-- A reply that the match branch does not accept changes nothing. -/
theorem answered_matchReply
    (h : ¬ (s.uart2Msg.size = 7 ∧ isMatchReply (s.uart2Msg.data.take 7) = true)) :
    answered (matchReply.exec s).1 = answered s := by
  have hrecv : (copyReply s).1.task.recv = s.uart2Msg.data.take 7 := rfl
  simp only [matchReply, Stmt.exec_when, Stmt.exec_seq, Stmt.exec_act, Cmd.andThen_apply, replySized,
    decide_eq_true_eq]
  split
  · rename_i hsize
    rw [hrecv, if_neg fun hmatch => h ⟨hsize, hmatch⟩]
    rfl
  · rfl

/-- A reply that the save branch does not accept changes nothing. -/
theorem answered_saveReply (h : s.uart2Msg.size ≠ 7) : answered (saveReply.exec s).1 = answered s := by
  simp only [saveReply, Stmt.exec_when, replySized, decide_eq_true_eq]
  rw [if_neg h]

/-- A reply that a learn branch does not accept changes nothing. -/
theorem answered_learnReply (code : EventCode) (result : U8) (h : ¬ (s.uart2Msg.size = 7 ∧
      (byteAt (s.uart2Msg.data.take 7) 5 = 1 ∨ byteAt (s.uart2Msg.data.take 7) 5 = 3))) :
    answered ((learnReply code result).exec s).1 = answered s := by
  have hrecv : (copyReply s).1.task.recv = s.uart2Msg.data.take 7 := rfl
  simp only [learnReply, Stmt.exec_when, Stmt.exec_ite, Stmt.exec_seq, Stmt.exec_act,
    Cmd.andThen_apply, replySized, decide_eq_true_eq]
  split
  · rename_i hsize
    rw [hrecv, if_neg fun hone => h ⟨hsize, .inl hone⟩, if_neg fun hthree => h ⟨hsize, .inr hthree⟩]
    rfl
  · rfl

/-- A reply that no branch accepts changes nothing. -/
theorem answered_handleReply (hflag : s.uart2Msg.messageFlag = true) (h : ¬ WritesBack s) :
    answered (handleReply.exec s).1 = answered s := by
  rw [exec_handleReply]
  cases hevent : s.task.infraredEvent.event with
  | sendMatch =>
    simp only [WritesBack, hflag, hevent, true_and] at h
    exact answered_matchReply h
  | sendSave =>
    simp only [WritesBack, hflag, hevent, true_and, and_true] at h
    exact answered_saveReply h
  | sendLearnModeOn | sendLearnModeOff =>
    simp only [WritesBack, hflag, hevent, true_and] at h
    exact answered_learnReply _ _ h
  | _ => rfl

/-- A reply that no branch accepts changes nothing. -/
theorem answered_uart2Replies (h : ¬ WritesBack s) : answered (uart2Replies.exec s).1 = answered s := by
  rw [uart2Replies, Stmt.exec_when]
  split
  case isTrue hflag => exact answered_handleReply hflag h
  case isFalse => rfl

end Unaccepted

/-- An iteration leaves the slot of the chip empty. -/
theorem replyFlag_iteration (chip : Chip) (pin : U8) (heap : Heap) (s : Firmware) :
    (firmware chip (.iteration pin heap) s).1.uart2Msg.messageFlag = false := by
  have hreplies : ∀ t : Firmware, (uart2Replies.exec t).1.uart2Msg.messageFlag = false := by
    intro t
    rw [uart2Replies, Stmt.exec_when]
    split
    case isTrue => rfl
    case isFalse hflag => exact Bool.eq_false_iff.mpr hflag
  have hsave : Cmd.Keeps Firmware.uart2Msg saveFlash := keeps_saveFlash fun _ _ _ => rfl
  have hafter : Cmd.Keeps Firmware.uart2Msg (afterSave (readUniqueId chip)).exec :=
    Stmt.keeps_exec (all_afterSave _ (fun c hc t => congrArg Vital.uart2Msg (hc.keeps t))
      (fun _ => rfl) (fun _ => rfl) (fun _ => rfl) fun _ => rfl)
  show ((uartIteration (readUniqueId chip) pin heap).exec s).1.uart2Msg.messageFlag = false
  rw [exec_uartIteration, Cmd.andThen_apply]
  dsimp only
  rw [(hsave.andThen hafter) _]
  exact hreplies _

/-- The invariant: a reply that will be accepted is a frame of the chip. -/
def HoldsValid (s : Firmware) : Prop := WritesBack s → ValidReply s.uart2Msg.frame

/-- A step that sends a valid reply keeps the invariant. -/
theorem HoldsValid.step {s : Firmware} (h : HoldsValid s) (chip : Chip) {i : Input}
    (hvalid : SendsValid s i) : HoldsValid (firmware chip i s).1 := by
  intro hwrites
  cases i with
  | iteration pin heap =>
    exact absurd (hwrites.1.symm.trans (replyFlag_iteration chip pin heap s)) (by decide)
  | peer p =>
    rcases replySlot_peer p s with ⟨bytes, rfl, -⟩ | hslot
    · show ValidReply (uart2Input bytes s).uart2Msg.frame
      rw [(uart2Msg_uart2Input bytes s).1]
      exact hvalid hwrites
    · show ValidReply (peerStep p s).1.uart2Msg.frame
      rw [hslot]
      exact h ((writesBack_congr hslot (event_peer p s).1).mp hwrites)

/-- **Replies are checked before use.** In every run in which each burst of the chip that a branch will
accept is a frame with its start code and its check byte, the brand code, the infrared event and the
page stack are changed by such frames only.
SOURCE: Uart.c:115-130, 295-381 -/
theorem reply_validated (chip : Chip) (flash : FlashPage) (beyond : Vector U8 10)
    (inputs : List Input)
    (h : Along (firmware chip) (boot flash beyond) inputs fun _ => SendsValid) :
    Along (firmware chip) (boot flash beyond) inputs fun _ => ActsOnValid chip := by
  refine along_of_invariant (fun _ s => HoldsValid s) (fun _ => SendsValid) _
    (fun hwrites => absurd hwrites.1 Bool.false_ne_true) (fun _ i hs hi => hs.step chip hi) ?_ h
  intro before i hs _
  cases i with
  | peer p => trivial
  | iteration pin heap =>
    intro hchanges
    obtain ⟨hslot, hcopy, -⟩ := atReplies_fields (readUniqueId chip) pin heap
      (run (firmware chip) (boot flash beyond) before)
    rw [hslot]
    refine hs ((writesBack_congr hslot hcopy).mp ?_)
    by_contra hno
    exact hchanges (answered_uart2Replies hno)

/-- From power-on to the match page and over the tick that sends the match command. -/
def toMatching : List Input :=
  [.peer .oledIteration, .peer (.enterBtn .shortPress), .peer .oledIteration, .peer .oledIteration,
    .peer (.dowmBtn .shortPress), .peer (.enterBtn .shortPress), .peer .oledIteration,
    .peer .oledIteration] ++ List.replicate 21 (.iteration 1 Heap.ample)

/-- A match reply with its check byte is acted on. -/
theorem reply_validated_match :
    let before := toMatching ++ [.peer (.uart2Burst [0xAA, 0x55, 0x04, 0x41, 0x00, 0x24, 0x9E])]
    let t := atReplies (readUniqueId ⟨0, 0, 0⟩) 1 Heap.ample (run (firmware ⟨0, 0, 0⟩)
      (boot (Vector.replicate 12 0xFF) (Vector.replicate 10 0)) before)
    (uart2Replies.exec t).1.moduleInfo.brandCode = 0x24 ∧ ValidReply t.uart2Msg.frame := by
  intro before t
  have hrun := reply_validated ⟨0, 0, 0⟩ (Vector.replicate 12 0xFF) (Vector.replicate 10 0)
    (before ++ [.iteration 1 Heap.ample]) (by decide +kernel)
  have hacts : ActsOnValid ⟨0, 0, 0⟩ (run (firmware ⟨0, 0, 0⟩)
      (boot (Vector.replicate 12 0xFF) (Vector.replicate 10 0)) before) (.iteration 1 Heap.ample) :=
    (along_concat.mp hrun).2
  exact ⟨by decide +kernel, hacts (by decide +kernel)⟩

/-- A match reply with a wrong check byte sets the brand code all the same. -/
theorem invalid_reply_acted_on :
    let before := toMatching ++ [.peer (.uart2Burst [0xAA, 0x55, 0x04, 0x41, 0x00, 0x24, 0x00])]
    let s := run (firmware ⟨0, 0, 0⟩) (boot (Vector.replicate 12 0xFF) (Vector.replicate 10 0)) before
    checkResult s.uart2Msg.frame 7 = 0x9E ∧
      (firmware ⟨0, 0, 0⟩ (.iteration 1 Heap.ample) s).1.moduleInfo.brandCode = 0x24 ∧
      ¬ Along (firmware ⟨0, 0, 0⟩) (boot (Vector.replicate 12 0xFF) (Vector.replicate 10 0))
        (before ++ [.iteration 1 Heap.ample]) fun _ => ActsOnValid ⟨0, 0, 0⟩ := by
  intro before s
  refine ⟨by decide +kernel, by decide +kernel, fun halong => ?_⟩
  have hacts : ActsOnValid ⟨0, 0, 0⟩ s (.iteration 1 Heap.ample) := (along_concat.mp halong).2
  have hvalid := hacts (by decide +kernel)
  exact absurd hvalid (by decide +kernel)

/-! ## When a save is reported -/

/-- The reply that says that the code was saved. -/
def SaysSaved (reply : List U8) : Prop := byteAt reply 3 = 0x40 ∧ byteAt reply 5 = codeRecvSuccess

instance (reply : List U8) : Decidable (SaysSaved reply) := inferInstanceAs (Decidable (_ ∧ _))

/-- The save command is out: by the shared event or by the task's copy of it. -/
def SavePending (s : Firmware) : Prop :=
  s.infraredEvent.event = .sendSave ∨ s.task.infraredEvent.event = .sendSave

/-- The next iteration reports a save and ends the exchange. -/
def EndsSaved (chip : Chip) (pin : U8) (heap : Heap) (s : Firmware) : Prop :=
  .callBack .matchCallBack .sendSave infraredEventSaveOk ∈ (firmware chip (.iteration pin heap) s).2 ∧
    (beforeSave (readUniqueId chip) pin heap s).1.infraredEvent.event = .null

/-- The shared event holds a save only with the task's copy. -/
def Together (s : Firmware) : Prop :=
  s.infraredEvent.event = .sendSave → s.task.infraredEvent.event = .sendSave

/-- Where cell and copy agree, they hold a save together. -/
theorem together_of_eq {s : Firmware} (h : s.infraredEvent = s.task.infraredEvent) : Together s :=
  fun hcell => h ▸ hcell

/-- Whether a save is held together depends on the cell and the copy only. -/
theorem together_congr {s t : Firmware} (hcell : t.infraredEvent = s.infraredEvent)
    (hcopy : t.task.infraredEvent = s.task.infraredEvent) (h : Together s) : Together t := by
  rw [Together, hcell, hcopy]
  exact h

/-- Incidental code keeps a save together. -/
theorem Incidental.together {c : FwCmd} (hc : Incidental c) {s : Firmware} (h : Together s) :
    Together (c s).1 :=
  together_congr (congrArg Vital.cell (hc.keeps s)) (congrArg Vital.copy (hc.keeps s)) h

/-- A branch that accepts a reply ends with the copy written back. -/
theorem together_handleReply {s : Firmware} (h : Together s) : Together (handleReply.exec s).1 := by
  have hmatch : Together (matchReply.exec s).1 := by
    simp only [matchReply, Stmt.exec_when, Stmt.exec_seq, Stmt.exec_act, Cmd.andThen_apply]
    split
    · split
      · exact together_of_eq rfl
      · exact incidental_copyReply.together h
    · exact h
  have hsave : Together (saveReply.exec s).1 := by
    simp only [saveReply, Stmt.exec_when]
    split
    · exact together_of_eq rfl
    · exact h
  have hlearn : ∀ code result, Together ((learnReply code result).exec s).1 := by
    intro code result
    simp only [learnReply, Stmt.exec_when, Stmt.exec_ite, Stmt.exec_seq, Stmt.exec_act,
      Cmd.andThen_apply]
    split
    · split
      · exact together_of_eq rfl
      · split
        · exact together_of_eq rfl
        · exact incidental_copyReply.together h
    · exact h
  rw [exec_handleReply]
  split
  · exact hmatch
  · exact hsave
  · exact hlearn _ _
  · exact hlearn _ _
  · exact h

/-- The reply branch keeps a save together. -/
theorem together_uart2Replies {s : Firmware} (h : Together s) : Together (uart2Replies.exec s).1 := by
  rw [uart2Replies, Stmt.exec_when]
  split
  · exact together_handleReply h
  · exact h

/-- A tick samples the shared event, and ends with the copy written back or untouched. -/
theorem together_tick1s (id : U32) {s : Firmware} (h : Together s) : Together ((tick1s id).exec s).1 := by
  have hdispatch : Together (dispatchEvent.exec (sampleEvents s).1).1 := by
    rw [state_dispatchEvent]
    rcases sendEvent_cases (sampleEvents s).1 with ⟨-, hstate⟩ | ⟨-, hstate⟩ | ⟨-, hstate | hstate⟩
    · rw [hstate]
      exact together_of_eq rfl
    · rw [hstate]
      exact together_of_eq rfl
    · rw [hstate]
      exact together_of_eq rfl
    · rw [hstate]
      exact together_of_eq rfl
  rw [exec_tick1s]
  split
  · simp only [toSend, Cmd.andThen_apply]
    refine incidental_sendThreeTimes.together (incidental_monitorConnect.together ?_)
    exact (incidental_startRegister id).together (incidental_lights.together hdispatch)
  · exact h

/-- An iteration up to its tick keeps a save together. -/
theorem together_toTick (id : U32) (pin : U8) (heap : Heap) {s : Firmware} (h : Together s) :
    Together (toTick id pin heap s).1 := by
  obtain ⟨-, hcopy, hcell, -⟩ := atReplies_fields id pin heap s
  have hreplies : Together (uart2Replies.exec (atReplies id pin heap s)).1 :=
    together_uart2Replies (together_congr hcell hcopy h)
  simp only [toTick, Cmd.andThen_apply]
  have hkept := aside_saveFlash.keeps (uart2Replies.exec (atReplies id pin heap s)).1
  apply incidental_tick100ms.together
  exact together_congr (congrArg Prod.fst hkept) (congrArg (fun e => e.2.1) hkept) hreplies

/-- A long press posts no save. -/
theorem Posted.not_save {e : InfraredEvent} (h : Posted e) : e.event ≠ .sendSave := by
  cases h with
  | page hshown => cases hshown <;> decide
  | longPress hover => rcases isOver_of_overEvent hover with rfl | rfl | rfl <;> decide

/-- After every run a save is held together. -/
theorem together_run (chip : Chip) (flash : FlashPage) (beyond : Vector U8 10) (inputs : List Input) :
    Together (run (firmware chip) (boot flash beyond) inputs) := by
  refine run_invariant (fun _ s => Together s) (fun _ _ _ => True) (fun h => by cases h)
    (fun before i hs _ => ?_) fun _ _ _ _ => trivial
  generalize run (firmware chip) (boot flash beyond) before = s at hs ⊢
  cases i with
  | peer p =>
    obtain ⟨hcopy, ⟨hcell, -⟩ | ⟨hposted, -⟩⟩ := event_peer p s
    · exact together_congr hcell hcopy hs
    · exact fun hcell => absurd hcell hposted.not_save
  | iteration pin heap =>
    rw [firmware_toTick]
    simp only [Cmd.andThen_apply]
    exact (incidental_tick10s _).together (incidental_tick5s.together
      (together_tick1s _ (together_toTick _ pin heap hs)))

/-- In every reachable state both places of the event are initialised. -/
theorem held_run (chip : Chip) (flash : FlashPage) (beyond : Vector U8 10) (inputs : List Input) :
    Held Initialised (run (firmware chip) (boot flash beyond) inputs) := by
  refine run_invariant (fun _ s => Held Initialised s) (fun _ _ _ => True)
    ⟨initialised_zero, initialised_zero⟩ (fun before i hs _ => ?_) fun _ _ _ _ => trivial
  cases i with
  | peer p => exact held_stable _ _ _ ⟨p, rfl⟩ hs
  | iteration pin heap => exact ((outline_uartIteration _ pin heap).exec hs).1

/-- Without another burst the slot and the task's copy stay as they are. -/
theorem replySlot_peers (chip : Chip) {between : List Peer}
    (h : ∀ p ∈ between, ∀ bytes, p ≠ .uart2Burst bytes) (s : Firmware) :
    (run (firmware chip) s (between.map .peer)).uart2Msg = s.uart2Msg ∧
      (run (firmware chip) s (between.map .peer)).task.infraredEvent = s.task.infraredEvent := by
  induction between generalizing s with
  | nil => exact ⟨rfl, rfl⟩
  | cons p between ih =>
    obtain ⟨hslot, hcopy⟩ := ih (fun q hq => h q (List.mem_cons_of_mem p hq)) (peerStep p s).1
    rw [List.map_cons, run_cons]
    refine ⟨hslot.trans ?_, hcopy.trans (event_peer p s).1⟩
    rcases replySlot_peer p s with ⟨bytes, hp, -⟩ | hsame
    · exact absurd hp (h p List.mem_cons_self bytes)
    · exact hsame

/-- A reply of seven bytes with the start code waits. -/
theorem waiting_uart2Input {reply : List U8} (hsize : reply.length = 7)
    (hstart : byteAt reply 0 = 0xAA ∧ byteAt reply 1 = 0x55) (s : Firmware) :
    Waiting (uart2Input reply s) := by
  have hbyte : ∀ i < 7, byteAt (s.uart2Msg.receive reply).data i = byteAt reply i := fun i hi =>
    byteAt_append_left (hsize.symm ▸ hi)
  have hcond : reply.length > 2 ∧ byteAt (s.uart2Msg.receive reply).data 0 = 0xAA ∧
      byteAt (s.uart2Msg.receive reply).data 1 = 0x55 := by
    rw [hbyte 0 (by decide), hbyte 1 (by decide), hsize]
    exact ⟨by decide, hstart⟩
  refine ⟨?_, (uart2Msg_uart2Input reply s).2.trans hsize⟩
  simp only [uart2Input]
  rw [if_pos hcond]

/-- Whatever the reply to the save command says, it is reported as saved. -/
theorem uart2Replies_save {s : Firmware} (hwaiting : Waiting s)
    (hevent : s.task.infraredEvent.event = .sendSave) :
    .callBack s.task.infraredEvent.callBack .sendSave infraredEventSaveOk ∈ (uart2Replies.exec s).2 ∧
      (uart2Replies.exec s).1.infraredEvent.event = .null := by
  have hhandle : handleReply.exec s = saveReply.exec s := by rw [exec_handleReply, hevent]
  have hcell := cell_saveReply s
  rw [if_pos hwaiting.2] at hcell
  rw [uart2Replies, Stmt.exec_when, if_pos hwaiting.1, Stmt.exec_seq, Cmd.andThen_apply, hhandle]
  refine ⟨List.mem_append_left _ ?_, congrArg InfraredEvent.event hcell⟩
  have hsized : replySized s = true := decide_eq_true hwaiting.2
  rw [saveReply, Stmt.exec_when, if_pos hsized]
  exact List.mem_append_right _ (List.mem_append_left _ (List.mem_append_left _
    (List.mem_singleton_self _)))

/-- What is observed on the replies is observed in the iteration. -/
theorem mem_iteration {chip : Chip} {pin : U8} {heap : Heap} {s : Firmware} {o : Obs}
    (h : o ∈ (uart2Replies.exec (atReplies (readUniqueId chip) pin heap s)).2) :
    o ∈ (firmware chip (.iteration pin heap) s).2 := by
  show o ∈ ((uartIteration (readUniqueId chip) pin heap).exec s).2
  rw [exec_uartIteration]
  refine List.mem_append_left _ (List.mem_append_right _ ?_)
  exact List.mem_append_right _ (List.mem_append_right _ h)

/-- **When a save is reported rightly.** In every reachable state with the save command out, a reply of
seven bytes that the receive callback accepts is reported as saved and ends the exchange. So that
happens only for a reply that says so just when the reply does: command `0x40`, state code success.
SOURCE: Uart.c:326-335, infrared.c:287-320 -/
theorem saved_iff (chip : Chip) (flash : FlashPage) (beyond : Vector U8 10) (inputs : List Input)
    (hpending : SavePending (run (firmware chip) (boot flash beyond) inputs)) (reply : List U8) (hsize : reply.length = 7)
    (hstart : byteAt reply 0 = 0xAA ∧ byteAt reply 1 = 0x55) (between : List Peer)
    (hbetween : ∀ p ∈ between, ∀ bytes, p ≠ .uart2Burst bytes) (pin : U8) (heap : Heap) :
    (EndsSaved chip pin heap (run (firmware chip) (boot flash beyond)
      (inputs ++ .peer (.uart2Burst reply) :: between.map .peer)) → SaysSaved reply) ↔
      SaysSaved reply := by
  set s := run (firmware chip) (boot flash beyond)
    (inputs ++ .peer (.uart2Burst reply) :: between.map .peer) with hs
  have hheld : Held Initialised s := held_run chip flash beyond _
  rw [run_append, run_cons] at hs
  set s₀ := run (firmware chip) (boot flash beyond) inputs
  obtain ⟨hslot, hcopy⟩ := replySlot_peers chip hbetween (uart2Input reply s₀)
  have hs' : s = run (firmware chip) (uart2Input reply s₀) (between.map .peer) := hs
  rw [← hs'] at hslot hcopy
  have hsave : s₀.task.infraredEvent.event = .sendSave :=
    hpending.elim (together_run chip flash beyond inputs) id
  have hevent : s.task.infraredEvent.event = .sendSave := by
    rw [hcopy, ← hsave]
    exact congrArg InfraredEvent.event (event_peer (.uart2Burst reply) s₀).1
  have hwaiting : Waiting s := by
    rw [Waiting, hslot]
    exact waiting_uart2Input hsize hstart s₀
  obtain ⟨hslot', hcopy', -⟩ := atReplies_fields (readUniqueId chip) pin heap s
  obtain ⟨hcall, hnull⟩ := uart2Replies_save (s := atReplies (readUniqueId chip) pin heap s)
    (by rw [Waiting, hslot']; exact hwaiting) (by rw [hcopy']; exact hevent)
  rw [hcopy', hheld.2 .matchCallBack (by rw [hevent]; rfl)] at hcall
  exact ⟨fun h => h ⟨mem_iteration hcall, hnull⟩, fun h _ => h⟩

/-- From power-on to the state in which the save command is out. -/
def saving : List Input :=
  toMatching ++ [.peer (.uart2Burst [0xAA, 0x55, 0x04, 0x41, 0x00, 0x24, 0x9E]),
    .iteration 1 Heap.ample]

/-- A reply of success is reported for what it is. -/
theorem saved_on_success :
    let s := run (firmware ⟨0, 0, 0⟩) (boot (Vector.replicate 12 0xFF) (Vector.replicate 10 0))
      (saving ++ [.peer (.uart2Burst savedReply)])
    EndsSaved ⟨0, 0, 0⟩ 1 Heap.ample s ∧ SaysSaved savedReply := by
  intro s
  have hends : EndsSaved ⟨0, 0, 0⟩ 1 Heap.ample s := ⟨by decide +kernel, by decide +kernel⟩
  have hiff := saved_iff ⟨0, 0, 0⟩ (Vector.replicate 12 0xFF) (Vector.replicate 10 0) saving
    (.inl (by decide +kernel)) savedReply rfl (by decide) [] (fun _ hp => absurd hp List.not_mem_nil) 1
    Heap.ample
  exact ⟨hends, hiff.mpr (by decide) hends⟩

/-- A reply of failure, and a late match reply, are reported as saved. -/
theorem saved_on_failure :
    let after := fun reply => run (firmware ⟨0, 0, 0⟩)
      (boot (Vector.replicate 12 0xFF) (Vector.replicate 10 0)) (saving ++ [.peer (.uart2Burst reply)])
    let failed := [0xAA, 0x55, 0x04, 0x40, 0x00, 0x00, 0xBB]
    let late := [0xAA, 0x55, 0x04, 0x41, 0x00, 0x24, 0x9E]
    ¬ (EndsSaved ⟨0, 0, 0⟩ 1 Heap.ample (after failed) → SaysSaved failed) ∧
      ¬ (EndsSaved ⟨0, 0, 0⟩ 1 Heap.ample (after late) → SaysSaved late) := by
  intro after failed late
  have hfailed : EndsSaved ⟨0, 0, 0⟩ 1 Heap.ample (after failed) :=
    ⟨by decide +kernel, by decide +kernel⟩
  have hlate : EndsSaved ⟨0, 0, 0⟩ 1 Heap.ample (after late) := ⟨by decide +kernel, by decide +kernel⟩
  exact ⟨fun h => absurd (h hfailed) (by decide), fun h => absurd (h hlate) (by decide)⟩

end InfraredModule.Analysis
