import InfraredModule.Analysis.InfraredEvents

/-!
# Does a long press reach the next tick?

A long press on the match page or on a learn page stores an event that ends the procedure. The
serial task looks at the shared event once a second. In between it may handle a reply of the
code-library chip, and then it stores its own copy of the event, taken at the last tick, over
what is there; and the display may store the event of a page it shows again.
`overEvent_sent_iff` says that these are the only ways the long press is lost, and that it is
always lost then.
-/

set_option autoImplicit false

namespace InfraredModule.Analysis

open InfraredModule.Foundation InfraredModule.Model

/-! ## Replies and the shared event -/

/-- The over events. -/
def IsOver (code : EventCode) : Prop :=
  code = .sendMatchOver ∨ code = .sendLearnOnOver ∨ code = .sendLearnOffOver

/-- The events of the test page. -/
def IsTest (code : EventCode) : Prop := code = .sendOnTest ∨ code = .sendOffTest

instance (code : EventCode) : Decidable (IsTest code) := inferInstanceAs (Decidable (_ ∨ _))

/-- The events a reply leaves in the shared cell. -/
def IsAnswer (code : EventCode) : Prop :=
  code = .null ∨ code = .sendSave ∨ code = .sendLearnModeOn ∨ code = .sendLearnModeOff

/-- A reply leaves no over event. -/
theorem IsAnswer.not_isOver {code : EventCode} (h : IsAnswer code) : ¬ IsOver code := by
  rcases h with rfl | rfl | rfl | rfl <;> simp [IsOver]

/-- A long press posts an over event. -/
theorem isOver_of_overEvent {info : U8} {code : EventCode} (h : overEvent info = some code) :
    IsOver code := by
  unfold overEvent at h
  repeat' split at h
  all_goals cases h
  · exact .inl rfl
  · exact .inr (.inl rfl)
  · exact .inr (.inr rfl)

/-- The reply in the slot takes a branch that writes the task's copy back: it has the right size,
and the branch of the copy's event accepts it. -/
def WritesBack (s : Firmware) : Prop :=
  s.uart2Msg.messageFlag = true ∧ s.uart2Msg.size = 7 ∧
    match s.task.infraredEvent.event with
    | .sendMatch => isMatchReply (s.uart2Msg.data.take 7) = true
    | .sendSave => True
    | .sendLearnModeOn | .sendLearnModeOff =>
      byteAt (s.uart2Msg.data.take 7) 5 = 1 ∨ byteAt (s.uart2Msg.data.take 7) 5 = 3
    | _ => False

/-- Whether the branch of an event accepts a reply can be decided. -/
def decidableAccepts (recv : List U8) : (code : EventCode) → Decidable (match code with
    | .sendMatch => isMatchReply recv = true
    | .sendSave => True
    | .sendLearnModeOn | .sendLearnModeOff => byteAt recv 5 = 1 ∨ byteAt recv 5 = 3
    | _ => False)
  | .sendMatch => inferInstanceAs (Decidable (_ = _))
  | .sendSave => inferInstanceAs (Decidable True)
  | .sendLearnModeOn | .sendLearnModeOff => inferInstanceAs (Decidable (_ ∨ _))
  | .null | .sendOnTest | .sendOffTest | .sendMatchOver | .sendLearnOnOver | .sendLearnOffOver
  | .waitLearnOn | .waitLearnOff => inferInstanceAs (Decidable False)

instance (s : Firmware) : Decidable (WritesBack s) :=
  have := decidableAccepts (s.uart2Msg.data.take 7) s.task.infraredEvent.event
  inferInstanceAs (Decidable (_ ∧ _ ∧ _))

/-- Whether the task's copy is written back depends on the slot and on the copy only. -/
theorem writesBack_congr {s t : Firmware} (hslot : t.uart2Msg = s.uart2Msg)
    (hcopy : t.task.infraredEvent = s.task.infraredEvent) : WritesBack t ↔ WritesBack s := by
  rw [WritesBack, WritesBack, hslot, hcopy]

section Replies

variable (s : Firmware)

/-- A call changes neither the shared event nor the copy. -/
theorem event_invokeCallBack (handled : EventCode) (result : U8) :
    ((invokeCallBack handled result).exec s).1.infraredEvent = s.infraredEvent ∧
      ((invokeCallBack handled result).exec s).1.task.infraredEvent = s.task.infraredEvent := by
  simp only [invokeCallBack, Stmt.exec_seq, Stmt.exec_act, Stmt.exec_when, Cmd.andThen_apply,
    Cmd.emit_apply]
  split <;> exact ⟨rfl, rfl⟩

/-- The shared event after the branch of a match reply. -/
theorem cell_matchReply :
    (matchReply.exec s).1.infraredEvent =
      if s.uart2Msg.size = 7 ∧ isMatchReply (s.uart2Msg.data.take 7) = true then
        { s.task.infraredEvent with event := .sendSave }
      else s.infraredEvent := by
  simp only [matchReply, Stmt.exec_when, Stmt.exec_seq, Stmt.exec_act, Cmd.andThen_apply, replySized,
    decide_eq_true_eq, Stmt.block_cons, Stmt.block_nil, Stmt.exec_skip]
  by_cases hsize : s.uart2Msg.size = 7
  · have hrecv : (copyReply s).1.task.recv = s.uart2Msg.data.take 7 := rfl
    rw [hrecv]
    by_cases hmatch : isMatchReply (s.uart2Msg.data.take 7) = true
    · simp only [hsize, hmatch, if_true, true_and]
      exact (event_invokeCallBack _ _ _).2
    · simp only [hsize, hmatch, if_true, true_and]
      rfl
  · simp only [hsize, if_false, false_and]

/-- The shared event after the branch of a save reply. -/
theorem cell_saveReply :
    (saveReply.exec s).1.infraredEvent =
      if s.uart2Msg.size = 7 then { s.task.infraredEvent with event := .null }
      else s.infraredEvent := by
  simp only [saveReply, Stmt.exec_when, Stmt.exec_seq, Stmt.exec_act, Cmd.andThen_apply, replySized,
    decide_eq_true_eq, Stmt.block_cons, Stmt.block_nil, Stmt.exec_skip]
  split
  · exact (event_invokeCallBack _ _ _).2
  · rfl

/-- The shared event after the branch of a learn reply. -/
theorem cell_learnReply (code : EventCode) (result : U8) :
    ((learnReply code result).exec s).1.infraredEvent =
      if s.uart2Msg.size = 7 ∧ byteAt (s.uart2Msg.data.take 7) 5 = 1 then s.task.infraredEvent
      else if s.uart2Msg.size = 7 ∧ byteAt (s.uart2Msg.data.take 7) 5 = 3 then
        { s.task.infraredEvent with event := .null }
      else s.infraredEvent := by
  simp only [learnReply, Stmt.exec_when, Stmt.exec_ite, Stmt.exec_seq, Stmt.exec_act,
    Cmd.andThen_apply, replySized, decide_eq_true_eq, Stmt.block_cons, Stmt.block_nil,
    Stmt.exec_skip]
  by_cases hsize : s.uart2Msg.size = 7
  · have hrecv : (copyReply s).1.task.recv = s.uart2Msg.data.take 7 := rfl
    rw [hrecv]
    simp only [hsize, if_true, true_and]
    split
    · exact (event_invokeCallBack _ _ _).2
    · split <;> rfl
  · simp only [hsize, if_false, false_and]

/-- In the branch of a learn mode the copy is written back as it is or as the null event. -/
theorem isAnswer_learnReply {code : EventCode} (result : U8)
    (hcopy : s.task.infraredEvent.event = code) (hcode : IsAnswer code) :
    (s.uart2Msg.size = 7 ∧
        (byteAt (s.uart2Msg.data.take 7) 5 = 1 ∨ byteAt (s.uart2Msg.data.take 7) 5 = 3) →
      IsAnswer ((learnReply code result).exec s).1.infraredEvent.event) ∧
    (¬ (s.uart2Msg.size = 7 ∧
        (byteAt (s.uart2Msg.data.take 7) 5 = 1 ∨ byteAt (s.uart2Msg.data.take 7) 5 = 3)) →
      ((learnReply code result).exec s).1.infraredEvent = s.infraredEvent) := by
  rw [cell_learnReply]
  constructor
  · rintro ⟨hsize, hone | hthree⟩
    · rw [if_pos ⟨hsize, hone⟩, hcopy]
      exact hcode
    · rw [if_neg fun h => absurd (hthree.symm.trans h.2) (by decide), if_pos ⟨hsize, hthree⟩]
      simp [IsAnswer]
  · intro hno
    rw [if_neg fun h => hno ⟨h.1, .inl h.2⟩, if_neg fun h => hno ⟨h.1, .inr h.2⟩]

/-- The branch a reply takes. -/
theorem exec_handleReply :
    handleReply.exec s = match s.task.infraredEvent.event with
      | .sendMatch => matchReply.exec s
      | .sendSave => saveReply.exec s
      | .sendLearnModeOn => (learnReply .sendLearnModeOn cbInLearnOn).exec s
      | .sendLearnModeOff => (learnReply .sendLearnModeOff cbInLearnOff).exec s
      | _ => (s, []) := by
  cases hevent : s.task.infraredEvent.event with
  | _ =>
    simp only [handleReply, Stmt.exec_ite, Stmt.exec_skip, handles, hevent]
    rfl

/-- A reply that is written back leaves an answer, another one leaves the shared event. -/
theorem cell_handleReply (hflag : s.uart2Msg.messageFlag = true) :
    (WritesBack s → IsAnswer (handleReply.exec s).1.infraredEvent.event) ∧
      (¬ WritesBack s → (handleReply.exec s).1.infraredEvent = s.infraredEvent) := by
  rw [exec_handleReply]
  cases hevent : s.task.infraredEvent.event with
  | sendMatch =>
    simp only [WritesBack, hflag, hevent, true_and, cell_matchReply]
    refine ⟨fun h => ?_, fun h => if_neg h⟩
    rw [if_pos h]
    simp [IsAnswer]
  | sendSave =>
    simp only [WritesBack, hflag, hevent, true_and, and_true, cell_saveReply]
    refine ⟨fun h => ?_, fun h => if_neg h⟩
    rw [if_pos h]
    simp [IsAnswer]
  | sendLearnModeOn =>
    simp only [WritesBack, hflag, hevent, true_and]
    exact isAnswer_learnReply s cbInLearnOn hevent (by simp [IsAnswer])
  | sendLearnModeOff =>
    simp only [WritesBack, hflag, hevent, true_and]
    exact isAnswer_learnReply s cbInLearnOff hevent (by simp [IsAnswer])
  | _ => simp [WritesBack, hevent]

/-- **What handling a reply does to the shared event.** A branch that writes back replaces it by an
event of its own; any other leaves it.
SOURCE: Uart.c:296-380 -/
theorem cell_uart2Replies :
    (WritesBack s → IsAnswer (uart2Replies.exec s).1.infraredEvent.event) ∧
      (¬ WritesBack s → (uart2Replies.exec s).1.infraredEvent = s.infraredEvent) := by
  by_cases hflag : s.uart2Msg.messageFlag = true
  · have hexec : (uart2Replies.exec s).1.infraredEvent = (handleReply.exec s).1.infraredEvent := by
      rw [uart2Replies, Stmt.exec_when, if_pos hflag]
      rfl
    rw [hexec]
    exact cell_handleReply s hflag
  · have hexec : uart2Replies.exec s = (s, []) := by
      rw [uart2Replies, Stmt.exec_when, if_neg hflag]
    rw [hexec]
    exact ⟨fun h => absurd h.1 hflag, fun _ => rfl⟩

end Replies

/-! ## Iterations -/

/-- The state in which an iteration looks at the slot of the chip. -/
def atReplies (id : U32) (pin : U8) (heap : Heap) (s : Firmware) : Firmware :=
  (pollUart1 id heap (atPoll pin s)).1

/-- What stands before the replies in an iteration changes neither the slot nor the event in its two
places; the one-second flag is what the timer says. -/
theorem atReplies_fields (id : U32) (pin : U8) (heap : Heap) (s : Firmware) :
    (atReplies id pin heap s).uart2Msg = s.uart2Msg ∧
      (atReplies id pin heap s).task.infraredEvent = s.task.infraredEvent ∧
      (atReplies id pin heap s).infraredEvent = s.infraredEvent ∧
      (atReplies id pin heap s).task.timer1s.touch = ticks s := by
  obtain ⟨addr, hpoll⟩ := vital_pollUart1 id heap (atPoll pin s)
  rw [vital_atPoll] at hpoll
  exact ⟨congrArg Vital.uart2Msg hpoll, congrArg Vital.copy hpoll, congrArg Vital.cell hpoll,
    congrArg Vital.tick hpoll⟩

/-- Up to the save, only a reply that is written back changes the shared event. -/
theorem cell_beforeSave (id : U32) (pin : U8) (heap : Heap) (s : Firmware) :
    (WritesBack s → IsAnswer (beforeSave id pin heap s).1.infraredEvent.event) ∧
      (¬ WritesBack s → (beforeSave id pin heap s).1.infraredEvent = s.infraredEvent) := by
  obtain ⟨hslot, hcopy, hcell, -⟩ := atReplies_fields id pin heap s
  have hreplies := cell_uart2Replies (atReplies id pin heap s)
  rw [writesBack_congr hslot hcopy, hcell] at hreplies
  exact hreplies

/-- The save leaves the shared event and the 1 s timer. -/
theorem saveFlash_event (s : Firmware) :
    (saveFlash s).1.infraredEvent = s.infraredEvent ∧
      (saveFlash s).1.task.timer1s = s.task.timer1s := by
  have hcell : Cmd.Keeps Firmware.infraredEvent saveFlash := keeps_saveFlash fun _ _ _ => rfl
  have htimer : Cmd.Keeps (fun s : Firmware => s.task.timer1s) saveFlash :=
    keeps_saveFlash fun _ _ _ => rfl
  exact ⟨hcell s, htimer s⟩

/-- Between the replies and the tick the shared event stays. -/
theorem cell_atTick (id : U32) (pin : U8) (heap : Heap) (s : Firmware) :
    (atTick id pin heap s).infraredEvent = (beforeSave id pin heap s).1.infraredEvent := by
  rw [← (saveFlash_event (beforeSave id pin heap s).1).1]
  exact congrArg Vital.cell (incidental_tick100ms.keeps _)

/-- At the tick the flag of the 1 s timer is what the timer says. -/
theorem touch_atTick (id : U32) (pin : U8) (heap : Heap) (s : Firmware) :
    (atTick id pin heap s).task.timer1s.touch = ticks s := by
  have hreplies : Cmd.Keeps (fun s : Firmware => s.task.timer1s.touch) uart2Replies.exec :=
    Stmt.keeps_exec (all_uart2Replies (fun c hc s => congrArg Vital.tick (hc.keeps s))
      (fun _ _ => rfl) (fun _ => rfl) (fun _ => rfl) (fun _ _ _ => rfl) fun _ => rfl)
  obtain ⟨-, -, -, htick⟩ := atReplies_fields id pin heap s
  calc (atTick id pin heap s).task.timer1s.touch
      = (saveFlash (beforeSave id pin heap s).1).1.task.timer1s.touch :=
        congrArg Vital.tick (incidental_tick100ms.keeps _)
    _ = (beforeSave id pin heap s).1.task.timer1s.touch := by rw [(saveFlash_event _).2]
    _ = (atReplies id pin heap s).task.timer1s.touch := hreplies _
    _ = ticks s := htick

/-- An iteration without a tick ends with the shared event the replies left. -/
theorem cell_iteration {s : Firmware} (hquiet : ticks s = false) (chip : Chip) (pin : U8)
    (heap : Heap) :
    (firmware chip (.iteration pin heap) s).1.infraredEvent =
      (beforeSave (readUniqueId chip) pin heap s).1.infraredEvent := by
  have htouch : (toTick (readUniqueId chip) pin heap s).1.task.timer1s.touch = false :=
    (touch_atTick _ pin heap s).trans hquiet
  have hskip : (tick1s (readUniqueId chip)).exec (toTick (readUniqueId chip) pin heap s).1 =
      (atTick (readUniqueId chip) pin heap s, []) := by
    rw [exec_tick1s, htouch]
    exact if_neg Bool.false_ne_true
  rw [← cell_atTick, firmware_toTick]
  simp only [Cmd.andThen_apply, hskip]
  exact congrArg Vital.cell (((incidental_tick10s (readUniqueId chip)).keeps _).trans
    (incidental_tick5s.keeps _))

/-! ## What a tick dispatches -/

/-- The frame that ends a match or a learn. -/
def overFrame : List U8 := codeFrame 0x81 0x00

/-- Observations other than a dispatch. -/
def NotDispatch : Obs → Prop
  | .dispatch _ => False
  | _ => True

/-- What is plain is no dispatch. -/
theorem notDispatch_of_plain {o : Obs} (h : Plain o) : NotDispatch o := by
  cases o with
  | dispatch _ => exact h.elim
  | _ => trivial

/-- Sending an over event sends the frame. -/
theorem overFrame_sendEvent {s : Firmware} (h : IsOver s.task.infraredEvent.event) :
    .uart2Tx overFrame ∈ (sendEvent.exec s).2 := by
  rcases h with h | h | h <;>
    simp [sendEvent, handles, h, sendAndFinish, sendMatchOver, sendLearnOnOver, sendLearnOffOver,
      overFrame]

/-- The dispatch sends an over event exactly when the copy holds it, and the frame with it. -/
theorem dispatch_dispatchEvent {s : Firmware} {code : EventCode} (hcode : IsOver code) :
    (.dispatch code ∈ (dispatchEvent.exec s).2 ↔ s.task.infraredEvent.event = code) ∧
      (s.task.infraredEvent.event = code → .uart2Tx overFrame ∈ (dispatchEvent.exec s).2) := by
  have hnot : .dispatch code ∉ (sendEvent.exec s).2 := fun h =>
    emits_sendEvent (fun _ => notDispatch_of_plain) (fun _ => trivial) s _ h
  by_cases hnull : s.task.infraredEvent.event = .null
  · have hexec : dispatchEvent.exec s = (s, []) := by simp [dispatchEvent, handles, hnull]
    have hne : ¬ s.task.infraredEvent.event = code := fun h => by
      rw [← h, hnull] at hcode
      simp [IsOver] at hcode
    rw [hexec]
    exact ⟨iff_of_false List.not_mem_nil hne, fun h => absurd h hne⟩
  · have hexec : (dispatchEvent.exec s).2 =
        .dispatch s.task.infraredEvent.event :: (sendEvent.exec s).2 := by
      simp [dispatchEvent, handles, hnull]
    rw [hexec]
    constructor
    · rw [List.mem_cons]
      constructor
      · rintro (h | h)
        · exact (Obs.dispatch.inj h).symm
        · exact absurd h hnot
      · exact fun h => .inl (by rw [h])
    · intro h
      exact List.mem_cons_of_mem _ (overFrame_sendEvent (h ▸ hcode))

/-- A tick samples the shared event and dispatches it. -/
theorem dispatch_tick1s {s : Firmware} (htouch : s.task.timer1s.touch = true) (id : U32)
    {code : EventCode} (hcode : IsOver code) :
    (.dispatch code ∈ ((tick1s id).exec s).2 ↔ s.infraredEvent.event = code) ∧
      (s.infraredEvent.event = code → .uart2Tx overFrame ∈ ((tick1s id).exec s).2) := by
  have hrest : Cmd.Emits NotDispatch (Cmd.andThen lights (Cmd.andThen (startRegister id)
      (Cmd.andThen monitorConnect sendThreeTimes))) := fun s o ho =>
    notDispatch_of_plain ((incidental_lights.andThen ((incidental_startRegister id).andThen
      (incidental_monitorConnect.andThen incidental_sendThreeTimes))).emits s o ho)
  have hexec : ((tick1s id).exec s).2 = (dispatchEvent.exec (sampleEvents s).1).2 ++
      (Cmd.andThen lights (Cmd.andThen (startRegister id) (Cmd.andThen monitorConnect sendThreeTimes))
        (dispatchEvent.exec (sampleEvents s).1).1).2 := by
    simp only [tick1s, Stmt.exec_when, htouch, if_true, Stmt.block_cons, Stmt.block_nil,
      Stmt.exec_seq, Stmt.exec_act, Stmt.exec_skip, Cmd.andThen_apply, List.append_nil]
    rfl
  obtain ⟨hdispatch, hframe⟩ := dispatch_dispatchEvent (s := (sampleEvents s).1) hcode
  rw [hexec]
  constructor
  · rw [List.mem_append]
    constructor
    · rintro (h | h)
      · exact hdispatch.mp h
      · exact (hrest _ _ h).elim
    · exact fun h => .inl (hdispatch.mpr h)
  · exact fun h => List.mem_append_left _ (hframe h)

/-- **What an iteration with a tick dispatches**: the shared event as the replies have left it. -/
theorem dispatch_iteration {s : Firmware} (htick : ticks s = true) (chip : Chip) (pin : U8)
    (heap : Heap) {code : EventCode} (hcode : IsOver code) :
    (.dispatch code ∈ (firmware chip (.iteration pin heap) s).2 ↔
        (beforeSave (readUniqueId chip) pin heap s).1.infraredEvent.event = code) ∧
      ((beforeSave (readUniqueId chip) pin heap s).1.infraredEvent.event = code →
        .uart2Tx overFrame ∈ (firmware chip (.iteration pin heap) s).2) := by
  have hplain : ∀ o, Plain o → NotDispatch o := fun _ => notDispatch_of_plain
  have hbefore : Cmd.Emits NotDispatch (beforeSave (readUniqueId chip) pin heap) :=
    .andThen (Cmd.emits_modify _) (.andThen ((incidental_checkIo pin).emitsGood hplain)
      (.andThen (emits_pollUart1 hplain (fun _ _ => trivial) (fun _ _ => trivial) _ _)
        (emits_uart2Replies hplain (fun _ => trivial) fun _ _ _ => trivial)))
  have hto : Cmd.Emits NotDispatch (toTick (readUniqueId chip) pin heap) :=
    hbefore.andThen (.andThen (emits_saveFlash hplain) (incidental_tick100ms.emitsGood hplain))
  obtain ⟨hdispatch, hframe⟩ := dispatch_tick1s (s := (toTick (readUniqueId chip) pin heap s).1)
    ((touch_atTick (readUniqueId chip) pin heap s).trans htick) (readUniqueId chip) hcode
  rw [show (toTick (readUniqueId chip) pin heap s).1.infraredEvent =
    (beforeSave (readUniqueId chip) pin heap s).1.infraredEvent from cell_atTick _ _ _ _]
    at hdispatch hframe
  rw [firmware_toTick]
  simp only [Cmd.andThen_apply _ (Cmd.andThen _ _), List.mem_append]
  constructor
  · constructor
    · rintro (h | h | h)
      · exact (hto _ _ h).elim
      · exact hdispatch.mp h
      · exact ((incidental_tick5s.andThen (incidental_tick10s _)).emitsGood hplain _ _ h).elim
    · exact fun h => .inr (.inl (hdispatch.mpr h))
  · exact fun h => .inr (.inl (hframe h))

/-! ## What the other threads store -/

/-- The observations contain a store into the shared event. -/
def Storing (out : List Obs) : Prop := ∃ e, .setEvent e ∈ out

/-- Nothing observed stores nothing. -/
theorem not_storing_nil : ¬ Storing [] := by
  rintro ⟨e, he⟩
  cases he

/-- Two parts store when one of them does. -/
theorem storing_append (xs ys : List Obs) : Storing (xs ++ ys) ↔ Storing xs ∨ Storing ys := by
  simp only [Storing, List.mem_append, exists_or]

/-- Incidental code stores nothing. -/
theorem Incidental.not_storing {c : FwCmd} (h : Incidental c) (s : Firmware) :
    ¬ Storing (c s).2 := by
  rintro ⟨e, he⟩
  exact h.emits s _ he

/-- A page that stores an event when it is shown: the match page and the two learn pages always, the
test page when Enter was pressed on one of its rows. -/
def Posting (page : U8) (select : PageSelect) : Prop :=
  page = onekeyMatchPage ∨ page = learnOnPage ∨ page = learnOffPage ∨
    page = testPage ∧ select.select = true ∧ (select.cusor = 1 ∨ select.cusor = 2)

/-- An iteration of the display thread in this state stores an event: the page on top is new or due
for a refresh, and it is one that stores. A new test page has its cursor on the first row. -/
def Reposts (o : Oled) : Prop :=
  (o.nowPagePre ≠ o.page ∨ o.reflashFlag = true) ∧
    (o.page = onekeyMatchPage ∨ o.page = learnOnPage ∨ o.page = learnOffPage ∨
      o.page = testPage ∧ o.pageSelect.select = true ∧
        (o.nowPagePre ≠ o.page ∨ o.pageSelect.cusor = 1 ∨ o.pageSelect.cusor = 2))

instance (o : Oled) : Decidable (Reposts o) := inferInstanceAs (Decidable (_ ∧ _))

/-- The test page stores when Enter was pressed on one of its rows. -/
theorem storing_testPageShow (s : Firmware) :
    Storing (testPageShow s).2 ↔ s.oled.pageSelect.select = true ∧
      (s.oled.pageSelect.cusor = 1 ∨ s.oled.pageSelect.cusor = 2) := by
  unfold testPageShow
  split
  · rename_i hselect
    rw [Cmd.andThen_apply, storing_append]
    repeat' split
    · rename_i hone
      exact iff_of_true (.inl ⟨_, List.mem_singleton_self _⟩) ⟨hselect, .inl hone⟩
    · rename_i htwo
      exact iff_of_true (.inl ⟨_, List.mem_singleton_self _⟩) ⟨hselect, .inr htwo⟩
    · rename_i hone htwo
      exact iff_of_false (fun h => h.elim (Incidental.skip.not_storing s)
        ((incidental_onOled _).not_storing _)) fun h => h.2.elim hone htwo
  · rename_i hselect
    exact iff_of_false not_storing_nil fun h => hselect h.1

/-- The selection page stores nothing. -/
theorem not_storing_selectModePageShow (s : Firmware) : ¬ Storing (selectModePageShow s).2 := by
  unfold selectModePageShow
  split
  · rintro ⟨e, he⟩
    simp [pageReturn, onOled] at he
  · exact not_storing_nil

/-- Running a page stores when the page is one that posts. -/
theorem storing_pageProgram (page : U8) (s : Firmware) :
    Storing (pageProgram page s).2 ↔ Posting page s.oled.pageSelect := by
  have hmenu : ∀ rows, ¬ Storing (menuPage rows s).2 := fun rows =>
    (incidental_menuPage rows).not_storing s
  have hpost : ∀ e, Storing (setinfraredEvent e s).2 := fun e => ⟨e, List.mem_singleton_self _⟩
  have hquiet : ∀ t, ¬ Storing (onOled (fun o => { o with reflashFlag := false }) t).2 :=
    (incidental_onOled _).not_storing
  have hselect := not_storing_selectModePageShow s
  unfold pageProgram
  rw [Cmd.andThen_apply, storing_append, or_iff_left (hquiet _)]
  -- one case for each label of the `switch`, and the default
  repeat' split
  all_goals rename_i hpage
  · simp [hmenu, Posting, hpage, homePage, onekeyMatchPage, learnOnPage, learnOffPage, testPage]
  · simp [hmenu, Posting, hpage, settingPage, onekeyMatchPage, learnOnPage, learnOffPage, testPage]
  · exact iff_of_true (hpost _) (.inl hpage)
  · simp [hselect, Posting, hpage, selectModePage, onekeyMatchPage, learnOnPage, learnOffPage,
      testPage]
  · simp [hmenu, Posting, hpage, learnModePage, onekeyMatchPage, learnOnPage, learnOffPage,
      testPage]
  · exact iff_of_true (hpost _) (.inr (.inl hpage))
  · exact iff_of_true (hpost _) (.inr (.inr (.inl hpage)))
  · rw [storing_testPageShow]
    simp [Posting, hpage, onekeyMatchPage, learnOnPage, learnOffPage, testPage]
  · rename_i hmatch _ _ hon hoff
    exact iff_of_false (Incidental.skip.not_storing s) fun h => h.elim hmatch
      fun h => h.elim hon fun h => h.elim hoff fun h => hpage h.1

/-- The settings of a new test page put its cursor on the first row and leave the press. -/
theorem posting_pageSetting (page : U8) (s : Firmware) :
    Posting page (pageSetting page s).1.oled.pageSelect ↔
      page = onekeyMatchPage ∨ page = learnOnPage ∨ page = learnOffPage ∨
        page = testPage ∧ s.oled.pageSelect.select = true := by
  by_cases htest : page = testPage
  · subst htest
    have hset : (pageSetting testPage s).1.oled.pageSelect =
        { s.oled.pageSelect with cusorHome := 1, cusor := 1, cusorMax := 2 } := rfl
    simp only [Posting, hset, true_or, and_true]
  · simp only [Posting, htest, false_and]

/-- An iteration of the display stores in the states `Reposts` names. -/
theorem storing_oledIteration (s : Firmware) :
    Storing (peerStep .oledIteration s).2 ↔ Reposts s.oled := by
  have hrest : ∀ page t, ¬ Storing (Cmd.andThen oledCtrl (oled1s page) t).2 := fun page =>
    (incidental_oledCtrl.andThen (incidental_oled1s page)).not_storing
  show Storing (oledIteration s).2 ↔ _
  rw [oledIteration, Cmd.andThen_apply, storing_append,
    or_iff_right ((incidental_onOled _).not_storing s), Cmd.andThen_apply, storing_append,
    or_iff_left (hrest _ _)]
  generalize ht : (onOled (fun o => { o with timer1s := timerTask o.timer1s 20 }) s).1 = t
  have hpage : t.oled.page = s.oled.page := by rw [← ht]; rfl
  have hpre : t.oled.nowPagePre = s.oled.nowPagePre := by rw [← ht]; rfl
  have hflag : t.oled.reflashFlag = s.oled.reflashFlag := by rw [← ht]; rfl
  have hselect : t.oled.pageSelect = s.oled.pageSelect := by rw [← ht]; rfl
  unfold oledShow
  rw [Reposts, ← hpage, ← hpre, ← hflag, ← hselect]
  by_cases hnew : t.oled.nowPagePre ≠ t.oled.page
  · rw [if_pos hnew, Cmd.andThen_apply, storing_append,
      or_iff_right ((incidental_pageSetting _).not_storing t), Cmd.andThen_apply, storing_append,
      or_iff_left ((incidental_onOled _).not_storing _), storing_pageProgram, posting_pageSetting]
    simp only [hnew, ne_eq, not_false_iff, true_or, true_and, and_true]
  · rw [if_neg hnew]
    by_cases hdue : t.oled.reflashFlag = true
    · rw [if_pos hdue, storing_pageProgram]
      simp only [Posting, hnew, hdue, or_true, true_and, false_or]
    · rw [if_neg hdue]
      exact iff_of_false not_storing_nil fun h => h.1.elim hnew hdue

/-- A step of a peer that stores an event, told from the state before it. -/
def Stores (s : Firmware) : Peer → Prop
  | .enterBtn .longPress => overEvent s.oled.page ≠ none
  | .oledIteration => Reposts s.oled
  | _ => False

instance (s : Firmware) (p : Peer) : Decidable (Stores s p) := by
  cases p with
  | enterBtn type =>
    cases type with
    | longPress => exact inferInstanceAs (Decidable (_ ≠ none))
    | _ => exact inferInstanceAs (Decidable False)
  | oledIteration => exact inferInstanceAs (Decidable (Reposts _))
  | _ => exact inferInstanceAs (Decidable False)

/-- Another thread stores in the states `Stores` names. -/
theorem storing_peerStep (p : Peer) (s : Firmware) : Storing (peerStep p s).2 ↔ Stores s p := by
  have hquiet : ∀ {c : FwCmd}, Incidental c → (Storing (c s).2 ↔ False) := fun h =>
    iff_false_intro (h.not_storing s)
  cases p with
  | uart1Burst bytes => exact iff_false_intro not_storing_nil
  | uart2Burst bytes => exact iff_false_intro not_storing_nil
  | upBtn type => exact hquiet (incidental_upBtn type)
  | dowmBtn type => exact hquiet (incidental_dowmBtn type)
  | oledIteration => exact storing_oledIteration s
  | enterBtn type =>
    cases type with
    | nullPress => exact hquiet .skip
    | shortPress => exact hquiet (incidental_wakeUpOledBackLight.andThen (incidental_onOled _))
    | longPress =>
      simp only [Stores, peerStep, enterBtnCallBack, Cmd.andThen_apply, storing_append,
        (incidental_onOled _).not_storing _, or_false]
      cases h : overEvent s.oled.page with
      | some code => exact iff_of_true ⟨_, List.mem_singleton_self _⟩ (by simp)
      | none => exact iff_of_false not_storing_nil (by simp)

/-! ## A press that is still pending -/

/-- A long press leaves the page. -/
theorem oled_longPress (s : Firmware) : (peerStep (.enterBtn .longPress) s).1.oled = s.oled.pop := by
  simp only [peerStep, enterBtnCallBack]
  cases overEvent s.oled.page with
  | some code => rfl
  | none => rfl

/-- The page that was pushed is on top. -/
theorem page_push (o : Oled) (page : U8) : (o.push page).page = page := by
  apply BitVec.eq_of_getLsbD_eq
  intro i hi
  simp [Oled.page, Oled.push, hi]

/-- What follows the page in an iteration of the display changes neither of the two pages. -/
theorem keeps_pages (page : U8) :
    Cmd.Keeps (fun s : Firmware => (s.oled.page, s.oled.nowPagePre))
      (Cmd.andThen oledCtrl (oled1s page)) := by
  refine Cmd.Keeps.andThen (fun s => ?_) (fun s => ?_)
  · unfold oledCtrl
    split <;> rfl
  · unfold oled1s monitorBackLight
    repeat' split
    all_goals simp only [Cmd.andThen_apply]
    all_goals split <;> rfl

/-- A new learn menu that finds Enter pressed goes on to its first row. -/
theorem pages_oledShow {s : Firmware} (hnew : s.oled.nowPagePre ≠ learnModePage)
    (hpress : s.oled.pageSelect.select = true) :
    (oledShow learnModePage s).1.oled.page = learnOnPage ∧
      (oledShow learnModePage s).1.oled.nowPagePre = learnModePage := by
  have hselect : (pageSetting learnModePage s).1.oled.pageSelect.select = true := hpress
  have hmenu : (pageProgram learnModePage (pageSetting learnModePage s).1).1.oled.page =
      learnOnPage := by
    have hrows : pageProgram learnModePage = Cmd.andThen (menuPage learnRows)
        (onOled fun o => { o with reflashFlag := false }) := rfl
    rw [hrows, Cmd.andThen_apply, menuPage, if_pos hselect]
    exact page_push _ learnOnPage
  simp only [oledShow, if_pos hnew, Cmd.andThen_apply]
  exact ⟨hmenu, rfl⟩

/-- **A pending press brings a learn page back.** The learn pages do not take an Enter press. If one
is pending when a long press leaves such a page for the learn menu, the menu takes it for its first
row, and the display's next iteration stores the event of that row over the one of the long press.
SOURCE: Oled1309.c:176-295 -/
theorem reposts_of_pending_press (chip : Chip) (s : Firmware)
    (hbelow : s.oled.pop.page = learnModePage) (hshown : s.oled.nowPagePre ≠ learnModePage)
    (hpress : s.oled.pageSelect.select = true) :
    Reposts (run (firmware chip) s [.peer (.enterBtn .longPress), .peer .oledIteration]).oled := by
  have hrun : run (firmware chip) s [.peer (.enterBtn .longPress), .peer .oledIteration] =
      (oledIteration (peerStep (.enterBtn .longPress) s).1).1 := rfl
  have holed := oled_longPress s
  rw [hrun]
  generalize (peerStep (.enterBtn .longPress) s).1 = t at holed ⊢
  generalize hu : (onOled (fun o => { o with timer1s := timerTask o.timer1s 20 }) t).1 = u
  have hpage : u.oled.page = learnModePage := by
    rw [← hu, ← hbelow, ← holed]
    rfl
  have hnew : u.oled.nowPagePre ≠ learnModePage := by
    rw [← hu]
    show t.oled.nowPagePre ≠ _
    rw [holed]
    exact hshown
  have hselect : u.oled.pageSelect.select = true := by
    rw [← hu]
    show t.oled.pageSelect.select = true
    rw [holed]
    exact hpress
  -- the learn menu takes the press at once and opens its first row
  obtain ⟨htop, hpre⟩ := pages_oledShow hnew hselect
  have hkeep := keeps_pages learnModePage (oledShow learnModePage u).1
  simp only [Prod.mk.injEq] at hkeep
  simp only [oledIteration, Cmd.andThen_apply, hu, hpage]
  simp only [Cmd.andThen_apply] at hkeep
  rw [Reposts, hkeep.1, hkeep.2, htop, hpre]
  exact ⟨.inl (by decide), .inr (.inl rfl)⟩

/-! ## From the long press to the tick -/

/-- The user posts another event: a button callback stores it, or the display does after Enter was
pressed again. `since` are the steps since the long press. -/
def UserPosts (since : List Input) (s : Firmware) (p : Peer) : Prop :=
  Stores s p ∧ (p = .oledIteration → .peer (.enterBtn .shortPress) ∈ since)

/-- A step between the long press and the next tick: the user posts no other event, and an
iteration of the serial task has no tick. -/
def Between (since : List Input) (s : Firmware) : Input → Prop
  | .peer p => ¬ UserPosts since s p
  | .iteration _ _ => ticks s = false

/-- A step that leaves the shared event alone: the display does not store one, and the serial task
does not write its copy back. -/
def LeavesEvent (s : Firmware) : Input → Prop
  | .peer p => ¬ Stores s p
  | .iteration _ _ => ¬ WritesBack s

/-- The event is dispatched and its frame sent. -/
def Sends (code : EventCode) (out : List Obs) : Prop :=
  .dispatch code ∈ out ∧ .uart2Tx overFrame ∈ out

/-- A peer that stores nothing leaves the shared event. -/
theorem cell_of_not_stores {p : Peer} {s : Firmware} (h : ¬ Stores s p) :
    (peerStep p s).1.infraredEvent = s.infraredEvent := by
  obtain ⟨-, ⟨hkept, -⟩ | ⟨-, hstored⟩⟩ := event_peer p s
  · exact hkept
  · exact absurd ((storing_peerStep p s).mp ⟨_, hstored⟩) h

/-- A page posts no over event. -/
theorem Shown.not_isOver {e : InfraredEvent} (h : Shown e) : ¬ IsOver e.event := by
  cases h <;> simp [IsOver]

/-- An iteration of the display stores no over event. -/
theorem not_isOver_oledIteration {s : Firmware} (h : Stores s .oledIteration) :
    ¬ IsOver (peerStep .oledIteration s).1.infraredEvent.event := by
  obtain ⟨cell, select, hvital, -, -, ⟨-, hnone⟩ | ⟨hshown, -⟩⟩ := posts_oledIteration s
  · obtain ⟨e, he⟩ := (storing_peerStep .oledIteration s).mpr h
    exact absurd he (hnone e)
  · have hcell : (peerStep .oledIteration s).1.infraredEvent = cell := congrArg Vital.cell hvital
    rw [hcell]
    exact hshown.not_isOver

/-- The invariant from the long press on: the event is there, or it has been written over by one
that is not the event of a long press. -/
def Pending (chip : Chip) (s₁ : Firmware) (code : EventCode) (w : List Input) (s : Firmware) : Prop :=
  (Along (firmware chip) s₁ w (fun _ => LeavesEvent) ∧ s.infraredEvent.event = code) ∨
    (¬ Along (firmware chip) s₁ w (fun _ => LeavesEvent) ∧ ¬ IsOver s.infraredEvent.event)

/-- After a long press its event is in the shared cell. -/
theorem event_longPress {s : Firmware} {code : EventCode} (h : overEvent s.oled.page = some code) :
    (peerStep (.enterBtn .longPress) s).1.infraredEvent.event = code := by
  simp only [peerStep, enterBtnCallBack, h]
  rfl

/-- What the replies of one iteration do to the invariant. -/
theorem Pending.replies {chip : Chip} {s₁ : Firmware} {code : EventCode} {w : List Input}
    (h : Pending chip s₁ code w (run (firmware chip) s₁ w)) (pin : U8) (heap : Heap) :
    Pending chip s₁ code (w ++ [.iteration pin heap])
      (beforeSave (readUniqueId chip) pin heap (run (firmware chip) s₁ w)).1 := by
  obtain ⟨hwrites, hleaves⟩ := cell_beforeSave (readUniqueId chip) pin heap (run (firmware chip) s₁ w)
  rw [Pending, along_concat]
  by_cases hback : WritesBack (run (firmware chip) s₁ w)
  · exact .inr ⟨fun hall => hall.2 hback, (hwrites hback).not_isOver⟩
  · rw [hleaves hback]
    rcases h with ⟨hall, hevent⟩ | ⟨hall, hover⟩
    · exact .inl ⟨⟨hall, hback⟩, hevent⟩
    · exact .inr ⟨fun h => hall h.1, hover⟩

/-- One step before the tick keeps the invariant. -/
theorem Pending.step {chip : Chip} {s₁ : Firmware} {code : EventCode} {w : List Input} {i : Input}
    (h : Pending chip s₁ code w (run (firmware chip) s₁ w))
    (hi : Between w (run (firmware chip) s₁ w) i) :
    Pending chip s₁ code (w ++ [i]) (firmware chip i (run (firmware chip) s₁ w)).1 := by
  cases i with
  | iteration pin heap =>
    rw [Pending, cell_iteration hi]
    exact h.replies pin heap
  | peer p =>
    rw [Pending, along_concat]
    by_cases hstores : Stores (run (firmware chip) s₁ w) p
    · -- only the display can store here, and no page stores the event of a long press
      have hdisplay : p = .oledIteration := by
        by_contra hp
        exact hi ⟨hstores, fun h => absurd h hp⟩
      subst hdisplay
      exact .inr ⟨fun hall => hall.2 hstores, not_isOver_oledIteration hstores⟩
    · rw [show (firmware chip (.peer p) (run (firmware chip) s₁ w)).1.infraredEvent = _ from
        cell_of_not_stores hstores]
      rcases h with ⟨hall, hevent⟩ | ⟨hall, hover⟩
      · exact .inl ⟨⟨hall, hstores⟩, hevent⟩
      · exact .inr ⟨fun h => hall h.1, hover⟩

/-- **When a long press reaches the next tick.** In any state a long press on the match page or on
a learn page is followed by any steps `w`, with no tick and in which the user posts no other
event, and then by an iteration with a tick. That iteration dispatches the event of the long press
and sends its frame exactly when, since the press and up to the tick, the display stores no event
and no iteration handles a reply that makes the task write its copy back.
SOURCE: Uart.c:295-381, 416-490, Oled1309.c:86-126 -/
theorem overEvent_sent_iff (chip : Chip) (s : Firmware) (code : EventCode)
    (hpage : overEvent s.oled.page = some code) (w : List Input)
    (hbetween : Along (firmware chip) (peerStep (.enterBtn .longPress) s).1 w Between)
    (htick : ticks (run (firmware chip) (peerStep (.enterBtn .longPress) s).1 w) = true)
    (pin : U8) (heap : Heap) :
    Sends code (firmware chip (.iteration pin heap)
        (run (firmware chip) (peerStep (.enterBtn .longPress) s).1 w)).2 ↔
      Along (firmware chip) (peerStep (.enterBtn .longPress) s).1 (w ++ [.iteration pin heap])
        fun _ => LeavesEvent := by
  have hcode := isOver_of_overEvent hpage
  have hpress := event_longPress hpage
  generalize (peerStep (.enterBtn .longPress) s).1 = s₁ at *
  have hpending : Pending chip s₁ code w (run (firmware chip) s₁ w) :=
    run_invariant (Pending chip s₁ code) _ (.inl ⟨along_nil _ _ _, hpress⟩)
      (fun _ _ h hi => h.step hi) hbetween
  obtain ⟨hdispatch, hframe⟩ := dispatch_iteration htick chip pin heap hcode
  rcases hpending.replies pin heap with ⟨hall, hevent⟩ | ⟨hall, hover⟩
  · exact iff_of_true ⟨hdispatch.mpr hevent, hframe hevent⟩ hall
  · refine iff_of_false (fun hsends => hover ?_) hall
    rw [hdispatch.mp hsends.1]
    exact hcode

/-- From power-on to the match page, and on to the last iteration before the second tick. -/
def onMatchPage : Firmware :=
  run (firmware ⟨0, 0, 0⟩) (boot (Vector.replicate 12 0xFF) (Vector.replicate 10 0))
    ([.peer .oledIteration, .peer (.enterBtn .shortPress), .peer .oledIteration,
      .peer .oledIteration, .peer (.dowmBtn .shortPress), .peer (.enterBtn .shortPress),
      .peer .oledIteration, .peer .oledIteration] ++
      List.replicate 41 (.iteration 1 Heap.ample))

/-- Without a reply in between, the long press is sent at the tick. -/
theorem overEvent_sent_quiet :
    Sends .sendMatchOver (firmware ⟨0, 0, 0⟩ (.iteration 1 Heap.ample)
      (peerStep (.enterBtn .longPress) onMatchPage).1).2 := by
  have hquiet : ¬ WritesBack (peerStep (.enterBtn .longPress) onMatchPage).1 := fun h =>
    absurd h.1 (by decide +kernel)
  exact (overEvent_sent_iff ⟨0, 0, 0⟩ onMatchPage .sendMatchOver (by decide +kernel) []
    (along_nil _ _ _) (by decide +kernel) 1 Heap.ample).mpr
    ((along_cons _ _ _ _ _).mpr ⟨hquiet, along_nil _ _ _⟩)

/-- A match reply arrives between the long press and the tick: the tick dispatches the save event of
the task's copy, and the long press is gone. -/
theorem overEvent_lost :
    let s := run (firmware ⟨0, 0, 0⟩) onMatchPage
      [.peer (.enterBtn .longPress), .peer (.uart2Burst [0xAA, 0x55, 0x04, 0x41, 0x00, 0x24, 0x00])]
    overEvent onMatchPage.oled.page = some .sendMatchOver ∧ ticks s = true ∧
      s.infraredEvent.event = .sendMatchOver ∧
      .dispatch .sendSave ∈ (firmware ⟨0, 0, 0⟩ (.iteration 1 Heap.ample) s).2 ∧
      ¬ Sends .sendMatchOver (firmware ⟨0, 0, 0⟩ (.iteration 1 Heap.ample) s).2 := by
  intro s
  have hlost : .dispatch .sendMatchOver ∉ (firmware ⟨0, 0, 0⟩ (.iteration 1 Heap.ample) s).2 := by
    decide +kernel
  exact ⟨by decide +kernel, by decide +kernel, by decide +kernel, by decide +kernel,
    fun h => hlost h.1⟩

end InfraredModule.Analysis
