import InfraredModule.Analysis.Registration
import InfraredModule.Analysis.LongPress
import InfraredModule.Analysis.Persistence

/-!
# The control word, the repeat counter and what the display shows

The control word of `module_info`, the task's copy of it, the repeat counter, and the switch
state and temperature that the home page shows are the `Air` view of the memory. A one-second
tick compares the word with the copy and sends (`Air.second`); an input pin, a test event and a
write of the control register change the word in between. `air_iteration` says what one
iteration does to the view. `sentThreeTimes_iff` says after which writes exactly three commands go
out, `display_agrees` in which runs the display shows what the control word says.
-/

set_option autoImplicit false

namespace InfraredModule.Analysis

open InfraredModule.Foundation InfraredModule.Model InfraredModule.Interface

/-! ## The control side of the memory -/

/-- The control side: the control word, the task's copy of it, the repeat counter, the mode, and the switch
and temperature on display. -/
structure Air where
  ctrl : U16
  ctrlPre : U16
  sendCmdCnt : U8
  select : U8
  switchState : U8
  nowTemp : U8

/-- The control side of the memory. -/
def air (s : Firmware) : Air where
  ctrl := s.moduleInfo.ctrl
  ctrlPre := s.task.ctrlPre
  sendCmdCnt := s.task.sendCmdCnt
  select := s.moduleInfo.select
  switchState := s.switchState
  nowTemp := s.nowTemp

namespace Air

/-- An on or off command: the switch, the control word and the temperature go together. -/
def put (a : Air) (state : U8) (ctr : U16) : Air :=
  { a with switchState := state, ctrl := ctr, nowTemp := getTempByCtrl ctr }

/-- The on command. -/
def on (a : Air) : Air := a.put yes 0xE000

/-- The off command. -/
def off (a : Air) : Air := a.put no 0x6000

/-- What `sendCtrlCommandToCodeData` leaves behind.
SOURCE: infrared.c:64-107 -/
def command (a : Air) : Air :=
  if a.select = selectMatch then
    { a with
      switchState := if a.ctrl &&& 0x8000 > 0 then yes else no
      nowTemp := getTempByCtrl a.ctrl }
  else if a.select = selectLearn then
    if a.ctrl &&& 0x8000 > 0 then a.on else a.off
  else a

/-- The tick sends: the word has changed, or the counter has not run out. -/
def Due (a : Air) : Prop := a.ctrlPre ≠ a.ctrl ∨ a.sendCmdCnt < 2

instance (a : Air) : Decidable a.Due := inferInstanceAs (Decidable (_ ∨ _))

/-- What the end of a tick does.
SOURCE: Uart.c:523-537 -/
def second (a : Air) : Air :=
  if a.ctrlPre ≠ a.ctrl then { ({ a with ctrlPre := a.ctrl } : Air).command with sendCmdCnt := 0 }
  else if a.sendCmdCnt < 2 then ({ a with sendCmdCnt := a.sendCmdCnt + 1 } : Air).command
  else a

end Air

/-- The sender does to the control side what `command` does. -/
theorem air_sendCtrlCommandToCodeData (s : Firmware) :
    air (sendCtrlCommandToCodeData s).1 = (air s).command := by
  dsimp only [sendCtrlCommandToCodeData, Cmd.andThen, Cmd.emit, Air.command, air]
  by_cases hmatch : s.moduleInfo.select = selectMatch
  · rw [if_pos hmatch, if_pos hmatch]
  rw [if_neg hmatch, if_neg hmatch]
  repeat' split
  all_goals rfl

/-- The end of a tick does to the control side what `second` does. -/
theorem air_sendThreeTimes (s : Firmware) : air (sendThreeTimes s).1 = (air s).second := by
  have hchanged : ((air s).ctrlPre ≠ (air s).ctrl) = (s.task.ctrlPre ≠ s.moduleInfo.ctrl) := rfl
  have hcount : ((air s).sendCmdCnt < 2) = (s.task.sendCmdCnt < 2) := rfl
  unfold sendThreeTimes Air.second
  simp only [hchanged, hcount]
  repeat' split
  · simp only [Cmd.andThen_apply, Cmd.modify_apply]
    exact congrArg (fun a : Air => { a with sendCmdCnt := 0 }) (air_sendCtrlCommandToCodeData _)
  · simp only [Cmd.andThen_apply, Cmd.modify_apply]
    exact air_sendCtrlCommandToCodeData _
  · rfl

/-! ## What the parts of an iteration do to it -/

/-- The reply branch leaves the control side alone. -/
theorem air_uart2Replies : Cmd.Keeps air uart2Replies.exec :=
  Stmt.keeps_exec (all_replyActions (fun _ => rfl) (fun _ => rfl) (fun _ _ => rfl) (fun _ => rfl)
    (fun _ => rfl) (fun _ _ _ => rfl) fun _ => rfl)

/-- The save leaves the control side alone. -/
theorem air_saveFlash : Cmd.Keeps air saveFlash := keeps_saveFlash fun _ _ _ => rfl

/-- The 100 ms branch leaves the control side alone. -/
theorem air_tick100ms : Cmd.Keeps air tick100ms := keeps_tick100ms fun _ _ _ _ => rfl

/-- The lamps leave the control side alone. -/
theorem air_lights : Cmd.Keeps air lights := keeps_lights fun _ _ => rfl

/-- The start of a registration leaves the control side alone. -/
theorem air_startRegister (id : U32) : Cmd.Keeps air (startRegister id) :=
  keeps_startRegister (fun _ _ => rfl) id

/-- The watch on the connection leaves the control side alone. -/
theorem air_monitorConnect : Cmd.Keeps air monitorConnect := keeps_monitorConnect fun _ _ _ => rfl

/-- The 5 s branch leaves the control side alone. -/
theorem air_tick5s : Cmd.Keeps air tick5s := keeps_tick5s fun _ _ => rfl

/-- The 10 s branch leaves the control side alone. -/
theorem air_tick10s (id : U32) : Cmd.Keeps air (tick10s id) := keeps_tick10s id

/-- The poll may set the control word and nothing else here. -/
theorem air_pollUart1 (id : U32) (heap : Heap) (s : Firmware) :
    air (pollUart1 id heap s).1 = { air s with ctrl := polledCtrl s } := by
  obtain ⟨_, _, hpoll⟩ := moduleInfo_pollUart1 id heap s
  have hrest : ((pollUart1 id heap s).1.task.ctrlPre, (pollUart1 id heap s).1.task.sendCmdCnt,
      (pollUart1 id heap s).1.switchState, (pollUart1 id heap s).1.nowTemp) =
      (s.task.ctrlPre, s.task.sendCmdCnt, s.switchState, s.nowTemp) := by
    dsimp only [pollUart1, Cmd.andThen, Cmd.modify]
    split
    case isFalse => rfl
    split
    · dsimp only [registrationBranch]
      split <;> rfl
    split <;> rfl
  simp only [Prod.mk.injEq] at hrest
  obtain ⟨hpre, hcnt, hswitch, htemp⟩ := hrest
  simp only [air, hpoll, hpre, hcnt, hswitch, htemp]

/-- The input pin leaves the control side alone or gives an on or off command. -/
theorem air_checkIo (pin : U8) (s : Firmware) :
    air (checkIo pin s).1 = air s ∨ air (checkIo pin s).1 = (air s).on ∨
      air (checkIo pin s).1 = (air s).off := by
  unfold checkIo ioCheckProgram ioCommand
  repeat' split
  all_goals first
    | exact .inl rfl
    | exact .inr (.inl rfl)
    | exact .inr (.inr rfl)

/-- A pin that has not moved, or a registered module, gives none. -/
theorem air_checkIo_still {pin : U8} {s : Firmware}
    (h : s.moduleInfo.registerState = registerSucess ∨ pin = s.io.lastState) :
    air (checkIo pin s).1 = air s := by
  unfold checkIo ioCheckProgram
  split
  case isFalse => rfl
  case isTrue hstate =>
    have hsame : ¬ s.io.lastState ≠ pin := fun hne => hne (h.resolve_left hstate).symm
    rw [if_neg hsame]
    rfl

/-- The end of an event: the null event in the copy and in the cell. -/
def finish (s : Firmware) : Firmware := (writeBack (setLocalEvent .null s).1).1

/-- What the `switch` on the event does to the memory. -/
theorem sendEvent_cases (s : Firmware) :
    (s.task.infraredEvent.event = .sendOnTest ∧ (sendEvent.exec s).1 = finish (onTest s).1) ∨
      (s.task.infraredEvent.event = .sendOffTest ∧ (sendEvent.exec s).1 = finish (offTest s).1) ∨
      (¬ IsTest s.task.infraredEvent.event ∧
        ((sendEvent.exec s).1 = s ∨ (sendEvent.exec s).1 = finish s)) := by
  cases hevent : s.task.infraredEvent.event with
  | sendOnTest => exact .inl ⟨rfl, by simp [sendEvent, handles, hevent, sendAndFinish, finish]⟩
  | sendOffTest => exact .inr (.inl ⟨rfl, by simp [sendEvent, handles, hevent, sendAndFinish, finish]⟩)
  | sendMatchOver | sendLearnOnOver | sendLearnOffOver =>
    exact .inr (.inr ⟨by simp [IsTest], .inr (by
      simp [sendEvent, handles, hevent, sendAndFinish, finish, sendMatchOver, sendLearnOnOver,
        sendLearnOffOver])⟩)
  | _ =>
    exact .inr (.inr ⟨by simp [IsTest], .inl (by
      simp [sendEvent, handles, hevent, sendMatchDataToCodeData, sendSaveCommandToCodeData,
        sendInLearnOnMode, sendInLearnOffMode])⟩)

/-- The null event takes no branch of the `switch`, so the test around it changes nothing. -/
theorem state_dispatchEvent (s : Firmware) : (dispatchEvent.exec s).1 = (sendEvent.exec s).1 := by
  by_cases hnull : s.task.infraredEvent.event = .null
  · simp [dispatchEvent, sendEvent, handles, hnull]
  · simp [dispatchEvent, handles, hnull]

/-- The on test gives an on command or nothing. -/
theorem air_onTest (s : Firmware) :
    air (onTest s).1 = air s ∨ air (onTest s).1 = (air s).on := by
  unfold onTest
  repeat' split
  · exact .inr rfl
  · exact .inr rfl
  · exact .inl rfl

/-- The off test gives an off command. -/
theorem air_offTest (s : Firmware) : air (offTest s).1 = (air s).off := by
  unfold offTest
  split <;> rfl

/-- A tick that dispatches a test event may give an on or off command, any other event none. -/
theorem air_dispatchEvent (s : Firmware) :
    (¬ IsTest s.task.infraredEvent.event → air (dispatchEvent.exec s).1 = air s) ∧
      (air (dispatchEvent.exec s).1 = air s ∨ air (dispatchEvent.exec s).1 = (air s).on ∨
        air (dispatchEvent.exec s).1 = (air s).off) := by
  have hfinish : ∀ t, air (finish t) = air t := fun _ => rfl
  rw [state_dispatchEvent]
  rcases sendEvent_cases s with ⟨hon, hstate⟩ | ⟨hoff, hstate⟩ | ⟨-, hstate | hstate⟩
  · rw [hstate, hfinish]
    exact ⟨fun h => absurd (.inl hon) h, (air_onTest s).imp_right .inl⟩
  · rw [hstate, hfinish]
    exact ⟨fun h => absurd (.inr hoff) h, .inr (.inr (air_offTest s))⟩
  · rw [hstate]
    exact ⟨fun _ => rfl, .inl rfl⟩
  · rw [hstate, hfinish]
    exact ⟨fun _ => rfl, .inl rfl⟩

/-- A tick leaves no test event in the cell that was not there. -/
theorem cell_dispatchEvent {s : Firmware} (h : ¬ IsTest s.infraredEvent.event)
    (hcopy : s.task.infraredEvent = s.infraredEvent) :
    ¬ IsTest (dispatchEvent.exec s).1.infraredEvent.event := by
  have hfinish : ¬ IsTest (finish s).infraredEvent.event := by simp [finish, IsTest, setLocalEvent,
    writeBack, setinfraredEvent]
  rw [state_dispatchEvent]
  rcases sendEvent_cases s with ⟨hon, -⟩ | ⟨hoff, -⟩ | ⟨-, hstate | hstate⟩
  · exact absurd (.inl (hcopy ▸ hon)) h
  · exact absurd (.inr (hcopy ▸ hoff)) h
  · rwa [hstate]
  · rwa [hstate]

/-! ## What an iteration does to it -/

/-- At the tick the control side is that at the poll, with the word the poll has set. -/
theorem air_atTick (id : U32) (pin : U8) (heap : Heap) (s : Firmware) :
    air (atTick id pin heap s) = { air (atPoll pin s) with ctrl := polledCtrl (atPoll pin s) } := by
  rw [atTick, air_tick100ms, air_saveFlash]
  simp only [beforeSave, Cmd.andThen_apply]
  rw [air_uart2Replies, show (checkIo pin (timers s).1).1 = atPoll pin s from rfl, air_pollUart1]

/-- The state in which the tick of an iteration looks at the control word. -/
def atSend (id : U32) (pin : U8) (heap : Heap) (s : Firmware) : Firmware :=
  (toSend id (atTick id pin heap s)).1

/-- Between the poll and the end of the tick only a test event touches the control side. -/
theorem air_toSend (id : U32) (s : Firmware) :
    (¬ IsTest s.infraredEvent.event → air (toSend id s).1 = air s) ∧
      (air (toSend id s).1 = air s ∨ air (toSend id s).1 = (air s).on ∨
        air (toSend id s).1 = (air s).off) := by
  simp only [toSend, Cmd.andThen_apply]
  rw [air_monitorConnect, air_startRegister, air_lights]
  exact air_dispatchEvent (sampleEvents s).1

/-- **What an iteration does to the control side.** -/
theorem air_iteration (chip : Chip) (pin : U8) (heap : Heap) (s : Firmware) :
    air (firmware chip (.iteration pin heap) s).1 =
      if ticks s then (air (atSend (readUniqueId chip) pin heap s)).second
      else air (atTick (readUniqueId chip) pin heap s) := by
  rw [firmware_toTick]
  simp only [Cmd.andThen_apply]
  rw [air_tick10s, air_tick5s, exec_tick1s,
    show (toTick (readUniqueId chip) pin heap s).1 = atTick (readUniqueId chip) pin heap s from rfl,
    touch_atTick]
  split
  · rw [Cmd.andThen_apply, air_sendThreeTimes]
    rfl
  · rfl

/-! ## Control commands sent -/

/-- The calls of `sendCtrlCommandToCodeData` in a step. -/
def ctrlCalls (chip : Chip) (s : Firmware) (i : Input) : ℕ := (firmware chip i s).2.count .sendCtrl

/-- Observations other than such a call. -/
def NotSend : Obs → Prop
  | .sendCtrl => False
  | _ => True

/-- Where nothing is a send, no control command is counted. -/
theorem count_sendCtrl_of_emits {out : List Obs} (h : ∀ o ∈ out, NotSend o) :
    out.count .sendCtrl = 0 :=
  List.count_eq_zero.mpr fun hmem => h _ hmem

/-- Up to its tick an iteration sends no control command. -/
theorem notSend_toTick (id : U32) (pin : U8) (heap : Heap) :
    Cmd.Emits NotSend (toTick id pin heap) := by
  refine .andThen (.andThen (Cmd.emits_modify _) (.andThen (kinds_checkIo (fun _ => trivial) pin)
    (.andThen ?_ ?_))) (.andThen (kinds_saveFlash fun _ => trivial) (kinds_tick100ms fun _ _ => trivial))
  · exact kinds_pollUart1 (fun _ _ => trivial) (fun _ _ => trivial)
      (kinds_analyzeMasterData (fun _ _ => trivial) fun _ => trivial) id heap
  · exact kinds_uart2Replies (fun _ => trivial) (fun _ _ _ => trivial) fun _ => trivial

/-- Up to the end of its tick an iteration sends no control command. -/
theorem notSend_toSend (id : U32) : Cmd.Emits NotSend (toSend id) :=
  .andThen (Cmd.emits_modify _) (.andThen
    (kinds_dispatchEvent (fun _ => trivial) (fun _ => trivial) fun _ => trivial)
    (.andThen (kinds_lights fun _ _ => trivial)
      (.andThen (kinds_startRegister (fun _ _ => trivial) (fun _ => trivial) id)
        kinds_monitorConnect)))

/-- The end of a tick sends exactly one command when it is due. -/
theorem count_sendThreeTimes (s : Firmware) :
    (sendThreeTimes s).2.count .sendCtrl = if (air s).Due then 1 else 0 := by
  have hsend : ∀ t, (sendCtrlCommandToCodeData t).2.count .sendCtrl = 1 := by
    intro t
    have hrest : ∀ o ∈ (sendCtrlCommandToCodeData t).2.tail, NotSend o := by
      dsimp only [sendCtrlCommandToCodeData, Cmd.andThen, Cmd.emit]
      by_cases hmatch : t.moduleInfo.select = selectMatch
      · rw [if_pos hmatch]
        exact emits_singleton trivial
      rw [if_neg hmatch]
      repeat' split
      · exact kinds_sendLearned (fun _ => trivial) _ _ _ t
      · exact kinds_sendLearned (fun _ => trivial) _ _ _ t
      · exact emits_nil
    have hhead : (sendCtrlCommandToCodeData t).2 =
        .sendCtrl :: (sendCtrlCommandToCodeData t).2.tail := rfl
    rw [hhead, List.count_cons_self, count_sendCtrl_of_emits hrest]
  unfold sendThreeTimes
  by_cases hchanged : s.task.ctrlPre ≠ s.moduleInfo.ctrl
  · have hdue : (air s).Due := .inl hchanged
    simp only [if_pos hchanged, if_pos hdue, Cmd.andThen_apply, Cmd.modify_apply, List.nil_append,
      List.append_nil, hsend]
  by_cases hcount : s.task.sendCmdCnt < 2
  · have hdue : (air s).Due := .inr hcount
    simp only [if_neg hchanged, if_pos hcount, if_pos hdue, Cmd.andThen_apply, Cmd.modify_apply,
      List.nil_append, hsend]
  · have hdue : ¬ (air s).Due := fun h => h.elim hchanged hcount
    rw [if_neg hchanged, if_neg hcount, if_neg hdue, List.count_nil]

/-- **When an iteration sends a control command**: at its tick, when one is due. -/
theorem ctrlCalls_iteration (chip : Chip) (pin : U8) (heap : Heap) (s : Firmware) :
    ctrlCalls chip s (.iteration pin heap) =
      if ticks s = true ∧ (air (atSend (readUniqueId chip) pin heap s)).Due then 1 else 0 := by
  have hlate : Cmd.Emits NotSend (Cmd.andThen tick5s (tick10s (readUniqueId chip))) :=
    kinds_tick5s.andThen (kinds_tick10s (fun _ _ => trivial) (fun _ => trivial) _)
  rw [ctrlCalls, firmware_toTick, Cmd.andThen_apply]
  simp only [List.count_append]
  rw [count_sendCtrl_of_emits (notSend_toTick _ pin heap s), Cmd.andThen_apply]
  simp only [List.count_append]
  rw [count_sendCtrl_of_emits (hlate _), exec_tick1s,
    show (toTick (readUniqueId chip) pin heap s).1 = atTick (readUniqueId chip) pin heap s from rfl,
    touch_atTick]
  cases ticks s with
  | false => simp
  | true =>
    simp only [if_true, true_and, Cmd.andThen_apply, List.count_append, count_sendThreeTimes,
      count_sendCtrl_of_emits (notSend_toSend _ _), Nat.zero_add, Nat.add_zero]
    rfl

/-- The other threads send no control command. -/
theorem ctrlCalls_peer (chip : Chip) (p : Peer) (s : Firmware) : ctrlCalls chip s (.peer p) = 0 :=
  count_sendCtrl_of_emits
    (kinds_peerStep (fun _ => trivial) (fun _ => trivial) (fun _ => trivial) p s)

/-! ## How often a new control word is sent -/

namespace Air

/-- The sender leaves the word as it is: in learn mode it stores the word of the code it sends. -/
def Steady (a : Air) : Prop := a.select = selectMatch ∨ a.ctrl = 0xE000 ∨ a.ctrl = 0x6000

/-- Which fields `command` may change. -/
theorem command_fields (a : Air) :
    a.command.ctrlPre = a.ctrlPre ∧ a.command.sendCmdCnt = a.sendCmdCnt ∧
      a.command.select = a.select := by
  unfold command
  repeat' split
  all_goals exact ⟨rfl, rfl, rfl⟩

/-- The sender leaves a steady word. -/
theorem command_ctrl_of_steady {a : Air} (h : a.Steady) : a.command.ctrl = a.ctrl := by
  unfold command
  split
  · rfl
  rename_i hmode
  split
  · rcases h with hmatch | hon | hoff
    · exact absurd hmatch hmode
    · rw [hon, if_pos (by decide)]
      rfl
    · rw [hoff, if_neg (by decide)]
      rfl
  · rfl

/-- A steady word stays; the tick copies it, and the counter starts anew or goes on. -/
theorem second_of_steady {a : Air} (h : a.Steady) :
    a.second.ctrl = a.ctrl ∧ a.second.ctrlPre = a.ctrl ∧ a.second.Steady ∧
      a.second.sendCmdCnt = if a.ctrlPre ≠ a.ctrl then 0
        else if a.sendCmdCnt < 2 then a.sendCmdCnt + 1 else a.sendCmdCnt := by
  have hkeep : ∀ b : Air, b.ctrl = a.ctrl → b.select = a.select →
      b.command.ctrl = a.ctrl ∧ b.command.ctrlPre = b.ctrlPre ∧ b.command.select = a.select ∧
        b.command.sendCmdCnt = b.sendCmdCnt := by
    intro b hctrl hmode
    have hsteady : b.Steady := by rwa [Steady, hctrl, hmode]
    obtain ⟨hpre, hcnt, hselect⟩ := b.command_fields
    exact ⟨(command_ctrl_of_steady hsteady).trans hctrl, hpre, hselect.trans hmode, hcnt⟩
  unfold second
  by_cases hchanged : a.ctrlPre ≠ a.ctrl
  · obtain ⟨hctrl, hpre, hmode, -⟩ := hkeep { a with ctrlPre := a.ctrl } rfl rfl
    rw [if_pos hchanged, if_pos hchanged]
    refine ⟨hctrl, hpre, ?_, rfl⟩
    simp only [Steady, hctrl, hmode]
    exact h
  have hsame : a.ctrlPre = a.ctrl := not_not.mp hchanged
  rw [if_neg hchanged, if_neg hchanged]
  by_cases hcount : a.sendCmdCnt < 2
  · obtain ⟨hctrl, hpre, hmode, hcnt⟩ := hkeep { a with sendCmdCnt := a.sendCmdCnt + 1 } rfl rfl
    rw [if_pos hcount, if_pos hcount]
    refine ⟨hctrl, hpre.trans hsame, ?_, hcnt⟩
    simp only [Steady, hctrl, hmode]
    exact h
  · rw [if_neg hcount, if_neg hcount]
    exact ⟨rfl, hsame, h, rfl⟩

/-- `k + 1` ticks after a change to a steady word the counter is at `k`, up to two. -/
theorem iterate_second {a : Air} (h : a.Steady) (hnew : a.ctrlPre ≠ a.ctrl) (k : ℕ) :
    (second^[k + 1] a).ctrlPre = (second^[k + 1] a).ctrl ∧ (second^[k + 1] a).Steady ∧
      (second^[k + 1] a).sendCmdCnt.toNat = min k 2 := by
  induction k with
  | zero =>
    obtain ⟨hctrl, hpre, hsteady, hcnt⟩ := second_of_steady h
    rw [if_pos hnew] at hcnt
    simp only [Nat.zero_add, Function.iterate_one]
    exact ⟨hpre.trans hctrl.symm, hsteady, by rw [hcnt]; rfl⟩
  | succ k ih =>
    rw [Function.iterate_succ_apply' second (k + 1) a]
    generalize second^[k + 1] a = b at ih
    obtain ⟨hsame, hsteady, hcount⟩ := ih
    obtain ⟨hctrl, hpre, hsteady', hcnt⟩ := second_of_steady hsteady
    refine ⟨hpre.trans hctrl.symm, hsteady', ?_⟩
    rw [hcnt, if_neg (not_not.mpr hsame)]
    by_cases hless : b.sendCmdCnt < 2
    · have hlt : b.sendCmdCnt.toNat < 2 := hless
      rw [if_pos hless, BitVec.toNat_add, show (1 : U8).toNat = 1 from rfl]
      omega
    · have hge : 2 ≤ b.sendCmdCnt.toNat := not_lt.mp hless
      rw [if_neg hless]
      omega

/-- A steady word is sent at the first three ticks. -/
theorem due_steady {a : Air} (h : a.Steady) (hnew : a.ctrlPre ≠ a.ctrl) (k : ℕ) :
    (second^[k] a).Due ↔ k < 3 := by
  cases k with
  | zero => exact iff_of_true (.inl hnew) (by omega)
  | succ k =>
    obtain ⟨hsame, -, hcount⟩ := iterate_second h hnew k
    have hless : (second^[k + 1] a).sendCmdCnt < 2 ↔ min k 2 < 2 := by
      rw [← hcount]
      exact Iff.rfl
    rw [Due, or_iff_right (not_not.mpr hsame), hless]
    omega

/-- A word the sender replaces is a change of its own, one tick later. -/
theorem due_unsteady {a : Air} (hmode : a.select = selectLearn) (h : ¬ a.Steady)
    (hnew : a.ctrlPre ≠ a.ctrl) (k : ℕ) : (second^[k] a).Due ↔ k < 4 := by
  have hlearn : ¬ selectLearn = selectMatch := by decide
  obtain ⟨-, hon, hoff⟩ : ¬ a.select = selectMatch ∧ ¬ a.ctrl = 0xE000 ∧ ¬ a.ctrl = 0x6000 := by
    rwa [Steady, not_or, not_or] at h
  have hnext : a.second.Steady ∧ a.second.ctrlPre ≠ a.second.ctrl := by
    rw [second, if_pos hnew, command]
    simp only [hmode, hlearn, if_false, if_true]
    split
    · exact ⟨.inr (.inl rfl), hon⟩
    · exact ⟨.inr (.inr rfl), hoff⟩
  cases k with
  | zero => exact iff_of_true (.inl hnew) (by omega)
  | succ k =>
    rw [Function.iterate_succ_apply, due_steady hnext.1 hnext.2]
    omega

end Air

/-! ## A write and the ticks after it -/

/-- The step is an iteration with a one-second tick. -/
def isTick (s : Firmware) : Input → Bool
  | .peer _ => false
  | .iteration _ _ => ticks s

/-- The ticks of a run. -/
def tickCount (chip : Chip) (s : Firmware) (inputs : List Input) : ℕ :=
  occurrences (firmware chip) isTick s inputs

/-- No other input in a step: no burst from the hub, no event posted, the mode left as it is, and the
input pin at rest or not looked at. -/
def Undisturbed (s : Firmware) : Input → Prop
  | .peer (.uart1Burst _) => False
  | .peer p => ¬ Stores s p ∧ (peerStep p s).1.moduleInfo.select = s.moduleInfo.select
  | .iteration pin _ => s.moduleInfo.registerState = registerSucess ∨ pin = s.io.lastState

instance (s : Firmware) (i : Input) : Decidable (Undisturbed s i) :=
  match i with
  | .peer (.uart1Burst _) => inferInstanceAs (Decidable False)
  | .peer (.uart2Burst _) | .peer (.enterBtn _) | .peer (.upBtn _) | .peer (.dowmBtn _)
  | .peer .oledIteration => inferInstanceAs (Decidable (¬ _ ∧ _))
  | .iteration _ _ => inferInstanceAs (Decidable (_ ∨ _))

/-- What it means that another thread does not disturb. -/
theorem Undisturbed.peer {s : Firmware} {p : Peer} (h : Undisturbed s (.peer p)) :
    (∀ bytes, p ≠ .uart1Burst bytes) ∧ ¬ Stores s p ∧
      (peerStep p s).1.moduleInfo.select = s.moduleInfo.select := by
  cases p with
  | uart1Burst bytes => exact h.elim
  | _ => exact ⟨fun _ => by simp, h⟩

/-- The control side as it will be when the frame that waits has been handled. -/
def pending (s : Firmware) : Air := { air s with ctrl := polledCtrl s }

/-- What the undisturbed steps after a write keep: the control side is what `n` ticks make of the
one the write left, and no test event waits. -/
structure Repeating (a : Air) (n : ℕ) (s : Firmware) : Prop where
  control : pending s = Air.second^[n] a
  cell : ¬ IsTest s.infraredEvent.event

/-- When no frame waits, what is pending is what is there. -/
theorem pending_of_read {s : Firmware} (h : s.uart1Msg.messageFlag = false) : pending s = air s := by
  have hrequest : ¬ Requested s := fun hr => by
    rw [Requested, h] at hr
    exact Bool.false_ne_true hr.1
  rw [pending, polledCtrl, if_neg fun hwrite => hrequest hwrite.1]
  rfl

/-- No peer reaches the control side but through the mode. -/
theorem air_peerStep (p : Peer) (s : Firmware) :
    air (peerStep p s).1 = { air s with select := (peerStep p s).1.moduleInfo.select } := by
  have hcore : air (core (peerStep p s).1) = air (core s) := congrArg air (core_peerStep p s)
  exact congrArg (fun a : Air => { a with select := (peerStep p s).1.moduleInfo.select }) hcore

/-- A peer that does not disturb changes nothing here. -/
theorem Repeating.peer {a : Air} {n : ℕ} {s : Firmware} (h : Repeating a n s) {p : Peer}
    (hp : Undisturbed s (.peer p)) : Repeating a n (peerStep p s).1 := by
  obtain ⟨hburst, hstores, hmode⟩ := hp.peer
  obtain ⟨hslot, haddr⟩ := slot_peer hburst s
  have hair : air (peerStep p s).1 = air s := by
    rw [air_peerStep, hmode]
    rfl
  have hpending : pending (peerStep p s).1 = pending s := by
    rw [pending, hair, polledCtrl_congr hslot haddr (congrArg Air.ctrl hair)]
    rfl
  refine ⟨hpending.trans h.control, ?_⟩
  have hquiet : ¬ Storing (peerStep p s).2 := fun hs => hstores ((storing_peerStep p s).mp hs)
  obtain ⟨-, ⟨hcell, -⟩ | ⟨-, hmem⟩⟩ := event_peer p s
  · rw [hcell]
    exact h.cell
  · exact absurd ⟨_, hmem⟩ hquiet

section Iteration

variable {a : Air} {n : ℕ} {s : Firmware} {pin : U8} {heap : Heap}

/-- An undisturbed iteration comes to its tick with the control side that was pending. -/
theorem air_atTick_undisturbed (hstill : Undisturbed s (.iteration pin heap)) (id : U32) :
    air (atTick id pin heap s) = pending s := by
  have hair : air (atPoll pin s) = air s := air_checkIo_still (s := (timers s).1) hstill
  rw [air_atTick, hair,
    polledCtrl_congr (slot_atPoll pin s) (addr_atPoll pin s) (congrArg Air.ctrl hair)]
  rfl

/-- At the tick no test event is in the cell. -/
theorem Repeating.cell_atTick (h : Repeating a n s) (id : U32) :
    ¬ IsTest (atTick id pin heap s).infraredEvent.event := by
  obtain ⟨hback, hleft⟩ := cell_beforeSave id pin heap s
  rw [InfraredModule.Analysis.cell_atTick]
  by_cases hwrites : WritesBack s
  · rcases hback hwrites with h | h | h | h <;> rw [h] <;> simp [IsTest]
  · rw [hleft hwrites]
    exact h.cell

/-- At the end of the tick the control side is what the ticks so far have made of it. -/
theorem Repeating.air_atSend (h : Repeating a n s) (hstill : Undisturbed s (.iteration pin heap))
    (id : U32) : air (atSend id pin heap s) = Air.second^[n] a := by
  rw [atSend, (air_toSend id _).1 (h.cell_atTick id), air_atTick_undisturbed hstill, h.control]

/-- After the dispatch a tick leaves the cell alone. -/
theorem cell_afterDispatch (id : U32) (u : Firmware) :
    (sendThreeTimes (monitorConnect (startRegister id (lights u).1).1).1).1.infraredEvent =
      u.infraredEvent := by
  have hcell : ∀ {c : FwCmd}, Incidental c → ∀ t, (c t).1.infraredEvent = t.infraredEvent :=
    fun hc t => congrArg Vital.cell (hc.keeps t)
  rw [hcell incidental_sendThreeTimes, hcell incidental_monitorConnect,
    hcell (incidental_startRegister id), hcell incidental_lights]

/-- A tick leaves no test event behind. -/
theorem Repeating.cell_iteration (h : Repeating a n s) (chip : Chip) :
    ¬ IsTest (firmware chip (.iteration pin heap) s).1.infraredEvent.event := by
  have htick : ¬ IsTest (toTick (readUniqueId chip) pin heap s).1.infraredEvent.event :=
    h.cell_atTick _
  have hlate : ∀ t, (Cmd.andThen tick5s (tick10s (readUniqueId chip)) t).1.infraredEvent =
      t.infraredEvent := fun t =>
    congrArg Vital.cell ((incidental_tick5s.andThen (incidental_tick10s _)).keeps t)
  rw [firmware_toTick, Cmd.andThen_apply, Cmd.andThen_apply]
  dsimp only
  rw [hlate, exec_tick1s]
  split
  · simp only [toSend, Cmd.andThen_apply]
    rw [cell_afterDispatch]
    exact cell_dispatchEvent htick rfl
  · exact htick

/-- An undisturbed iteration counts its tick. -/
theorem Repeating.iteration (h : Repeating a n s) (hstill : Undisturbed s (.iteration pin heap))
    (chip : Chip) : Repeating a (n + if isTick s (.iteration pin heap) then 1 else 0)
      (firmware chip (.iteration pin heap) s).1 := by
  refine ⟨?_, h.cell_iteration chip⟩
  have hread : (firmware chip (.iteration pin heap) s).1.uart1Msg.messageFlag = false := by
    rw [uart1Msg_iteration]
  rw [pending_of_read hread, air_iteration, isTick]
  cases ticks s with
  | true =>
    rw [if_pos rfl, if_pos rfl, h.air_atSend hstill, Function.iterate_succ_apply']
  | false =>
    simp only [Bool.false_eq_true, if_false, Nat.add_zero]
    rw [air_atTick_undisturbed hstill, h.control]

/-- At an undisturbed tick a command goes out when the repeated control side says so. -/
theorem Repeating.ctrlCalls (h : Repeating a n s) (hstill : Undisturbed s (.iteration pin heap))
    (chip : Chip) : ctrlCalls chip s (.iteration pin heap) =
      if isTick s (.iteration pin heap) = true ∧ (Air.second^[n] a).Due then 1 else 0 := by
  rw [ctrlCalls_iteration, h.air_atSend hstill]
  rfl

end Iteration

/-- Undisturbed runs: the control side is what the ticks so far make of it. -/
theorem repeating_run {a : Air} {chip : Chip} {s : Firmware} (h : Repeating a 0 s)
    {inputs : List Input} (hquiet : Along (firmware chip) s inputs fun _ => Undisturbed) :
    Repeating a (tickCount chip s inputs) (run (firmware chip) s inputs) := by
  refine run_invariant (fun before t => Repeating a (tickCount chip s before) t)
    (fun _ => Undisturbed) h ?_ hquiet
  intro before i hrepeat hstep
  rw [tickCount, occurrences_concat]
  cases i with
  | peer p => exact hrepeat.peer hstep
  | iteration pin heap => exact hrepeat.iteration hstep chip

/-- A frame that `Uart1_input` accepts and the poll executes as a write of the control register. -/
def IsCtrlWrite (addr : U8) (f : List U8) : Prop :=
  Accepts addr f ∧ byteAt f 0 ≠ registerCode ∧ IsWrite f f.length registerCtrl

/-- The value it writes. -/
def ctrlValue (f : List U8) : U16 := word16 (byteAt f 4) (byteAt f 5)

/-- In a run, `sendCtrlCommandToCodeData` is called once at each of the first three ticks, and at no
other time. -/
def SentThreeTimes (chip : Chip) (s : Firmware) (inputs : List Input) : Prop :=
  Along (firmware chip) s inputs fun before t i =>
    ctrlCalls chip t i = if isTick t i = true ∧ tickCount chip s before < 3 then 1 else 0

/-- The memory after a burst from the hub. -/
def afterBurst (f : List U8) (s : Firmware) : Firmware := (peerStep (.uart1Burst f) s).1

/-- What an accepted write leaves pending. -/
theorem pending_afterBurst {s : Firmware} {f : List U8} (hwrite : IsCtrlWrite s.moduleInfo.addr f) :
    pending (afterBurst f s) = { air s with ctrl := ctrlValue f } := by
  obtain ⟨haccept, hcode, hfunction, hsize, hreg⟩ := hwrite
  have hbyte : ∀ i < 8, byteAt (s.uart1Msg.receive f).data i = byteAt f i := fun i hi =>
    RxMsg.byteAt_receive _ _ (by omega)
  have haddr : s.moduleInfo.addr = byteAt f 0 := haccept.2.1.resolve_left hcode
  have hstate : afterBurst f s =
      { s with uart1Msg := { s.uart1Msg.receive f with messageFlag := true } } := by
    show (uart1Input f s).2 = _
    rw [uart1Input_eq, if_pos haccept]
  have hexecuted : Requested (afterBurst f s) ∧ IsWrite (afterBurst f s).uart1Msg.data
      (afterBurst f s).uart1Msg.size registerCtrl := by
    rw [hstate]
    simp only [Requested, IsWrite, requestStart, hbyte 0 (by omega), hbyte 1 (by omega),
      hbyte 2 (by omega), hbyte 3 (by omega)]
    exact ⟨⟨trivial, hcode, haddr⟩, hfunction, hsize, hreg⟩
  rw [pending, polledCtrl, if_pos hexecuted, hstate]
  simp only [hbyte 4 (by omega), hbyte 5 (by omega)]
  rfl

/-- The commands sent in an undisturbed run after a write, step by step. -/
theorem ctrlCalls_run {a : Air} {chip : Chip} {s : Firmware} (h : Repeating a 0 s)
    {before : List Input} {i : Input} {after : List Input}
    (hquiet : Along (firmware chip) s (before ++ i :: after) fun _ => Undisturbed) :
    ctrlCalls chip (run (firmware chip) s before) i =
      if isTick (run (firmware chip) s before) i = true ∧
        (Air.second^[tickCount chip s before] a).Due then 1 else 0 := by
  cases i with
  | peer p =>
    rw [ctrlCalls_peer, isTick, if_neg fun h => Bool.false_ne_true h.1]
  | iteration pin heap =>
    exact (repeating_run h hquiet.of_append).ctrlCalls (hquiet _ _ _ rfl) chip

/-- So the commands go out as they should when the repeated control side is due at the first three
ticks only. -/
theorem sentThreeTimes_iff_due {a : Air} {chip : Chip} {s : Firmware} (h : Repeating a 0 s)
    {w : List Input} (hquiet : Along (firmware chip) s w fun _ => Undisturbed) :
    SentThreeTimes chip s w ↔ ∀ before i after, w = before ++ i :: after →
      isTick (run (firmware chip) s before) i = true →
      ((Air.second^[tickCount chip s before] a).Due ↔ tickCount chip s before < 3) := by
  refine forall_congr' fun before => forall_congr' fun i => forall_congr' fun after =>
    forall_congr' fun hin => ?_
  beta_reduce
  rw [ctrlCalls_run h (hin ▸ hquiet)]
  by_cases htick : isTick (run (firmware chip) s before) i = true
  · by_cases hdue : (Air.second^[tickCount chip s before] a).Due <;>
      by_cases hless : tickCount chip s before < 3 <;> simp [htick, hdue, hless]
  · simp [htick]

/-- **When a control change is sent exactly three times.** From any state whose control word the task
has already seen, in either mode and with no test event waiting: after an accepted write of another
control word, and then an undisturbed run of at least three ticks, the command has gone out exactly at
the first three ticks, if and only if the mode is match, or the word is one of the two that learn mode
stores, or there were just three ticks. The counter plays no part, since the change resets it.
SOURCE: Uart.c:522-537, infrared.c:64-107, 158-200 -/
theorem sentThreeTimes_iff (chip : Chip) (s : Firmware) (f : List U8) (w : List Input)
    (hseen : s.task.ctrlPre = s.moduleInfo.ctrl)
    (hmode : s.moduleInfo.select = selectMatch ∨ s.moduleInfo.select = selectLearn)
    (hcell : ¬ IsTest s.infraredEvent.event) (hwrite : IsCtrlWrite s.moduleInfo.addr f)
    (hnew : ctrlValue f ≠ s.moduleInfo.ctrl)
    (hquiet : Along (firmware chip) (afterBurst f s) w fun _ => Undisturbed)
    (hticks : 3 ≤ tickCount chip (afterBurst f s) w) :
    SentThreeTimes chip (afterBurst f s) w ↔
      s.moduleInfo.select = selectMatch ∨ ctrlValue f = 0xE000 ∨ ctrlValue f = 0x6000 ∨
        tickCount chip (afterBurst f s) w = 3 := by
  have hcell' : ¬ IsTest (afterBurst f s).infraredEvent.event := by
    have hvital : (afterBurst f s).infraredEvent = s.infraredEvent :=
      congrArg Vital.cell (vital_uart1Burst f s)
    rwa [hvital]
  generalize ha : ({ air s with ctrl := ctrlValue f } : Air) = a
  have hstart : Repeating a 0 (afterBurst f s) := ⟨(pending_afterBurst hwrite).trans ha, hcell'⟩
  have hchanged : a.ctrlPre ≠ a.ctrl := by
    rw [← ha]
    exact fun h => hnew (h.symm.trans hseen)
  have hsteady : a.Steady ↔ s.moduleInfo.select = selectMatch ∨ ctrlValue f = 0xE000 ∨
      ctrlValue f = 0x6000 := by
    rw [← ha]
    exact Iff.rfl
  rw [sentThreeTimes_iff_due hstart hquiet]
  by_cases hword : a.Steady
  · refine iff_of_true (fun before i after _ _ => Air.due_steady hword hchanged _) ?_
    rcases hsteady.mp hword with h | h | h
    · exact .inl h
    · exact .inr (.inl h)
    · exact .inr (.inr (.inl h))
  have hlearn : a.select = selectLearn := by
    rw [← ha]
    exact hmode.resolve_left fun h => hword (hsteady.mpr (.inl h))
  have hdue := Air.due_unsteady hlearn hword hchanged
  constructor
  · intro hsent
    refine .inr (.inr (.inr ?_))
    by_contra hmore
    -- the fourth tick is due as well
    have hfour : 3 < tickCount chip (afterBurst f s) w := by omega
    obtain ⟨before, i, after, hin, htick, hcount⟩ := exists_occurrence _ _ _ hfour
    have hthree : tickCount chip (afterBurst f s) before = 3 := hcount
    have hfourth := hsent before i after hin htick
    rw [hdue, hthree] at hfourth
    omega
  · intro hcases before i after hin htick
    have hthree : tickCount chip (afterBurst f s) w = 3 := by
      rcases hcases with h | h | h | h
      · exact absurd (hsteady.mpr (.inl h)) hword
      · exact absurd (hsteady.mpr (.inr (.inl h))) hword
      · exact absurd (hsteady.mpr (.inr (.inr h))) hword
      · exact h
    have hnext := occurrences_le_append (firmware chip) isTick (afterBurst f s) (before ++ [i]) after
    rw [occurrences_concat, htick, if_pos rfl, List.append_assoc, List.singleton_append, ← hin] at hnext
    have hcount : tickCount chip (afterBurst f s) before + 1 ≤ tickCount chip (afterBurst f s) w := hnext
    rw [hdue]
    omega

instance (addr : U8) (f : List U8) : Decidable (IsCtrlWrite addr f) :=
  inferInstanceAs (Decidable (_ ∧ _ ∧ _))

instance (chip : Chip) (s : Firmware) (w : List Input) : Decidable (SentThreeTimes chip s w) :=
  inferInstanceAs (Decidable (Along _ _ _ _))

/-- A write of 0x8000 to the control register. -/
def writeCtrl : List U8 := [0x01, 0x06, 0x01, 0x00, 0x80, 0x00, 0xE9, 0xF6]

/-- Iterations up to and with the fourth tick after power-on. -/
def fourTicks : List Input := List.replicate 84 (.iteration 1 Heap.ample)

set_option maxRecDepth 20000 in
/-- In match mode the write is sent three times. -/
theorem sentThreeTimes_match :
    tickCount ⟨0, 0, 0⟩ (afterBurst writeCtrl
        (boot (Vector.replicate 12 0xFF) (Vector.replicate 10 0))) fourTicks = 4 ∧
      SentThreeTimes ⟨0, 0, 0⟩ (afterBurst writeCtrl
        (boot (Vector.replicate 12 0xFF) (Vector.replicate 10 0))) fourTicks := by
  have hticks : tickCount ⟨0, 0, 0⟩ (afterBurst writeCtrl
      (boot (Vector.replicate 12 0xFF) (Vector.replicate 10 0))) fourTicks = 4 := by decide +kernel
  refine ⟨hticks, (sentThreeTimes_iff _ _ _ _ rfl (.inl rfl) (by decide +kernel) (by decide +kernel)
    (by decide +kernel) (by decide +kernel) (by rw [hticks]; decide)).mpr (.inl rfl)⟩

/-- A flash page that selects learn mode. -/
def learnFlash : FlashPage :=
  #v[0xFF, 0xFF, 0xFF, 0xFF, 0xFF, 0xFF, 0xFF, 0xFF, 0xFF, 0xFF, 0x01, 0xFF]

set_option maxRecDepth 20000 in
/-- In learn mode the write is sent four times: the first command stores 0xE000, and the next tick
takes that for a new control word. -/
theorem sent_four_times_learn :
    let s := boot learnFlash (Vector.replicate 10 0)
    (s.task.ctrlPre = s.moduleInfo.ctrl ∧ s.task.sendCmdCnt = 2 ∧
      s.moduleInfo.select = selectLearn ∧ s.infraredEvent.event = .null) ∧
    (IsCtrlWrite s.moduleInfo.addr writeCtrl ∧ ctrlValue writeCtrl ≠ s.moduleInfo.ctrl) ∧
    Along (firmware ⟨0, 0, 0⟩) (afterBurst writeCtrl s) fourTicks (fun _ => Undisturbed) ∧
    tickCount ⟨0, 0, 0⟩ (afterBurst writeCtrl s) fourTicks = 4 ∧
    ctrlCalls ⟨0, 0, 0⟩ (run (firmware ⟨0, 0, 0⟩) (afterBurst writeCtrl s)
      (List.replicate 83 (.iteration 1 Heap.ample))) (.iteration 1 Heap.ample) = 1 ∧
    ¬ SentThreeTimes ⟨0, 0, 0⟩ (afterBurst writeCtrl s) fourTicks := by
  decide +kernel

/-! ## Does the display show the control word? -/

namespace Air

/-- The switch and the temperature are those of the control word. -/
def Displayed (a : Air) : Prop :=
  (a.switchState = yes ↔ a.ctrl.getLsbD 15 = true) ∧ a.nowTemp = getTempByCtrl a.ctrl

instance (a : Air) : Decidable a.Displayed := inferInstanceAs (Decidable (_ ∧ _))

/-- A command shows the temperature of its word. -/
theorem put_nowTemp (a : Air) (state : U8) (ctr : U16) :
    (a.put state ctr).nowTemp = getTempByCtrl (a.put state ctr).ctrl := rfl

/-- After an on command the display agrees with the word. -/
theorem on_displayed (a : Air) : a.on.Displayed := by
  have hbit : a.on.ctrl.getLsbD 15 = true := (by decide : (0xE000 : U16).getLsbD 15 = true)
  exact ⟨iff_of_true rfl hbit, put_nowTemp _ _ _⟩

/-- After an off command the display agrees with the word. -/
theorem off_displayed (a : Air) : a.off.Displayed := by
  have hswitch : a.off.switchState ≠ yes := (by decide : no ≠ yes)
  have hbit : ¬ a.off.ctrl.getLsbD 15 = true := (by decide : ¬ (0x6000 : U16).getLsbD 15 = true)
  exact ⟨iff_of_false hswitch hbit, put_nowTemp _ _ _⟩

/-- The test of `sendCtrlCommandToCodeData` looks at bit 15. -/
theorem ctrl_and_pos (x : U16) : x &&& 0x8000 > 0 ↔ x.getLsbD 15 = true := by
  rw [show (0x8000 : U16) = BitVec.twoPow 16 15 from rfl, BitVec.and_twoPow]
  split
  · rename_i hbit
    exact iff_of_true (by decide) hbit
  · rename_i hbit
    exact iff_of_false (by decide) hbit

/-- In either mode a command leaves the display in agreement. -/
theorem command_displayed {a : Air} (hmode : a.select = selectMatch ∨ a.select = selectLearn) :
    a.command.Displayed := by
  unfold command
  split
  · refine ⟨?_, rfl⟩
    rw [← ctrl_and_pos]
    show (if _ then yes else no) = yes ↔ _
    split
    · rename_i hbit
      exact iff_of_true rfl hbit
    · rename_i hbit
      exact iff_of_false (by decide) hbit
  · rename_i hmatch
    rw [if_pos (hmode.resolve_left hmatch)]
    split
    · exact a.on_displayed
    · exact a.off_displayed

/-- The display agrees unless the next tick sends. -/
def Settled (a : Air) : Prop := ¬ a.Due → a.Displayed

/-- A tick leaves the display in agreement: it sends, or there was agreement before. -/
theorem second_displayed {a : Air} (hmode : a.select = selectMatch ∨ a.select = selectLearn)
    (h : a.Settled) : a.second.Displayed := by
  unfold second
  by_cases hchanged : a.ctrlPre ≠ a.ctrl
  · rw [if_pos hchanged]
    exact command_displayed (a := { a with ctrlPre := a.ctrl }) hmode
  rw [if_neg hchanged]
  by_cases hcount : a.sendCmdCnt < 2
  · rw [if_pos hcount]
    exact command_displayed (a := { a with sendCmdCnt := a.sendCmdCnt + 1 }) hmode
  · rw [if_neg hcount]
    exact h fun hdue => hdue.elim hchanged hcount

/-- An on or off command, or none. -/
theorem Settled.commanded {a b : Air} (h : a.Settled) (hb : b = a ∨ b = a.on ∨ b = a.off) :
    b.Settled := by
  rcases hb with rfl | rfl | rfl
  · exact h
  · exact fun _ => a.on_displayed
  · exact fun _ => a.off_displayed

/-- Writing `v` puts back the word the task last sent, over another one, with no command left to send
and something else on the display. -/
def Unnoticed (a : Air) (v : U16) : Prop :=
  a.ctrl ≠ v ∧ a.ctrlPre = v ∧ ¬ a.sendCmdCnt < 2 ∧ ¬ ({ a with ctrl := v } : Air).Displayed

instance (a : Air) (v : U16) : Decidable (a.Unnoticed v) :=
  inferInstanceAs (Decidable (_ ∧ _ ∧ _ ∧ _))

/-- Any other write is one the next tick notices, or one the display agrees with already. -/
theorem Settled.written {a : Air} (h : a.Settled) {v : U16} (hv : ¬ a.Unnoticed v) :
    ({ a with ctrl := v } : Air).Settled := by
  intro hdue
  obtain ⟨hpre, hcount⟩ := not_or.mp hdue
  by_cases hsame : a.ctrl = v
  · subst hsame
    exact h hdue
  · by_contra hshown
    exact hv ⟨hsame, not_not.mp hpre, hcount, hshown⟩

end Air

/-- The display agrees with the control word, and the temperature is one an air conditioner has. -/
def Agrees (s : Firmware) : Prop :=
  (s.switchState = yes ↔ s.moduleInfo.ctrl.getLsbD 15 = true) ∧
    s.nowTemp = getTempByCtrl s.moduleInfo.ctrl ∧ 16 ≤ s.nowTemp.toNat ∧ s.nowTemp.toNat ≤ 30

/-- A control word gives a temperature from 16 to 30. -/
theorem getTempByCtrl_range (x : U16) :
    16 ≤ (getTempByCtrl x).toNat ∧ (getTempByCtrl x).toNat ≤ 30 := by
  unfold getTempByCtrl
  dsimp only
  split
  · exact ⟨by decide, by decide⟩
  · rename_i hrange
    obtain ⟨hmax, hmin⟩ := not_or.mp hrange
    exact ⟨not_lt.mp hmin, not_lt.mp hmax⟩

/-- The display agrees when its control side is displayed. -/
theorem agrees_of_displayed {s : Firmware} (h : (air s).Displayed) : Agrees s := by
  have htemp : s.nowTemp = getTempByCtrl s.moduleInfo.ctrl := h.2
  have hrange := getTempByCtrl_range s.moduleInfo.ctrl
  rw [← htemp] at hrange
  exact ⟨h.1, htemp, hrange⟩

/-- The control word of the page is one that the constants of the start-up display. -/
def PageShown (flash : FlashPage) : Prop :=
  (getDataFromFlash flash).ctrl.getLsbD 15 = false ∧
    getTempByCtrl (getDataFromFlash flash).ctrl = getTempByCtrl 0x6000

/-- The frame that waits is not an unnoticed write, when the iteration comes to it. -/
def Noticed (s : Firmware) : Input → Prop
  | .peer _ => True
  | .iteration pin _ => ¬ (air (atPoll pin s)).Unnoticed (polledCtrl (atPoll pin s))

/-- After power-on the control side is settled, when the page in flash is one that the display shows. -/
theorem settled_boot {flash : FlashPage} (h : PageShown flash) (beyond : Vector U8 10) :
    (air (boot flash beyond)).Settled := by
  have hctrl : (bootModuleInfo flash beyond).ctrl = (getDataFromFlash flash).ctrl := by
    unfold bootModuleInfo initModuleInfo
    dsimp only
    split <;> rfl
  intro _
  refine ⟨iff_of_false (by decide : no ≠ yes) ?_, ?_⟩
  · show ¬ (bootModuleInfo flash beyond).ctrl.getLsbD 15 = true
    rw [hctrl, h.1]
    exact Bool.false_ne_true
  · show _ = getTempByCtrl (bootModuleInfo flash beyond).ctrl
    rw [hctrl]
    exact h.2.symm

/-- The control side when the tick of an iteration looks at it. -/
theorem settled_atSend {s : Firmware} (h : (air s).Settled) (id : U32) {pin : U8} {heap : Heap}
    (hnoticed : Noticed s (.iteration pin heap)) :
    (air (atTick id pin heap s)).Settled ∧ (air (atSend id pin heap s)).Settled := by
  have hpoll : (air (atPoll pin s)).Settled := h.commanded (air_checkIo pin (timers s).1)
  have htick : (air (atTick id pin heap s)).Settled := by
    rw [air_atTick]
    exact hpoll.written hnoticed
  exact ⟨htick, htick.commanded (air_toSend id _).2⟩

/-- No part of an iteration changes the mode. -/
theorem select_atSend (id : U32) (pin : U8) (heap : Heap) (s : Firmware) :
    (air (atSend id pin heap s)).select = s.moduleInfo.select := by
  have hpoll : (air (atPoll pin s)).select = s.moduleInfo.select :=
    congrArg Vital.select (vital_atPoll pin s)
  have htick : (air (atTick id pin heap s)).select = s.moduleInfo.select := by
    rw [air_atTick]
    exact hpoll
  rw [atSend]
  rcases (air_toSend id (atTick id pin heap s)).2 with h | h | h <;> rw [h] <;> exact htick

/-- At the end of an iteration with a tick the display agrees. -/
theorem displayed_tick {s : Firmware} (h : (air s).Settled)
    (hmode : s.moduleInfo.select = selectMatch ∨ s.moduleInfo.select = selectLearn) (chip : Chip)
    {pin : U8} {heap : Heap} (hnoticed : Noticed s (.iteration pin heap))
    (htick : ticks s = true) : (air (firmware chip (.iteration pin heap) s).1).Displayed := by
  rw [air_iteration, if_pos htick]
  refine Air.second_displayed ?_ (settled_atSend h _ hnoticed).2
  rw [select_atSend]
  exact hmode

/-- A step whose write is noticed keeps the control side settled. -/
theorem settled_step {s : Firmware} (h : (air s).Settled)
    (hmode : s.moduleInfo.select = selectMatch ∨ s.moduleInfo.select = selectLearn) (chip : Chip)
    {i : Input} (hnoticed : Noticed s i) : (air (firmware chip i s).1).Settled := by
  cases i with
  | peer p =>
    rw [show firmware chip (.peer p) = peerStep p from rfl, air_peerStep]
    exact h
  | iteration pin heap =>
    cases htick : ticks s with
    | true => exact fun _ => displayed_tick h hmode chip hnoticed htick
    | false =>
      rw [air_iteration, htick, if_neg Bool.false_ne_true]
      exact (settled_atSend h _ hnoticed).1

/-- **When the display agrees with the control word.** In every run from a page whose control word is
one the start-up displays, and in which no write puts back the word last sent over one that the
display shows instead: at the end of every iteration with a one-second tick, the switch and the
temperature are those of the control word.
SOURCE: Uart.c:228-244, 416-538, infrared.c:64-200, OledPage.c:22-35 -/
theorem display_agrees (chip : Chip) (flash : FlashPage) (beyond : Vector U8 10)
    (inputs : List Input) (hpage : PageShown flash)
    (hnoticed : Along (firmware chip) (boot flash beyond) inputs fun _ => Noticed) :
    Along (firmware chip) (boot flash beyond) inputs
      fun _ s i => isTick s i = true → Agrees (firmware chip i s).1 := by
  have hmode : ∀ before, _ := fun before => (pageInv_run chip flash beyond before).select
  refine along_of_invariant (fun _ s => (air s).Settled) (fun _ => Noticed) _
    (settled_boot hpage beyond) ?_ ?_ hnoticed
  · exact fun before i h hstep => settled_step h (hmode before) chip hstep
  · intro before i h hstep htick
    cases i with
    | peer p => cases htick
    | iteration pin heap =>
      exact agrees_of_displayed (displayed_tick h (hmode before) chip hstep htick)

instance (s : Firmware) : Decidable (Agrees s) := inferInstanceAs (Decidable (_ ∧ _ ∧ _ ∧ _))

instance (flash : FlashPage) : Decidable (PageShown flash) := inferInstanceAs (Decidable (_ ∧ _))

instance (s : Firmware) (i : Input) : Decidable (Noticed s i) :=
  match i with
  | .peer _ => inferInstanceAs (Decidable True)
  | .iteration _ _ => inferInstanceAs (Decidable (¬ _))

/-- A page whose control word is that of an air conditioner switched off. -/
def offFlash : FlashPage :=
  #v[0xFF, 0xFF, 0xFF, 0xFF, 0xFF, 0xFF, 0xFF, 0xFF, 0x00, 0x60, 0xFF, 0xFF]

set_option maxRecDepth 20000 in
/-- The first four ticks from such a page, with a write of 0x8000 before them. -/
theorem display_agrees_write :
    Along (firmware ⟨0, 0, 0⟩) (boot offFlash (Vector.replicate 10 0))
      (.peer (.uart1Burst writeCtrl) :: fourTicks)
      fun _ s i => isTick s i = true → Agrees (firmware ⟨0, 0, 0⟩ i s).1 :=
  display_agrees ⟨0, 0, 0⟩ offFlash _ _ (by decide +kernel) (by decide +kernel)

/-- The input pin falls and stays low; after the command for it the hub writes 0x6000 back. -/
def restoredWord : List Input :=
  List.replicate 31 (.iteration 0 Heap.ample) ++
    .peer (.uart1Burst [0x01, 0x06, 0x01, 0x00, 0x60, 0x00, 0xA0, 0x36]) ::
      List.replicate 11 (.iteration 0 Heap.ample)

set_option maxRecDepth 20000 in
/-- From an erased page, with nothing happening, the first tick leaves the display off while bit 15 of
the control word is set. From a page with the word of the start-up, a pin command and a write of the
old word leave it on while the bit is clear. -/
theorem display_disagrees :
    (¬ Along (firmware ⟨0, 0, 0⟩) (boot (Vector.replicate 12 0xFF) (Vector.replicate 10 0))
      (List.replicate 21 (.iteration 1 Heap.ample))
      fun _ s i => isTick s i = true → Agrees (firmware ⟨0, 0, 0⟩ i s).1) ∧
    PageShown offFlash ∧
    ¬ Along (firmware ⟨0, 0, 0⟩) (boot offFlash (Vector.replicate 10 0)) restoredWord
      fun _ s i => isTick s i = true → Agrees (firmware ⟨0, 0, 0⟩ i s).1 := by
  decide +kernel

end InfraredModule.Analysis
