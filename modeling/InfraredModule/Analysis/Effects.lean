import InfraredModule.Model.System

/-!
# What the actions of the serial task store and emit

For each action two facts, and no more is unfolded elsewhere: `keeps_` says that a quantity which
does not change under the stores of the action is kept by it, `kinds_` that its observations are
good when those of the kinds it makes are.
-/

set_option autoImplicit false

namespace InfraredModule.Analysis

open InfraredModule.Foundation InfraredModule.Model

/-- Nothing observed is good. -/
theorem emits_nil {good : Obs → Prop} : ∀ o ∈ ([] : List Obs), good o :=
  fun _ ho => absurd ho List.not_mem_nil

/-- One good observation. -/
theorem emits_singleton {good : Obs → Prop} {o : Obs} (h : good o) : ∀ o' ∈ [o], good o' := by
  intro o' ho'
  rw [List.mem_singleton.mp ho']
  exact h

/-! ## Stores -/

section Stores

variable {β : Type} {f : Firmware → β}

/-- The save stores the task's copy of the record and the flash. -/
theorem keeps_saveFlash (h : ∀ s modulePre flash,
      f { s with task := { s.task with modulePre := modulePre }, flash := flash } = f s) :
    Cmd.Keeps f saveFlash := by
  intro s
  unfold saveFlash
  split
  · exact h s _ _
  · rfl

/-- The 100 ms branch stores the lamp's counter, its own counter and `findLocation`. -/
theorem keeps_tick100ms (h : ∀ s ledTest findLocationCnt findLocation,
      f { s with
          ledTest := ledTest
          task := { s.task with findLocationCnt := findLocationCnt }
          moduleInfo := { s.moduleInfo with findLocation := findLocation } } = f s) :
    Cmd.Keeps f tick100ms := by
  intro s
  unfold tick100ms
  repeat' split
  · exact h s (s.ledTest + 1) (s.task.findLocationCnt + 1) s.moduleInfo.findLocation
  · exact h s s.ledTest 0 no
  · rfl

/-- The lamps store their counter. -/
theorem keeps_lights (h : ∀ s ledTest, f { s with ledTest := ledTest } = f s) :
    Cmd.Keeps f lights := by
  intro s
  unfold lights
  repeat' split
  · rfl
  · exact h s _
  · rfl

/-- The start of a registration stores the start flag. -/
theorem keeps_startRegister
    (h : ∀ s startFlag, f { s with task := { s.task with startFlag := startFlag } } = f s) (id : U32) :
    Cmd.Keeps f (startRegister id) := by
  intro s
  unfold startRegister
  split
  · rfl
  · exact h s _

/-- The watch on the connection stores its counter and the event for the hub. -/
theorem keeps_monitorConnect (h : ∀ s connectMonitor event,
      f { s with task := { s.task with connectMonitor := connectMonitor }, materEnvent := event } =
        f s) :
    Cmd.Keeps f monitorConnect := by
  intro s
  unfold monitorConnect
  split
  · exact h s _ s.materEnvent
  · exact h s s.task.connectMonitor _

/-- The 5 s branch stores the event for the hub. -/
theorem keeps_tick5s (h : ∀ s event, f { s with materEnvent := event } = f s) :
    Cmd.Keeps f tick5s := by
  intro s
  unfold tick5s
  split
  · exact h s _
  · rfl

/-- The 10 s branch stores nothing. -/
theorem keeps_tick10s (id : U32) : Cmd.Keeps f (tick10s id) := by
  intro s
  unfold tick10s
  split
  · rfl
  · rfl

section AirState

variable (hair : ∀ s switchState ctrl nowTemp,
  f { s with
      switchState := switchState
      moduleInfo := { s.moduleInfo with ctrl := ctrl }
      nowTemp := nowTemp } = f s)
include hair

/-- The on test stores what a command stores. -/
theorem keeps_onTest : Cmd.Keeps f onTest := by
  intro s
  unfold onTest
  repeat' split
  · exact hair s _ _ _
  · exact hair s _ _ _
  · rfl

/-- The off test stores what a command stores. -/
theorem keeps_offTest : Cmd.Keeps f offTest := by
  intro s
  unfold offTest
  split
  · exact hair s _ _ _
  · exact hair s _ _ _

/-- A command from the input pin stores what a command stores. -/
theorem keeps_ioCommand (state : U8) : Cmd.Keeps f (ioCommand state) := by
  intro s
  unfold ioCommand
  repeat' split
  · exact hair s _ _ _
  · exact hair s _ _ _
  · rfl
  · exact hair s _ _ _
  · exact hair s _ _ _
  · rfl
  · rfl

/-- The check of the input pin stores its statics, and what a command stores. -/
theorem keeps_checkIo (hio : ∀ s io, f { s with io := io } = f s) (state : U8) :
    Cmd.Keeps f (checkIo state) := by
  intro s
  unfold checkIo ioCheckProgram
  repeat' split
  · exact hio s _
  · exact (keeps_ioCommand hair state _).trans (hio s _)
  · exact hio s _
  · rfl

/-- The control command stores what a command stores. -/
theorem keeps_sendCtrlCommandToCodeData : Cmd.Keeps f sendCtrlCommandToCodeData := by
  refine .andThen (fun _ => rfl) fun s => ?_
  by_cases hmatch : s.moduleInfo.select = selectMatch
  · rw [if_pos hmatch]
    exact hair s _ s.moduleInfo.ctrl _
  rw [if_neg hmatch]
  repeat' split
  · exact hair s _ _ _
  · exact hair s _ _ _
  · rfl

/-- The threefold send stores its count and its copy, and what a command stores. -/
theorem keeps_sendThreeTimes (hcount : ∀ s ctrlPre sendCmdCnt,
      f { s with task := { s.task with ctrlPre := ctrlPre, sendCmdCnt := sendCmdCnt } } = f s) :
    Cmd.Keeps f sendThreeTimes := by
  have hsend := keeps_sendCtrlCommandToCodeData hair
  refine .choose fun s => ?_
  unfold sendThreeTimes
  repeat' split
  · exact ⟨_, rfl, .andThen (fun t => hcount t _ t.task.sendCmdCnt)
      (.andThen hsend fun t => hcount t t.task.ctrlPre _)⟩
  · exact ⟨_, rfl, .andThen (fun t => hcount t t.task.ctrlPre _) hsend⟩
  · exact ⟨Cmd.skip, rfl, fun _ => rfl⟩

end AirState

end Stores

/-! ## Observations -/

section Kinds

variable {good : Obs → Prop} (uart2 : ∀ bytes, good (.uart2Tx bytes))
include uart2

/-- A test command goes out on the chip's line. -/
theorem kinds_sendMatchTest (state : U8) (ctr : U16) : Cmd.Emits good (sendMatchTest state ctr) :=
  fun _ => emits_singleton (uart2 _)

/-- A learned command goes out on the chip's line. -/
theorem kinds_sendLearned (b7 state : U8) (ctr : U16) : Cmd.Emits good (sendLearned b7 state ctr) :=
  fun _ => emits_singleton (uart2 _)

/-- The check of the input pin sends on the chip's line. -/
theorem kinds_checkIo (pin : U8) : Cmd.Emits good (checkIo pin) := by
  intro s
  unfold checkIo ioCheckProgram ioCommand
  repeat' split
  all_goals first
    | exact emits_nil
    | exact kinds_sendMatchTest uart2 _ _ _
    | exact kinds_sendLearned uart2 _ _ _ _

/-- The on test sends on the chip's line. -/
theorem kinds_onTest : Cmd.Emits good onTest := by
  intro s
  unfold onTest
  repeat' split
  · exact kinds_sendMatchTest uart2 _ _ _
  · exact kinds_sendLearned uart2 _ _ _ _
  · exact emits_nil

/-- The off test sends on the chip's line. -/
theorem kinds_offTest : Cmd.Emits good offTest := by
  intro s
  unfold offTest
  split
  · exact kinds_sendMatchTest uart2 _ _ _
  · exact kinds_sendLearned uart2 _ _ _ _

/-- The control command shows as its call and sends on the chip's line. -/
theorem kinds_sendCtrlCommandToCodeData (ctrl : good .sendCtrl) :
    Cmd.Emits good sendCtrlCommandToCodeData := by
  refine .andThen (fun _ => emits_singleton ctrl) fun s => ?_
  by_cases hmatch : s.moduleInfo.select = selectMatch
  · rw [if_pos hmatch]
    exact emits_singleton (uart2 _)
  rw [if_neg hmatch]
  repeat' split
  · exact kinds_sendLearned uart2 _ _ _ _
  · exact kinds_sendLearned uart2 _ _ _ _
  · exact emits_nil

/-- The threefold send shows as the control command does. -/
theorem kinds_sendThreeTimes (ctrl : good .sendCtrl) : Cmd.Emits good sendThreeTimes := by
  have hsend := kinds_sendCtrlCommandToCodeData uart2 ctrl
  have hmodify : ∀ f : Firmware → Firmware, Cmd.Emits good (Cmd.modify f) := Cmd.emits_modify
  intro s
  unfold sendThreeTimes
  repeat' split
  · exact ((hmodify _).andThen (hsend.andThen (hmodify _))) s
  · exact ((hmodify _).andThen hsend) s
  · exact emits_nil

end Kinds

section MoreKinds

variable {good : Obs → Prop}

/-- The save shows as the write of the flash. -/
theorem kinds_saveFlash (flash : ∀ image, good (.flashWrite image)) : Cmd.Emits good saveFlash := by
  intro s
  unfold saveFlash
  split
  · exact emits_singleton (flash _)
  · exact emits_nil

variable (pin : ∀ p level, good (.pin p level))
include pin

/-- The 100 ms branch shows on the lamp's pin. -/
theorem kinds_tick100ms : Cmd.Emits good tick100ms := by
  intro s
  unfold tick100ms
  repeat' split
  · exact emits_singleton (pin _ _)
  · exact emits_nil
  · exact emits_nil

/-- The lamps show on their pin. -/
theorem kinds_lights : Cmd.Emits good lights := by
  intro s
  unfold lights
  repeat' split
  · exact emits_singleton (pin _ _)
  · exact emits_singleton (pin _ _)
  · exact emits_nil

/-- A message to the hub shows on the hub's line and its direction pin. -/
theorem kinds_sendMessageToMaster (uart1 : ∀ bytes, good (.uart1Tx bytes)) (data : List U8)
    (len : U8) : ∀ o ∈ sendMessageToMaster data len, good o := by
  intro o ho
  simp only [sendMessageToMaster, List.mem_cons, List.not_mem_nil, or_false] at ho
  rcases ho with rfl | rfl | rfl
  · exact pin _ _
  · exact uart1 _
  · exact pin _ _

/-- The start of a registration sends on the hub's line. -/
theorem kinds_startRegister (uart1 : ∀ bytes, good (.uart1Tx bytes)) (id : U32) :
    Cmd.Emits good (startRegister id) := by
  intro s
  unfold startRegister
  split
  · exact emits_nil
  · exact kinds_sendMessageToMaster pin uart1 _ _

/-- The 10 s branch sends on the hub's line. -/
theorem kinds_tick10s (uart1 : ∀ bytes, good (.uart1Tx bytes)) (id : U32) :
    Cmd.Emits good (tick10s id) := by
  intro s
  unfold tick10s
  split
  · exact kinds_sendMessageToMaster pin uart1 _ _
  · exact emits_nil

/-- A reply shows as a message to the hub. -/
theorem kinds_replyDataToMaster (uart1 : ∀ bytes, good (.uart1Tx bytes)) (heap : Heap)
    (m : ModuleInfo) (rw : U8) (data : List U8) (reg : U16) (len : U8) :
    ∀ o ∈ replyDataToMaster heap m rw data reg len, good o := by
  unfold replyDataToMaster
  repeat' split
  · exact kinds_sendMessageToMaster pin uart1 _ _
  · exact kinds_sendMessageToMaster pin uart1 _ _
  · exact emits_nil
  · exact emits_nil

/-- The answer to a request shows as a message to the hub. -/
theorem kinds_analyzeMasterData (uart1 : ∀ bytes, good (.uart1Tx bytes)) (heap : Heap) (id : U32)
    (data : List U8) (size : ℕ) (m : ModuleInfo) :
    ∀ o ∈ (analyzeMasterData heap id data size m).2.2, good o := by
  unfold analyzeMasterData analyzeRead analyzeWrite
  dsimp only
  repeat' split
  · exact kinds_replyDataToMaster pin uart1 _ _ _ _ _ _
  · exact emits_nil
  · exact kinds_replyDataToMaster pin uart1 _ _ _ _ _ _
  · exact emits_nil
  · exact emits_nil
  · exact emits_nil

end MoreKinds

/-- The poll shows as the call it makes and the reply to it. -/
theorem kinds_pollUart1 {good : Obs → Prop} (registration : ∀ f n, good (.registration f n))
    (analyze : ∀ f n, good (.analyze f n)) (reply : ∀ heap id data size m,
      ∀ o ∈ (analyzeMasterData heap id data size m).2.2, good o) (id : U32) (heap : Heap) :
    Cmd.Emits good (pollUart1 id heap) := by
  intro s o ho
  unfold pollUart1 at ho
  split at ho
  case isFalse => cases ho
  rw [Cmd.andThen_apply, Cmd.modify_apply, List.append_nil] at ho
  split at ho
  · rw [List.mem_singleton.mp ho]
    exact registration _ _
  split at ho
  · rcases List.mem_cons.mp ho with rfl | hreply
    · exact analyze _ _
    · exact reply _ _ _ _ _ o hreply
  · cases ho

/-- The watch on the connection shows nothing. -/
theorem kinds_monitorConnect {good : Obs → Prop} : Cmd.Emits good monitorConnect := by
  intro s
  unfold monitorConnect
  split <;> exact emits_nil

/-- The 5 s branch shows nothing. -/
theorem kinds_tick5s {good : Obs → Prop} : Cmd.Emits good tick5s := by
  intro s
  unfold tick5s
  split <;> exact emits_nil

end InfraredModule.Analysis
