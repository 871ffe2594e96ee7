import InfraredModule.Model.Display

/-!
# `Uart.c`: the receive callbacks and the serial task

The two receive callbacks and one iteration of the loop of `UartTaskEntry`. The loop body is
a statement: each assignment or call that touches memory shared with the display and button
threads is an action of its own, so that the same text serves the uninterrupted iteration
and the one that other threads interleave with. `rt_thread_mdelay` inside `matchCallBack` is
the boundary between two actions.
-/

set_option autoImplicit false

namespace InfraredModule.Model

open InfraredModule.Foundation

/-! ## Reception -/

/-- The comparison of `Uart1_input`: the last two bytes, low byte first, against the check of
all the bytes before them.
SOURCE: Uart.c:98-101 -/
def crcMatches (data : List U8) (size : ℕ) : Bool :=
  decide (word16 (byteAt data (size - 1)) (byteAt data (size - 2)) = usModbusRtuCrc data (size - 2))

/-- SOURCE: Uart.c:79-110 -/
def uart1Input (burst : List U8) (s : Firmware) : RtErr × Firmware :=
  let msg := s.uart1Msg.receive burst
  let s' := { s with uart1Msg := msg }
  if burst.length < 2 then (.error, s')
  else if ¬ (byteAt msg.data 0 = registerCode ∨ s.moduleInfo.addr = byteAt msg.data 0) then
    (.error, s')
  else if crcMatches msg.data msg.size then
    (.eok, { s with uart1Msg := { msg with messageFlag := true } })
  else (.error, s')

/-- SOURCE: Uart.c:115-130 -/
def uart2Input (burst : List U8) (s : Firmware) : Firmware :=
  let msg := s.uart2Msg.receive burst
  if burst.length > 2 ∧ byteAt msg.data 0 = 0xAA ∧ byteAt msg.data 1 = 0x55 then
    { s with uart2Msg := { msg with messageFlag := true } }
  else { s with uart2Msg := msg }

/-! ## Start-up -/

/-- What is checked, and cleared when the check fails, starts at `getModuleInfo() + 2`: two records
past `module_info`. `beyond` are the ten bytes found there.
SOURCE: Uart.c:59-74 -/
def initModuleInfo (m : ModuleInfo) (beyond : Vector U8 10) : ModuleInfo × Vector U8 10 :=
  let fresh := usModbusRtuCrc beyond.toList 10 ≠ m.crc
  let m := if fresh then { m with addr := 0x01 } else m
  let beyond := if fresh then Vector.replicate 10 0 else beyond
  ({ m with
      registerState := registerNull
      type := infraredType
      crc := usModbusRtuCrc beyond.toList 10 }, beyond)

/-- SOURCE: Uart.c:229-232 -/
def normaliseSelect (select : U8) : U8 :=
  if select ≠ selectMatch ∧ select ≠ selectLearn then selectMatch else select

/-- `module_info` when the loop is entered.
SOURCE: Uart.c:228-243 -/
def bootModuleInfo (flash : FlashPage) (beyond : Vector U8 10) : ModuleInfo :=
  let m := getDataFromFlash flash
  let m := (initModuleInfo { m with select := normaliseSelect m.select } beyond).1
  { m with findLocation := no, version := 2 }

/-- The memory when the loop of `UartTaskEntry` is entered and the display thread has shown
nothing yet, from the flash page and the ten bytes `initModuleInfo` looks at. -/
def boot (flash : FlashPage) (beyond : Vector U8 10) : Firmware where
  moduleInfo := bootModuleInfo flash beyond
  uart1Msg := RxMsg.zero
  uart2Msg := RxMsg.zero
  switchState := no
  nowTemp := getTempByCtrl 0x6000
  materEnvent := .register
  infraredEvent := InfraredEvent.zero
  flash := flash
  ledTest := 0
  io := ⟨1, 0⟩
  task :=
    { timer100ms := Timer.zero, timer1s := Timer.zero, timer5s := Timer.zero,
      timer10s := Timer.zero, infraredEvent := InfraredEvent.zero, masterEvent := .clean, recv := [],
      modulePre := ModuleInfo.zero, ctrlPre := (bootModuleInfo flash beyond).ctrl,
      findLocationCnt := 0, startFlag := false, connectMonitor := 0, sendCmdCnt := 2 }
  oled :=
    { pageInfor := 0, pageSelect := ⟨0, 0, 0, false⟩, reflashFlag := false, backlightTime := 0,
      nowPagePre := 0xFF, ctrl := 0, timer1s := Timer.zero }

/-! ## Every 50 ms -/

/-- `UART_PERIOD`.
SOURCE: Gpio.h:56-58 -/
def uartPeriod : U16 := 50

/-- SOURCE: Uart.c:247-250 -/
def timers : FwCmd := Cmd.modify fun s =>
  { s with task := { s.task with
      timer1s := timerTask s.task.timer1s 20
      timer5s := timerTask s.task.timer5s 100
      timer10s := timerTask s.task.timer10s 200
      timer100ms := timerTask s.task.timer100ms 2 } }

/-- The command sent when the input pin has held its new level long enough.
SOURCE: Uart.c:157-179 -/
def ioCommand (state : U8) : FwCmd := fun s =>
  if state = 0 then
    if s.moduleInfo.select = selectMatch then sendMatchOnTest s
    else if s.moduleInfo.select = selectLearn then sendlearnOn s
    else (s, [])
  else if state = 1 then
    if s.moduleInfo.select = selectMatch then sendMatchOffTest s
    else if s.moduleInfo.select = selectLearn then sendlearnOff s
    else (s, [])
  else (s, [])

/-- SOURCE: Uart.c:136-186 -/
def ioCheckProgram (state : U8) (period : U16) : FwCmd := fun s =>
  if s.io.lastState ≠ state then
    if s.io.continueTime.toNat < period.toNat * 30 then
      ({ s with io := { s.io with continueTime := s.io.continueTime + period } }, [])
    else ioCommand state { s with io := { s.io with lastState := state } }
  else ({ s with io := { s.io with continueTime := 0 } }, [])

/-- SOURCE: Uart.c:254-258 -/
def checkIo (state : U8) : FwCmd := fun s =>
  if s.moduleInfo.registerState ≠ registerSucess then ioCheckProgram state uartPeriod s else (s, [])

/-- `uuid`, from bytes 2 to 5 of a registration frame, high byte first. -/
def frameUuid (data : List U8) : U32 :=
  ((byteAt data 2).setWidth 32 <<< 24) ||| ((byteAt data 3).setWidth 32 <<< 16) |||
    ((byteAt data 4).setWidth 32 <<< 8) ||| (byteAt data 5).setWidth 32

/-- SOURCE: Uart.c:264-283 -/
def registrationBranch (id : U32) : FwCmd := fun s =>
  let s' :=
    if s.uart1Msg.size ≥ 6 then
      { s with
        moduleInfo :=
          if frameUuid s.uart1Msg.data = id then
            { s.moduleInfo with registerState := registerSucess, addr := byteAt s.uart1Msg.data 7 }
          else s.moduleInfo
        materEnvent := .clean }
    else s
  (s', [.registration s.uart1Msg.frame s.uart1Msg.size])

/-- SOURCE: Uart.c:284-291 -/
def analyzeBranch (id : U32) (heap : Heap) : FwCmd := fun s =>
  let r := analyzeMasterData heap id s.uart1Msg.data s.uart1Msg.size s.moduleInfo
  ({ s with
      moduleInfo := { r.2.1 with registerState := registerSucess }
      materEnvent := .clean
      task := { s.task with connectMonitor := 0 } },
    .analyze s.uart1Msg.frame s.uart1Msg.size :: r.2.2)

/-- SOURCE: Uart.c:260-293 -/
def pollUart1 (id : U32) (heap : Heap) : FwCmd := fun s =>
  if s.uart1Msg.messageFlag then
    Cmd.andThen
      (if byteAt s.uart1Msg.data 0 = registerCode then registrationBranch id
        else if s.moduleInfo.addr = byteAt s.uart1Msg.data 0 then analyzeBranch id heap
        else Cmd.skip)
      (Cmd.modify fun s => { s with uart1Msg := { s.uart1Msg with messageFlag := false } }) s
  else (s, [])

/-! ## Replies of the code-library chip -/

/-- Set the event of the task's local copy. -/
def setLocalEvent (code : EventCode) : FwCmd := Cmd.modify fun s =>
  { s with task := { s.task with infraredEvent := { s.task.infraredEvent with event := code } } }

/-- `setinfraredEvent(infrared_event)`: the task's whole local copy goes into the shared cell. -/
def writeBack : FwCmd := fun s => setinfraredEvent s.task.infraredEvent s

/-- The test of a `case` label. -/
def handles (code : EventCode) : Firmware → Bool := fun s => decide (s.task.infraredEvent.event = code)

/-- `infrared_event.call_back(result)` in the branch of `handled`. Of what the callbacks do only
the page pop of `matchCallBack` after its one second delay is visible outside the screen.
SOURCE: OledPage.c:321-373, 395-429 -/
def invokeCallBack (handled : EventCode) (result : U8) : FwStmt :=
  .seq (.act (Cmd.emit fun s => [.callBack s.task.infraredEvent.callBack handled result]))
    (.when (fun s => decide (s.task.infraredEvent.callBack = .matchCallBack ∧
      result = infraredEventSaveOk)) (.act pageReturn))

/-- `uart2_msg.size == sizeof(...)`: both reply records have seven bytes. -/
def replySized : Firmware → Bool := fun s => decide (s.uart2Msg.size = 7)

/-- `rt_memcpy` of the reply into the local record. -/
def copyReply : FwCmd := Cmd.modify fun s =>
  { s with task := { s.task with recv := s.uart2Msg.data.take 7 } }

/-- A match reply: a nonzero start code and command `0x41`.
SOURCE: Uart.c:311-312 -/
def isMatchReply (recv : List U8) : Bool :=
  decide (word16 (byteAt recv 0) (byteAt recv 1) ≠ 0 ∧ byteAt recv 3 = 0x41)

/-- `getModuleInfo()->brand_code = ...`.
SOURCE: Uart.c:314-315 -/
def storeBrandCode : FwCmd := Cmd.modify fun s =>
  { s with moduleInfo := { s.moduleInfo with
      brandCode := word16 (byteAt s.task.recv 4) (byteAt s.task.recv 5) } }

/-- The value of `codeDataRecvResult` is not used, so its call is left out.
SOURCE: Uart.c:298-324 -/
def matchReply : FwStmt :=
  .when replySized (.seq (.act copyReply) (.when (fun s => isMatchReply s.task.recv)
    (.block [.act storeBrandCode, .act (setLocalEvent .sendSave),
      invokeCallBack .sendMatch infraredEventMatchOk, .act writeBack])))

/-- SOURCE: Uart.c:326-335 -/
def saveReply : FwStmt :=
  .when replySized (.block [.act (setLocalEvent .null),
    invokeCallBack .sendSave infraredEventSaveOk, .act writeBack])

/-- The two learn branches differ in their label and in the result they report.
SOURCE: Uart.c:337-374 -/
def learnReply (code : EventCode) (result : U8) : FwStmt :=
  .when replySized (.seq (.act copyReply)
    (.ite (fun s => decide (byteAt s.task.recv 5 = 1))
      (.block [invokeCallBack code result, .act writeBack])
      (.when (fun s => decide (byteAt s.task.recv 5 = 3))
        (.block [.act (setLocalEvent .null), .act writeBack, .act pageReturn]))))

/-- The `switch` on the event of the local copy when a reply has come.
SOURCE: Uart.c:298-377 -/
def handleReply : FwStmt :=
  .ite (handles .sendMatch) matchReply
  (.ite (handles .sendSave) saveReply
  (.ite (handles .sendLearnModeOn) (learnReply .sendLearnModeOn cbInLearnOn)
  (.ite (handles .sendLearnModeOff) (learnReply .sendLearnModeOff cbInLearnOff) .skip)))

/-- SOURCE: Uart.c:296-380 -/
def uart2Replies : FwStmt :=
  .when (fun s => s.uart2Msg.messageFlag)
    (.seq handleReply
      (.act (Cmd.modify fun s => { s with uart2Msg := { s.uart2Msg with messageFlag := false } })))

/-- SOURCE: Uart.c:384-391 -/
def saveFlash : FwCmd := fun s =>
  if s.task.modulePre.brandCode ≠ s.moduleInfo.brandCode ∨
      s.task.modulePre.addr ≠ s.moduleInfo.addr ∨ s.task.modulePre.select ≠ s.moduleInfo.select then
    ({ s with
        task := { s.task with modulePre := s.moduleInfo }
        flash := setDataToFlah s.flash s.moduleInfo.toBytes },
      [.flashWrite s.moduleInfo.toBytes])
  else (s, [])

/-- SOURCE: Uart.c:395-412 -/
def tick100ms : FwCmd := fun s =>
  if s.task.timer100ms.touch ∧ s.moduleInfo.findLocation = yes then
    if s.task.findLocationCnt < 600 then
      ledTestToggle
        { s with task := { s.task with findLocationCnt := s.task.findLocationCnt + 1 } }
    else
      ({ s with
          task := { s.task with findLocationCnt := 0 }
          moduleInfo := { s.moduleInfo with findLocation := no } }, [])
  else (s, [])

/-! ## Every second -/

/-- `infrared_event = getInfraredEvent(); master_event = getMasterEvent();`
SOURCE: Uart.c:418-419 -/
def sampleEvents : FwCmd := Cmd.modify fun s =>
  { s with task := { s.task with infraredEvent := s.infraredEvent, masterEvent := s.materEnvent } }

/-- SOURCE: Uart.c:436-443 -/
def onTest : FwCmd := fun s =>
  if s.moduleInfo.select = selectMatch then sendMatchOnTest s
  else if s.moduleInfo.select = selectLearn then sendlearnOn s
  else (s, [])

/-- SOURCE: Uart.c:450-457 -/
def offTest : FwCmd := fun s =>
  if s.moduleInfo.select = selectMatch then sendMatchOffTest s else sendlearnOff s

/-- A command that ends its event: send, clear the local copy, write it back. -/
def sendAndFinish (send : FwCmd) : FwStmt :=
  .block [.act send, .act (setLocalEvent .null), .act writeBack]

/-- The `switch` on the event of the local copy.
SOURCE: Uart.c:424-488 -/
def sendEvent : FwStmt :=
  .ite (handles .sendMatch) (.act sendMatchDataToCodeData)
  (.ite (handles .sendSave) (.act sendSaveCommandToCodeData)
  (.ite (handles .sendOnTest) (sendAndFinish onTest)
  (.ite (handles .sendOffTest) (sendAndFinish offTest)
  (.ite (handles .sendLearnModeOn) (.act sendInLearnOnMode)
  (.ite (handles .sendLearnModeOff) (.act sendInLearnOffMode)
  (.ite (handles .sendMatchOver) (sendAndFinish sendMatchOver)
  (.ite (handles .sendLearnOnOver) (sendAndFinish sendLearnOnOver)
  (.ite (handles .sendLearnOffOver) (sendAndFinish sendLearnOffOver) .skip))))))))

/-- SOURCE: Uart.c:422-490 -/
def dispatchEvent : FwStmt :=
  .when (fun s => !handles .null s)
    (.seq (.act (Cmd.emit fun s => [.dispatch s.task.infraredEvent.event])) sendEvent)

/-- SOURCE: Uart.c:493-504 -/
def lights : FwCmd := fun s =>
  if s.moduleInfo.findLocation = no then
    if s.moduleInfo.ctrl >>> 15 ≠ 0 then ledOn s else ledTestToggle s
  else (s, [])

/-- SOURCE: Uart.c:506-510 -/
def startRegister (id : U32) : FwCmd := fun s =>
  if s.task.startFlag then (s, [])
  else ({ s with task := { s.task with startFlag := true } }, sendRegisterToMaster id s.moduleInfo)

/-- SOURCE: Uart.c:513-520 -/
def monitorConnect : FwCmd := fun s =>
  if s.task.connectMonitor < 30 then
    ({ s with task := { s.task with connectMonitor := s.task.connectMonitor + 1 } }, [])
  else setMasterEvent .register s

/-- SOURCE: Uart.c:523-537 -/
def sendThreeTimes : FwCmd := fun s =>
  if s.task.ctrlPre ≠ s.moduleInfo.ctrl then
    Cmd.andThen (Cmd.modify fun s => { s with task := { s.task with ctrlPre := s.moduleInfo.ctrl } })
      (Cmd.andThen sendCtrlCommandToCodeData
        (Cmd.modify fun s => { s with task := { s.task with sendCmdCnt := 0 } })) s
  else if s.task.sendCmdCnt < 2 then
    Cmd.andThen
      (Cmd.modify fun s => { s with task := { s.task with sendCmdCnt := s.task.sendCmdCnt + 1 } })
      sendCtrlCommandToCodeData s
  else (s, [])

/-- SOURCE: Uart.c:416-538 -/
def tick1s (id : U32) : FwStmt :=
  .when (fun s => s.task.timer1s.touch)
    (.block [.act sampleEvents, dispatchEvent, .act lights, .act (startRegister id),
      .act monitorConnect, .act sendThreeTimes])

/-- SOURCE: Uart.c:541-548 -/
def tick5s : FwCmd := fun s =>
  if s.task.timer5s.touch ∧ s.moduleInfo.registerState ≠ registerSucess then
    setMasterEvent .register s
  else (s, [])

/-- SOURCE: Uart.c:551-566 -/
def tick10s (id : U32) : FwCmd := fun s =>
  if s.task.timer10s.touch ∧ s.task.masterEvent = .register then
    (s, sendRegisterToMaster id s.moduleInfo)
  else (s, [])

/-- One iteration of the loop of `UartTaskEntry`. `pin` is the level of the input pin, `heap` what
`rt_malloc` finds.
SOURCE: Uart.c:245-569 -/
def uartIteration (id : U32) (pin : U8) (heap : Heap) : FwStmt :=
  .block [.act timers, .act (checkIo pin), .act (pollUart1 id heap), uart2Replies, .act saveFlash,
    .act tick100ms, tick1s id, .act tick5s, .act (tick10s id)]

end InfraredModule.Model
