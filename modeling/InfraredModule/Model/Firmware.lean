import InfraredModule.Foundation.Program
import InfraredModule.Model.Module

/-!
# The state of the firmware

All the memory the modelled code reads: the globals, the statics and locals of
`UartTaskEntry` that outlive an iteration, the statics of `IoCheckProgram` and of the
display thread, and the flash page. A C function that works on globals is a command over
this state.
-/

set_option autoImplicit false

namespace InfraredModule.Model

open InfraredModule.Foundation

/-- The statics of `IoCheckProgram`.
SOURCE: Uart.c:139-140 -/
structure IoCheck where
  lastState : U8
  continueTime : U16
  deriving DecidableEq, Repr

/-- The statics of `UartTaskEntry`, its two local copies of shared events, and the local record
(`recv_match`, `recvResult`) a reply is copied into before it is looked at.
SOURCE: Uart.c:194-221 -/
structure UartTask where
  timer100ms : Timer
  timer1s : Timer
  timer5s : Timer
  timer10s : Timer
  infraredEvent : InfraredEvent
  masterEvent : MasterEvent
  recv : List U8
  modulePre : ModuleInfo
  ctrlPre : U16
  findLocationCnt : U16
  startFlag : Bool
  connectMonitor : U8
  sendCmdCnt : U8
  deriving DecidableEq, Repr

/-- The globals and statics of the display thread.
SOURCE: Oled1309.c:26-31, 297-306 -/
structure Oled where
  pageInfor : U32
  pageSelect : PageSelect
  reflashFlag : Bool
  backlightTime : ℕ
  nowPagePre : U8
  ctrl : U16
  timer1s : Timer
  deriving DecidableEq, Repr

/-- The whole memory. `ledTest` is the static counter of `LED_TEST`. -/
structure Firmware where
  moduleInfo : ModuleInfo
  uart1Msg : RxMsg
  uart2Msg : RxMsg
  switchState : U8
  nowTemp : U8
  materEnvent : MasterEvent
  infraredEvent : InfraredEvent
  flash : FlashPage
  ledTest : U8
  io : IoCheck
  task : UartTask
  oled : Oled
  deriving DecidableEq

/-- A command of the firmware. -/
abbrev FwCmd := Cmd Firmware Obs

/-- A statement over the firmware. -/
abbrev FwStmt := Stmt Firmware Obs

/-- SOURCE: module.c:19-22 -/
def setMasterEvent (event : MasterEvent) : FwCmd := Cmd.modify fun s => { s with materEnvent := event }

/-- SOURCE: infrared.c:23-26 -/
def setinfraredEvent (envent : InfraredEvent) : FwCmd := fun s =>
  ({ s with infraredEvent := envent }, [.setEvent envent])

/-- Pop a page from the shift register.
SOURCE: OledPage.c:315-318 -/
def pageReturn : FwCmd := fun s =>
  ({ s with oled := { s.oled with pageInfor := s.oled.pageInfor >>> 8 } },
    [.pageReturn s.oled.pageInfor])

/-- `LED_ON`: the lamp is lit by a low level.
SOURCE: main.c:126-129 -/
def ledOn : FwCmd := Cmd.emit fun _ => [.pin .ledState no]

/-- SOURCE: main.c:136-148 -/
def ledTestToggle : FwCmd := fun s =>
  ({ s with ledTest := s.ledTest + 1 }, [.pin .ledState (if s.ledTest % 2 ≠ 0 then yes else no)])

/-! ## `infrared.c`: frames for the code-library chip

SOURCE: infrared.c:28-285 -/

/-- Append the exclusive-or check byte. -/
def withCheck (data : List U8) : List U8 := data ++ [checkResult data data.length]

/-- The ten-byte frames differ in the command and in byte 7. -/
def codeFrame (command b7 : U8) : List U8 :=
  withCheck [0xAA, 0x55, 0x07, command, 0x00, 0x00, 0x00, b7, 0x01]

/-- The twelve-byte control frames differ in the brand code and the control word. -/
def ctrlFrame (brandCode ctrl : U16) : List U8 :=
  withCheck [0xAA, 0x55, 0x09, 0x00, 0x00, highByte brandCode, lowByte brandCode, highByte ctrl,
    lowByte ctrl, 0x00, 0x00]

/-- What the on and off commands leave behind: the switch, the control word and the temperature. -/
def setAirState (state : U8) (ctr : U16) : FwCmd := Cmd.modify fun s =>
  { s with
    switchState := state
    moduleInfo := { s.moduleInfo with ctrl := ctr }
    nowTemp := getTempByCtrl ctr }

/-- The match command.
SOURCE: infrared.c:28-43 -/
def sendMatchDataToCodeData : FwCmd := Cmd.emit fun _ =>
  [.uart2Tx [0xAA, 0x55, 0x07, 0x82, 0x00, 0x00, 0x00, 0x00, 0x01, 0x7B]]

/-- The save command, with the brand code.
SOURCE: infrared.c:45-62 -/
def sendSaveCommandToCodeData : FwCmd := Cmd.emit fun s =>
  [.uart2Tx (withCheck [0xAA, 0x55, 0x09, 0x91, highByte s.moduleInfo.brandCode,
    lowByte s.moduleInfo.brandCode, 0x00, 0x82, 0x21, 0x99, 0x07])]

/-- Send a control frame and record the state it puts the air conditioner in. -/
def sendMatchTest (state : U8) (ctr : U16) : FwCmd :=
  Cmd.andThen (Cmd.emit fun s => [.uart2Tx (ctrlFrame s.moduleInfo.brandCode ctr)])
    (setAirState state ctr)

/-- The test command that switches on.
SOURCE: infrared.c:109-133 -/
def sendMatchOnTest : FwCmd := sendMatchTest yes 0xE000

/-- The test command that switches off.
SOURCE: infrared.c:135-156 -/
def sendMatchOffTest : FwCmd := sendMatchTest no 0x6000

/-- Send a learned code and record the state it puts the air conditioner in. -/
def sendLearned (b7 state : U8) (ctr : U16) : FwCmd :=
  Cmd.andThen (Cmd.emit fun _ => [.uart2Tx (codeFrame 0x84 b7)]) (setAirState state ctr)

/-- Sends the learned on command.
SOURCE: infrared.c:158-178 -/
def sendlearnOn : FwCmd := sendLearned 0x00 yes 0xE000

/-- Sends the learned off command.
SOURCE: infrared.c:180-200 -/
def sendlearnOff : FwCmd := sendLearned 0x01 no 0x6000

/-- Starts learning the on command.
SOURCE: infrared.c:202-217 -/
def sendInLearnOnMode : FwCmd := Cmd.emit fun _ => [.uart2Tx (codeFrame 0x80 0x00)]

/-- Starts learning the off command.
SOURCE: infrared.c:219-234 -/
def sendInLearnOffMode : FwCmd := Cmd.emit fun _ => [.uart2Tx (codeFrame 0x80 0x01)]

/-- Ends the match.
SOURCE: infrared.c:236-251 -/
def sendMatchOver : FwCmd := Cmd.emit fun _ => [.uart2Tx (codeFrame 0x81 0x00)]

/-- Ends learning the on command.
SOURCE: infrared.c:253-268 -/
def sendLearnOnOver : FwCmd := Cmd.emit fun _ => [.uart2Tx (codeFrame 0x81 0x00)]

/-- Ends learning the off command.
SOURCE: infrared.c:270-285 -/
def sendLearnOffOver : FwCmd := Cmd.emit fun _ => [.uart2Tx (codeFrame 0x81 0x00)]

/-- Sends the control word: in match mode as a control frame, in learn mode as a learned command.
SOURCE: infrared.c:64-107 -/
def sendCtrlCommandToCodeData : FwCmd :=
  Cmd.andThen (Cmd.emit fun _ => [.sendCtrl]) fun s =>
    if s.moduleInfo.select = selectMatch then
      ({ s with
          switchState := if s.moduleInfo.ctrl &&& 0x8000 > 0 then yes else no
          nowTemp := getTempByCtrl s.moduleInfo.ctrl },
        [.uart2Tx (ctrlFrame s.moduleInfo.brandCode s.moduleInfo.ctrl)])
    else if s.moduleInfo.select = selectLearn then
      if s.moduleInfo.ctrl &&& 0x8000 > 0 then sendlearnOn s else sendlearnOff s
    else (s, [])

/-! ## `infrared.c`: the state of a reply

`codeDataRecvResult` is the one function here that looks at memory as such: it copies from the
address of its own parameter. -/

/-- The bytes of a stretch of memory. -/
def bytesAt (memory : U32 → U8) (addr : U32) (n : ℕ) : List U8 :=
  (List.range n).map fun i => memory (addr + BitVec.ofNat 32 i)

/-- SOURCE: Uart.h:40-48, packed -/
structure CodeDataRecv where
  startCode : U16
  len : U8
  command : U8
  staticCode : U8
  stateCode : U8
  check : U8
  deriving DecidableEq, Repr

/-- The record over seven bytes, on the little-endian target. -/
def CodeDataRecv.ofBytes (b : List U8) : CodeDataRecv where
  startCode := word16 (byteAt b 1) (byteAt b 0)
  len := byteAt b 2
  command := byteAt b 3
  staticCode := byteAt b 4
  stateCode := byteAt b 5
  check := byteAt b 6

/-- A call of `codeDataRecvResult`: the memory, the argument `recv`, and the place of the
parameter, which holds the argument. -/
structure RecvCall where
  memory : U32 → U8
  recv : U32
  place : U32
  stored : bytesAt memory place 4 = wordBytes recv

/-- SOURCE: infrared.c:287-320 -/
def codeDataRecvResult (c : RecvCall) : U8 :=
  -- the source of the copy is `&recv`, the place of the parameter
  let codeRecv := CodeDataRecv.ofBytes (bytesAt c.memory c.place 7)
  if startCode = codeRecv.startCode then
    if 0x40 = codeRecv.command then
      if codeRecv.stateCode = codeRecvFail then codeRecvFail
      else if codeRecv.stateCode = codeRecvSuccess then codeRecvSuccess
      else if codeRecv.stateCode = codeRecvTimeout then codeRecvTimeout
      else 0
    else 0
  else 0

end InfraredModule.Model
