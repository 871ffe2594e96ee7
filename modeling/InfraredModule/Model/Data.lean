import Mathlib.Data.List.Basic
import Mathlib.Data.List.GetD
import Mathlib.Tactic.Common

/-!
# The firmware's data

Machine words, the constants of the two serial protocols, the records of `Uart.h`,
`infrared.h` and `Oled1309.h`, and the packed image of `module_info` that the firmware
keeps in flash. Fields that are loaded from flash or from the wire are machine words, since
any value may arrive there; flags that only the code writes are Booleans, and events that
only the code posts are enumerations.
-/

set_option autoImplicit false

namespace InfraredModule.Model

/-- `u8`. -/
abbrev U8 := BitVec 8

/-- `u16`. -/
abbrev U16 := BitVec 16

/-- `u32`. -/
abbrev U32 := BitVec 32

/-- The `NO` of `typedef.h`, for the fields that are stored as bytes. -/
def no : U8 := 0

/-- The `YES` of `typedef.h`. -/
def yes : U8 := 1

/-- The byte `data[i]`; behind the end it is zero. -/
def byteAt (data : List U8) (i : ℕ) : U8 := data.getD i 0

/-- `hi << 8 | lo`. -/
def word16 (hi lo : U8) : U16 := (hi.setWidth 16 <<< 8) ||| lo.setWidth 16

/-- `x >> 8`, stored in a byte. -/
def highByte (x : U16) : U8 := (x >>> 8).setWidth 8

/-- `x`, stored in a byte. -/
def lowByte (x : U16) : U8 := x.setWidth 8

/-- A 16-bit word as the two bytes the little-endian target keeps it in. -/
def littleEndian (x : U16) : List U8 := [lowByte x, highByte x]

/-! ## The hub protocol

SOURCE: Uart.h:21, 66-84, 137-141 -/

/-- `UART_MSG_SIZE`. -/
def uartMsgSize : ℕ := 100

/-- `READ_MUTI`. -/
def readMuti : U8 := 0x03

/-- `WRITE_SINGLE`. -/
def writeSingle : U8 := 0x06

/-- `REGISTER_CODE`, the address a registration frame carries. -/
def registerCode : U8 := 0xFA

/-- `INFRARED_TYPE`. -/
def infraredType : U8 := 0xB4

/-- `REGISTER_LOCATION`. -/
def registerLocation : U16 := 0x0000

/-- `REGISTER_VERSION`. -/
def registerVersion : U16 := 0x0001

/-- `REGISTER_UUID1`. -/
def registerUuid1 : U16 := 0x0003

/-- `REGISTER_UUID2`. -/
def registerUuid2 : U16 := 0x0004

/-- `REGISTER_ADDR`. -/
def registerAddr : U16 := 0x0006

/-- `REGISTER_TYPE`. -/
def registerType : U16 := 0x0007

/-- `REGISTER_CTRL`. -/
def registerCtrl : U16 := 0x0100

/-- `REGISTER_NULL`.
SOURCE: module.h:16-21 -/
def registerNull : U8 := 0x00

/-- `REGISTER_SUCESS`.
SOURCE: module.h:16-21 -/
def registerSucess : U8 := 0x01

/-- `SELECT_MATCH`. -/
def selectMatch : U8 := 0x00

/-- `SELECT_LEARN`. -/
def selectLearn : U8 := 0x01

/-- `RT_EOK` and `RT_ERROR`. -/
inductive RtErr where
  | eok
  | error
  deriving DecidableEq, Repr

/-- The events exchanged with the hub.
SOURCE: Uart.h:121-127 -/
inductive MasterEvent where
  | clean
  | register
  | getAddr
  | setAddr
  deriving DecidableEq, Repr

/-- The configuration and state of the module.
SOURCE: Uart.h:88-101 -/
structure ModuleInfo where
  crc : U16
  addr : U8
  type : U8
  version : U8
  registerState : U8
  brandCode : U16
  ctrl : U16
  select : U8
  findLocation : U8
  deriving DecidableEq, Repr

/-- All fields clear: a static record before anything is stored in it. -/
def ModuleInfo.zero : ModuleInfo := ⟨0, 0, 0, 0, 0, 0, 0, 0, 0⟩

/-- The bytes of the packed record, as `sizeof(module_info_t)` of them lie in memory. -/
def ModuleInfo.toBytes (m : ModuleInfo) : Vector U8 12 :=
  #v[lowByte m.crc, highByte m.crc, m.addr, m.type, m.version, m.registerState,
    lowByte m.brandCode, highByte m.brandCode, lowByte m.ctrl, highByte m.ctrl, m.select,
    m.findLocation]

/-- The packed record that a block of twelve bytes holds. -/
def ModuleInfo.ofBytes (b : Vector U8 12) : ModuleInfo where
  crc := word16 b[1] b[0]
  addr := b[2]
  type := b[3]
  version := b[4]
  registerState := b[5]
  brandCode := word16 b[7] b[6]
  ctrl := word16 b[9] b[8]
  select := b[10]
  findLocation := b[11]

/-- A serial message slot: `struct rx_msg`. `data` is the memory from `uart1_msg.data` on; the
array proper has `uartMsgSize` bytes.
SOURCE: Uart.h:32-38 -/
structure RxMsg where
  size : ℕ
  messageFlag : Bool
  data : List U8
  deriving DecidableEq, Repr

/-- A slot before anything is received. -/
def RxMsg.zero : RxMsg := ⟨0, false, List.replicate uartMsgSize 0⟩

/-- The first `size` bytes of the slot: the frame it holds. -/
def RxMsg.frame (m : RxMsg) : List U8 := m.data.take m.size

/-- `rt_device_read` of a whole burst into the slot: its bytes replace the first ones, what lies
behind them stays. -/
def RxMsg.receive (m : RxMsg) (burst : List U8) : RxMsg :=
  { m with size := burst.length, data := burst ++ m.data.drop burst.length }

/-! ## The code-library protocol and the events of the display -/

/-- The events exchanged with the air-conditioner side.
SOURCE: Uart.h:104-118 -/
inductive EventCode where
  | null
  | sendMatch
  | sendMatchOver
  | sendSave
  | sendOnTest
  | sendOffTest
  | sendLearnModeOn
  | sendLearnModeOff
  | waitLearnOn
  | waitLearnOff
  | sendLearnOnOver
  | sendLearnOffOver
  deriving DecidableEq, Repr

/-- What a `Call_Back` pointer may hold: the null pointer, one of the two functions the pages
store, or whatever the stack of a poster that never set the field contained. -/
inductive CallBack where
  | null
  | matchCallBack
  | learnCallBack
  | uninitialised
  deriving DecidableEq, Repr

/-- SOURCE: infrared.h:17-21 -/
structure InfraredEvent where
  event : EventCode
  callBack : CallBack
  deriving DecidableEq, Repr

/-- `EVENT_NULL` without a callback. -/
def InfraredEvent.zero : InfraredEvent := ⟨.null, .null⟩

/-- `INFRARED_EVENT_MATCH_OK`, the first of the results a callback is called with.
SOURCE: infrared.h:23-29 -/
def infraredEventMatchOk : U8 := 0x01

/-- `INFRARED_EVENT_SAVE_OK`.
SOURCE: infrared.h:23-29 -/
def infraredEventSaveOk : U8 := 0x03

/-- `CB_IN_LEARN_ON`.
SOURCE: Uart.h:129-135 -/
def cbInLearnOn : U8 := 0x01

/-- `CB_IN_LEARN_OFF`.
SOURCE: Uart.h:129-135 -/
def cbInLearnOff : U8 := 0x02

/-- The state code of a reply that reports success.
SOURCE: Uart.h:50-55 -/
def codeRecvSuccess : U8 := 0x01

/-- The state code of a failure.
SOURCE: Uart.h:50-55 -/
def codeRecvFail : U8 := 0x00

/-- The state code of a timeout.
SOURCE: Uart.h:50-55 -/
def codeRecvTimeout : U8 := 0x02

/-- SOURCE: Uart.h:24 -/
def startCode : U16 := 0xAA55

/-- SOURCE: ButtonTask.h:39-43 -/
inductive PressType where
  | nullPress
  | shortPress
  | longPress
  deriving DecidableEq, Repr

/-- `HOME_PAGE`. The eight pages of the menu are numbered.
SOURCE: Oled1309.h:29-38 -/
def homePage : U8 := 0x00

/-- `SETTING_PAGE`. -/
def settingPage : U8 := 0x01

/-- `ONEKEY_MATCH_PAGE`. -/
def onekeyMatchPage : U8 := 0x02

/-- `SELECT_MODE_PAGE`. -/
def selectModePage : U8 := 0x03

/-- `LEARN_MODE_PAGE`. -/
def learnModePage : U8 := 0x04

/-- `LEARN_ON_PAGE`. -/
def learnOnPage : U8 := 0x05

/-- `LEARN_OFF_PAGE`. -/
def learnOffPage : U8 := 0x06

/-- `TEST_PAGE`. -/
def testPage : U8 := 0x07

/-- The cursor of the current page and the pending Enter press.
SOURCE: Oled1309.h:17-23 -/
structure PageSelect where
  cusorHome : U8
  cusorMax : U8
  cusor : U8
  select : Bool
  deriving DecidableEq, Repr

/-! ## What the firmware does outside its memory -/

/-- The pins that the firmware drives. -/
inductive Pin where
  | uart1En
  | ledState
  | oledBackLight
  deriving DecidableEq, Repr

/-- The observable actions: bytes handed to `rt_device_write`, pins, the flash page, and the calls
that results are about (the dispatch of a hub frame, of an event, of a callback, a control
command, `pageReturn` with the stack it pops). -/
inductive Obs where
  | registration (frame : List U8) (size : ℕ)
  | analyze (frame : List U8) (size : ℕ)
  | uart1Tx (bytes : List U8)
  | uart2Tx (bytes : List U8)
  | pin (p : Pin) (level : U8)
  | flashWrite (image : Vector U8 12)
  | setEvent (e : InfraredEvent)
  | dispatch (code : EventCode)
  | callBack (pointer : CallBack) (handled : EventCode) (result : U8)
  | sendCtrl
  | pageReturn (pageInfor : U32)
  deriving DecidableEq

/-! ## The bytes and words of a frame -/

/-- A byte of the first part of a concatenation. -/
theorem byteAt_append_left {xs ys : List U8} {i : ℕ} (h : i < xs.length) :
    byteAt (xs ++ ys) i = byteAt xs i :=
  List.getD_append xs ys 0 i h

/-- A byte of the second part of a concatenation. -/
theorem byteAt_append_right {xs ys : List U8} {i : ℕ} (h : xs.length ≤ i) :
    byteAt (xs ++ ys) i = byteAt ys (i - xs.length) :=
  List.getD_append_right xs ys 0 i h

/-- Cutting a list behind a byte leaves the byte. -/
theorem byteAt_take {xs : List U8} {n i : ℕ} (h : i < n) : byteAt (xs.take n) i = byteAt xs i := by
  simp [byteAt, List.getElem?_take_of_lt h]

/-- The low byte of a composed word. -/
@[simp] theorem lowByte_word16 (hi lo : U8) : lowByte (word16 hi lo) = lo := by
  apply BitVec.eq_of_getLsbD_eq
  intro i hi'
  simp [lowByte, word16, hi']

/-- The high byte of a composed word. -/
@[simp] theorem highByte_word16 (hi lo : U8) : highByte (word16 hi lo) = hi := by
  apply BitVec.eq_of_getLsbD_eq
  intro i hi'
  have hwide : 8 + i < 16 := by omega
  simp [highByte, word16, hi', hwide]

/-- A word is composed of its two bytes. -/
@[simp] theorem word16_bytes (x : U16) : word16 (highByte x) (lowByte x) = x := by
  apply BitVec.eq_of_getLsbD_eq
  intro i hi
  by_cases h : i < 8
  · simp [highByte, lowByte, word16, h, hi]
  · have hhigh : i - 8 < 8 := by omega
    have hsum : 8 + (i - 8) = i := by omega
    simp [highByte, lowByte, word16, h, hi, hhigh, hsum]

/-- What is stored in flash is what is loaded from it. -/
@[simp] theorem ModuleInfo.ofBytes_toBytes (m : ModuleInfo) : ofBytes m.toBytes = m := by
  simp [ofBytes, toBytes]

/-- After a receive the slot holds the burst as its frame. -/
@[simp] theorem RxMsg.frame_receive (m : RxMsg) (burst : List U8) :
    (m.receive burst).frame = burst := by
  simp [frame, receive]

/-- Inside the burst the slot holds the burst. -/
theorem RxMsg.byteAt_receive (m : RxMsg) (burst : List U8) {i : ℕ} (h : i < burst.length) :
    byteAt (m.receive burst).data i = byteAt burst i :=
  byteAt_append_left h

end InfraredModule.Model
