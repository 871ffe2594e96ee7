import InfraredModule.Model.Button
import InfraredModule.Model.Serial
import InfraredModule.Model.System

/-!
# The board, from its pins on

The firmware together with the parts below the events of `threads`: the two serial devices with
their DMA channels, and the table of the button task. Its inputs are what the outside does (a byte
on a line, a line that falls idle, the levels of the button pins) and what the scheduler does
(a round of a task, an action of the serial task). An interrupt and the receive callback that it calls
are one step, as no thread runs before they return.
-/

set_option autoImplicit false

namespace InfraredModule.Model

open InfraredModule.Foundation

/-- The first lines of both callbacks: `rt_device_read` of as many bytes as they are told of.
SOURCE: Uart.c:83-85, 117-119 -/
def RxMsg.readFrom (size : U32) (dev : SerialRx) (m : RxMsg) : RxMsg × SerialRx :=
  let read := rtSerialRead size dev
  ({ m with size := size.toNat, data := read.1 ++ m.data.drop read.1.length }, read.2)

/-- The rest of `Uart1_input`, with the message in its slot.
SOURCE: Uart.c:87-109 -/
def uart1Filter (msg : RxMsg) (s : Firmware) : RtErr × Firmware :=
  let s' := { s with uart1Msg := msg }
  if msg.size < 2 then (.error, s')
  else if ¬ (byteAt msg.data 0 = registerCode ∨ s.moduleInfo.addr = byteAt msg.data 0) then
    (.error, s')
  else if crcMatches msg.data msg.size then
    (.eok, { s with uart1Msg := { msg with messageFlag := true } })
  else (.error, s')

/-- The rest of `Uart2_input`.
SOURCE: Uart.c:121-129 -/
def uart2Filter (msg : RxMsg) (s : Firmware) : Firmware :=
  if msg.size > 2 ∧ byteAt msg.data 0 = 0xAA ∧ byteAt msg.data 1 = 0x55 then
    { s with uart2Msg := { msg with messageFlag := true } }
  else { s with uart2Msg := msg }

/-- `Uart1_input` as the driver calls it. -/
def uart1Indicate (size : U32) (dev : SerialRx) (s : Firmware) : SerialRx × Firmware :=
  let read := s.uart1Msg.readFrom size dev
  (read.2, (uart1Filter read.1 s).2)

/-- `Uart2_input` as the driver calls it. -/
def uart2Indicate (size : U32) (dev : SerialRx) (s : Firmware) : SerialRx × Firmware :=
  let read := s.uart2Msg.readFrom size dev
  (read.2, uart2Filter read.1 s)

/-- The interrupt of a device with its callback, which is called only when something has come. -/
def serialInterrupt (indicate : U32 → SerialRx → Firmware → SerialRx × Firmware) (dev : SerialRx)
    (s : Firmware) : SerialRx × Firmware :=
  match uartIsr dev with
  | (none, dev) => (dev, s)
  | (some size, dev) => indicate size dev s

/-- The board: the threads, the two serial receivers and the buttons. -/
structure Board where
  threads : Threads
  serial1 : SerialRx
  serial2 : SerialRx
  buttons : Buttons

/-- The board at the start of the loops, with the devices opened and the buttons registered. -/
def Board.boot (s : Firmware) : Board := ⟨⟨s, .skip⟩, serialOpen, serialOpen, buttonRegister⟩

/-- The two serial ports. -/
inductive Port where
  | uart1
  | uart2
  deriving DecidableEq, Repr

/-- What reaches the board: a received byte, an idle line, an iteration of the button thread or of the
display thread, the start of an iteration of the serial task with the pin level and the heap it finds, and
one action of it. -/
inductive BoardInput where
  | byte (port : Port) (b : U8)
  | idle (port : Port)
  | buttonTask (level : ℕ → U8)
  | oledIteration
  | start (pin : U8) (heap : Heap)
  | action

/-- The board on one input. -/
def board (chip : Chip) : BoardInput → Cmd Board Obs
  | .byte .uart1 b => Cmd.modify fun x => { x with serial1 := dmaTransfer x.serial1 b }
  | .byte .uart2 b => Cmd.modify fun x => { x with serial2 := dmaTransfer x.serial2 b }
  | .idle .uart1 => Cmd.modify fun x =>
    let r := serialInterrupt uart1Indicate x.serial1 x.threads.fw
    { x with serial1 := r.1, threads := ⟨r.2, x.threads.rest⟩ }
  | .idle .uart2 => Cmd.modify fun x =>
    let r := serialInterrupt uart2Indicate x.serial2 x.threads.fw
    { x with serial2 := r.1, threads := ⟨r.2, x.threads.rest⟩ }
  | .buttonTask level => fun x =>
    let round := buttonTask level x.buttons
    let calls := callBacks round.2 x.threads.fw
    ({ x with buttons := round.1, threads := ⟨calls.1, x.threads.rest⟩ }, calls.2)
  | .oledIteration => fun x =>
    let r := threads chip (.peer .oledIteration) x.threads
    ({ x with threads := r.1 }, r.2)
  | .start pin heap => fun x =>
    let r := threads chip (.start pin heap) x.threads
    ({ x with threads := r.1 }, r.2)
  | .action => fun x =>
    let r := threads chip .action x.threads
    ({ x with threads := r.1 }, r.2)

end InfraredModule.Model
