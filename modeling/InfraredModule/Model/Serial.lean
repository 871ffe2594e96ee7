import InfraredModule.Foundation.Program
import InfraredModule.Model.Data

/-!
# `drv_usart.c` and `serial.c`: reception by DMA

The receive side of a serial device opened with `RT_DEVICE_FLAG_DMA_RX`: the circular DMA
transfer into the driver's ring, the interrupt at the end of a burst, and `rt_device_read`. The
two callbacks that would run at the half and at the end of the ring are empty, so nothing but
the IDLE interrupt moves the indices. `rt_size_t` and `int` are 32-bit words, the indices of the
ring 16-bit ones, and every conversion between them is written out.
-/

set_option autoImplicit false

namespace InfraredModule.Model

open InfraredModule.Foundation

/-- SOURCE: rtconfig.h:79 -/
def bufsz : U32 := 256

/-- SOURCE: serial.h:63 -/
def rtSerialEventRxDmadone : U32 := 0x03

/-- The counter of the DMA channel, `dma_rx.last_index`, and `struct rt_serial_rx_fifo`.
SOURCE: drv_usart.c:98-102, serial.h:109-117 -/
structure SerialRx where
  counter : U32
  lastIndex : U32
  buffer : List U8
  putIndex : U16
  getIndex : U16
  isFull : Bool
  deriving DecidableEq, Repr

/-- The device after `rt_serial_open`: the ring is cleared and the DMA transfer started.
SOURCE: serial.c:647-664, drv_usart.c:1213 -/
def serialOpen : SerialRx := ⟨bufsz, 0, List.replicate 256 0, 0, 0, false⟩

/-- The DMA channel stores a byte; its counter runs down and is reloaded when it gets to 0. -/
def dmaTransfer (s : SerialRx) (byte : U8) : SerialRx :=
  { s with
    buffer := s.buffer.set (bufsz - s.counter).toNat byte
    counter := if s.counter - 1 = 0 then bufsz else s.counter - 1 }

/-- SOURCE: serial.c:364-387 -/
def serialFifoCalcRecvedLen (s : SerialRx) : U32 :=
  if s.putIndex = s.getIndex then if s.isFull then bufsz else 0
  else if s.putIndex > s.getIndex then s.putIndex.setWidth 32 - s.getIndex.setWidth 32
  else bufsz - (s.getIndex.setWidth 32 - s.putIndex.setWidth 32)

/-- An addition of an `rt_size_t` to an index. -/
def addIndex (index : U16) (len : U32) : U16 := (index.setWidth 32 + len).setWidth 16

/-- SOURCE: serial.c:407-421 -/
def rtDmaRecvUpdateGetIndex (len : U32) (s : SerialRx) : SerialRx :=
  let getIndex := addIndex s.getIndex len
  { s with
    isFull := if s.isFull ∧ len ≠ 0 then false else s.isFull
    getIndex :=
      if getIndex.setWidth 32 ≥ bufsz then (getIndex.setWidth 32 % bufsz).setWidth 16 else getIndex }

/-- SOURCE: serial.c:429-469 -/
def rtDmaRecvUpdatePutIndex (len : U32) (s : SerialRx) : SerialRx :=
  let moved := addIndex s.putIndex len
  let wrapped :=
    if moved.setWidth 32 ≥ bufsz then (moved.setWidth 32 % bufsz).setWidth 16 else moved
  let s :=
    if s.getIndex ≤ s.putIndex then
      { s with
        putIndex := wrapped
        isFull := if moved.setWidth 32 ≥ bufsz ∧ wrapped ≥ s.getIndex then true else s.isFull }
    else if moved ≥ s.getIndex then { s with putIndex := wrapped, isFull := true }
    else { s with putIndex := moved }
  if s.isFull then { s with getIndex := s.putIndex } else s

/-- The branch of the receive event; the length that `rx_indicate` is called with.
SOURCE: serial.c:1195, 1289-1324 -/
def rtHwSerialIsr (event : U32) (s : SerialRx) : Option U32 × SerialRx :=
  if event &&& 0xff = rtSerialEventRxDmadone then
    let length := BitVec.sshiftRight (event &&& ~~~0xff) 8
    let s := rtDmaRecvUpdatePutIndex length s
    (some (serialFifoCalcRecvedLen s), s)
  else (none, s)

/-- The IDLE branch.
SOURCE: drv_usart.c:686-700 -/
def uartIsr (s : SerialRx) : Option U32 × SerialRx :=
  let recvTotalIndex := bufsz - s.counter
  let recvLen := recvTotalIndex - s.lastIndex
  let s := { s with lastIndex := recvTotalIndex }
  if recvLen ≠ 0 then rtHwSerialIsr (rtSerialEventRxDmadone ||| (recvLen <<< 8)) s else (none, s)

/-- `rt_memcpy` of `len` bytes of the ring, from an offset on. -/
def copied (s : SerialRx) (offset len : U32) : List U8 := (s.buffer.drop offset.toNat).take len.toNat

/-- SOURCE: serial.c:474-529 -/
def serialDmaRx (length : U32) (s : SerialRx) : List U8 × SerialRx :=
  let fifoRecvedLen := serialFifoCalcRecvedLen s
  let recvLen := if length.slt fifoRecvedLen then length else fifoRecvedLen
  let getIndex : U32 := s.getIndex.setWidth 32
  let data :=
    if getIndex + recvLen < bufsz then copied s getIndex recvLen
    else copied s getIndex (bufsz - getIndex) ++ copied s 0 (recvLen + getIndex - bufsz)
  (data, rtDmaRecvUpdateGetIndex recvLen s)

/-- `rt_device_read`: the bytes it stores.
SOURCE: serial.c:824-848 -/
def rtSerialRead (size : U32) (s : SerialRx) : List U8 × SerialRx :=
  if size = 0 then ([], s) else serialDmaRx size s

/-- A burst on the line: the DMA transfers its bytes, the line falls idle, and the receive callback
reads the whole length it is called with. Observed are the length and the bytes. -/
def serialBurst (burst : List U8) : Cmd SerialRx (U32 × List U8) := fun s =>
  let r := uartIsr (burst.foldl dmaTransfer s)
  match r.1 with
  | none => (r.2, [])
  | some size => ((rtSerialRead size r.2).2, [(size, (rtSerialRead size r.2).1)])

end InfraredModule.Model
