import InfraredModule.Model.Main

/-!
# `module.c`: the register protocol with the hub

The functions work on `module_info` alone. What they transmit is returned as observations.
`rt_malloc` is a parameter: the sizes for which the heap has room. `ReadUniqueId` enters as
the number it returns.

SOURCE: module.c:19-231
-/

set_option autoImplicit false

namespace InfraredModule.Model

/-- The sizes for which `rt_malloc` finds room; for the empty block it always returns `RT_NULL`.
The two allocations of one request have different sizes, so a function of the size describes
every outcome.
SOURCE: mem.c:272-278 -/
structure Heap where
  room : ℕ → Bool
  empty : room 0 = false

/-- A heap with room for every block that is not empty. -/
def Heap.ample : Heap := ⟨fun size => decide (size ≠ 0), rfl⟩

/-- The twelve bytes of the flash page that the firmware uses. -/
abbrev FlashPage := Vector U8 12

/-- `(x >> 8) | (x << 8)` computed in `int` and stored in a `u16`. -/
def swapBytes (x : U32) : U16 := ((x >>> 8) ||| (x <<< 8)).setWidth 16

/-- The value of a register, and the record after the read: reading the location sets `findLocation`.
SOURCE: module.c:120-158 -/
def getRegister (id : U32) (addr : U16) (m : ModuleInfo) : U16 × ModuleInfo :=
  if addr = registerLocation then (0, { m with findLocation := yes })
  else if addr = registerVersion then (m.version.setWidth 16, m)
  else if addr = registerUuid1 then ((id >>> 16).setWidth 16, m)
  else if addr = registerUuid2 then (id.setWidth 16, m)
  else if addr = registerAddr then (swapBytes (m.addr.setWidth 32), m)
  else if addr = registerType then (swapBytes (m.type.setWidth 32), m)
  else if addr = registerCtrl then (swapBytes (m.ctrl.setWidth 32), m)
  else (0, m)

/-- Stores a register that may be written.
SOURCE: module.c:160-185 -/
def setRegister (addr data : U16) (m : ModuleInfo) : ModuleInfo :=
  if addr = registerAddr then { m with addr := data.setWidth 8 }
  else if addr = registerCtrl then { m with ctrl := data }
  else m

/-- SOURCE: Uart.c:590-595 -/
def sendMessageToMaster (data : List U8) (len : U8) : List Obs :=
  [.pin .uart1En yes, .uart1Tx (data.take len.toNat), .pin .uart1En no]

/-- Append the check of a frame, low byte first. -/
def withCrc (buf : List U8) : List U8 :=
  buf ++ [lowByte (usModbusRtuCrc buf buf.length), highByte (usModbusRtuCrc buf buf.length)]

/-- The reply to the hub, when the heap has room for it.
SOURCE: module.c:187-220 -/
def replyDataToMaster (heap : Heap) (m : ModuleInfo) (rw : U8) (data : List U8) (reg : U16)
    (len : U8) : List Obs :=
  if heap.room (len.toNat + 3 + 2) then
    if rw = readMuti then
      sendMessageToMaster (withCrc ([m.addr, rw, len] ++ data.take len.toNat))
        (BitVec.ofNat 8 (len.toNat + 3 + 2))
    else if rw = writeSingle then
      sendMessageToMaster
        (withCrc ([m.addr, rw, highByte reg, lowByte reg] ++ data.take len.toNat))
        (BitVec.ofNat 8 (len.toNat + 4 + 2))
    else []
  else []

/-- The loop that fills `replyData`, after `n` rounds.
SOURCE: module.c:72-75 -/
def readRegisters (id : U32) (temp : U16) : ℕ → ModuleInfo → List U16 × ModuleInfo
  | 0, m => ([], m)
  | n + 1, m =>
    let filled := readRegisters id temp n m
    let r := getRegister id (temp + BitVec.ofNat 16 n) filled.2
    (filled.1 ++ [r.1], r.2)

/-- SOURCE: module.c:64-84 -/
def analyzeRead (heap : Heap) (id : U32) (data : List U8) (m : ModuleInfo) :
    ModuleInfo × List Obs :=
  let num := byteAt data 5
  if heap.room (num.toNat * 2) then
    let temp := word16 (byteAt data 2) (byteAt data 3)
    let r := readRegisters id temp num.toNat m
    (r.2, replyDataToMaster heap r.2 readMuti (r.1.flatMap littleEndian) 0 (num * 2))
  else (m, [])

/-- SOURCE: module.c:85-107 -/
def analyzeWrite (heap : Heap) (id : U32) (data : List U8) (m : ModuleInfo) :
    ModuleInfo × List Obs :=
  let reg := word16 (byteAt data 2) (byteAt data 3)
  let m := setRegister reg (word16 (byteAt data 4) (byteAt data 5)) m
  if heap.room 2 then
    let r := getRegister id reg m
    (r.2, replyDataToMaster heap r.2 writeSingle (littleEndian r.1) reg 2)
  else (m, [])

/-- SOURCE: module.c:55-117 -/
def analyzeMasterData (heap : Heap) (id : U32) (data : List U8) (size : ℕ) (m : ModuleInfo) :
    RtErr × ModuleInfo × List Obs :=
  if byteAt data 1 = readMuti then (.eok, analyzeRead heap id data m)
  else if byteAt data 1 = writeSingle then
    if size = 8 then (.eok, analyzeWrite heap id data m) else (.error, m, [])
  else (.eok, m, [])

/-- SOURCE: module.c:29-51 -/
def sendRegisterToMaster (id : U32) (m : ModuleInfo) : List Obs :=
  sendMessageToMaster (withCrc [registerCode, 0x00, 0x00, 0x00, 0x00, 0x00, 0x06, m.addr,
    infraredType, (id >>> 24).setWidth 8, (id >>> 16).setWidth 8, (id >>> 8).setWidth 8,
    id.setWidth 8]) 15

/-! ## The flash page

SOURCE: module.c:222-231 -/

/-- A page erase sets every bit. -/
def stm32FlashErase (_ : FlashPage) : FlashPage := Vector.replicate 12 0xFF

/-- Programming clears the bits that are clear in the data. -/
def stm32FlashWrite (page data : FlashPage) : FlashPage := Vector.zipWith (· &&& ·) page data

/-- Writes the record: the page is erased and then programmed.
SOURCE: module.c:222-226 -/
def setDataToFlah (page data : FlashPage) : FlashPage := stm32FlashWrite (stm32FlashErase page) data

/-- Reads the record.
SOURCE: module.c:228-231 -/
def getDataFromFlash (page : FlashPage) : ModuleInfo := ModuleInfo.ofBytes page

/-- What is written is what the page then holds. -/
@[simp] theorem setDataToFlah_eq (page data : FlashPage) : setDataToFlah page data = data := by
  apply Vector.ext
  intro i hi
  have hones : (0xFF : U8) &&& data[i] = data[i] := by
    simpa using BitVec.allOnes_and (x := data[i])
  simpa [setDataToFlah, stm32FlashErase, stm32FlashWrite] using hones

end InfraredModule.Model
