import InfraredModule.Model.Data

/-!
# `drv_flash_f1.c`: the driver of the flash memory

Below `setDataToFlah` and `getDataFromFlash`: the driver, and of the HAL the word programming and the
page erase. The memory is a function of the address. What the controller is told to do is kept
as a list of operations, so that a power cut between two of them can be spoken of. It programs a
half-word only over an erased one, or to zero; else it raises `PGERR` and leaves the cell. The
keys, the lock and the wait for the busy flag are left out: every operation runs between an unlock and
a lock and is waited for.
-/

set_option autoImplicit false

namespace InfraredModule.Model

/-- The flash as a byte at each address. -/
abbrev FlashMem := U32 → U8

/-- SOURCE: Uart.h:29 -/
def dataBlockStart : U32 := 0x801FC00

/-- SOURCE: board.h:32-34, drv_common.h:36 -/
def stm32FlashEndAddress : U32 := 0x08020000

/-- SOURCE: stm32f1xx_hal_flash_ex.h:242-243 -/
def flashPageSize : U32 := 0x400

/-- `RT_ALIGN_DOWN(addr, FLASH_PAGE_SIZE)`.
SOURCE: drv_flash_f1.c:32-37 -/
def getPage (addr : U32) : U32 := addr &&& ~~~(flashPageSize - 1)

/-! ## The controller -/

/-- The operations of the flash controller. -/
inductive FlashOp where
  | pageErase (addr : U32)
  | programHalfWord (addr : U32) (data : U16)
  deriving DecidableEq, Repr

/-- The half-word at an address, low byte first. -/
def halfWordAt (m : FlashMem) (addr : U32) : U16 := word16 (m (addr + 1)) (m addr)

/-- The controller does it, and raises no error. -/
def FlashOp.accepted (m : FlashMem) : FlashOp → Bool
  | .pageErase _ => true
  | .programHalfWord addr data => decide (halfWordAt m addr = 0xFFFF ∨ data = 0)

/-- What is in the memory afterwards. -/
def FlashOp.apply (m : FlashMem) : FlashOp → FlashMem
  | .pageErase addr => fun x => if getPage x = getPage addr then 0xFF else m x
  | .programHalfWord addr data =>
    if halfWordAt m addr = 0xFFFF ∨ data = 0 then
      fun x => if x = addr then lowByte data else if x = addr + 1 then highByte data else m x
    else m

/-- The memory after a power cut that lets some operations through. -/
def applyOps (m : FlashMem) (ops : List FlashOp) : FlashMem := ops.foldl FlashOp.apply m

/-! ## The HAL -/

/-- What a function of the driver did: its status, and the operations it gave to the controller. -/
structure FlashRun (α : Type) where
  result : α
  ops : List FlashOp
  deriving Repr

/-- `HAL_FLASH_Program` of a word: two half-words, the second only if the first was programmed.
SOURCE: stm32f1xx_hal_flash.c:168-251, 797-819 -/
def halFlashProgram (addr data : U32) (m : FlashMem) : FlashRun Bool :=
  let low := FlashOp.programHalfWord addr (data.setWidth 16)
  if low.accepted m then
    let high := FlashOp.programHalfWord (addr + 2) ((data >>> 16).setWidth 16)
    ⟨high.accepted (low.apply m), [low, high]⟩
  else ⟨false, [low]⟩

/-- The loop of `HAL_FLASHEx_Erase` over the pages of the first bank. It makes at most `NbPages` rounds.
SOURCE: stm32f1xx_hal_flash_ex.c:277-297, 1089-1112 -/
def eraseLoop (limit : U32) : ℕ → U32 → List FlashOp
  | 0, _ => []
  | rounds + 1, address =>
    if address < limit then .pageErase address :: eraseLoop limit rounds (address + flashPageSize) else []

/-- `HAL_FLASHEx_Erase` of so many pages. The `for` bound is computed in 32 bits. -/
def halFlashExErase (pageAddress nbPages : U32) : List FlashOp :=
  eraseLoop (nbPages * flashPageSize + pageAddress) nbPages.toNat pageAddress

/-! ## The driver -/

/-- `-RT_EINVAL`, `-RT_ERROR`, or the size. -/
inductive FlashResult where
  | einval
  | error
  | size (n : U32)
  deriving DecidableEq, Repr

/-- The bytes it stores.
SOURCE: drv_flash_f1.c:49-65 -/
def stm32FlashRead (addr size : U32) (m : FlashMem) : FlashResult × List U8 :=
  if addr + size > stm32FlashEndAddress then (.einval, [])
  else (.size size, (List.range size.toNat).map fun i => m (addr + BitVec.ofNat 32 i))

/-- `*(rt_uint32_t *)buf`. -/
def bufWord (buf : List U8) : U32 :=
  (word16 (byteAt buf 3) (byteAt buf 2)).setWidth 32 <<< 16 ||| (word16 (byteAt buf 1) (byteAt buf 0)).setWidth 32

/-- `*(rt_uint32_t *)addr`. -/
def flashWord (m : FlashMem) (addr : U32) : U32 :=
  (halfWordAt m (addr + 2)).setWidth 32 <<< 16 ||| (halfWordAt m addr).setWidth 32

/-- The loop of `stm32_flash_write`: each word is programmed and read back.
SOURCE: drv_flash_f1.c:97-115 -/
def writeLoop (endAddr : U32) : ℕ → U32 → List U8 → FlashMem → FlashRun Bool
  | 0, _, _, _ => ⟨true, []⟩
  | rounds + 1, addr, buf, m =>
    if addr < endAddr then
      let word := halFlashProgram addr (bufWord buf) m
      if word.result ∧ flashWord (applyOps m word.ops) addr = bufWord buf then
        let rest := writeLoop endAddr rounds (addr + 4) (buf.drop 4) (applyOps m word.ops)
        ⟨rest.result, word.ops ++ rest.ops⟩
      else ⟨false, word.ops⟩
    else ⟨true, []⟩

/-- SOURCE: drv_flash_f1.c:78-125 -/
def stm32FlashWriteAt (addr : U32) (buf : List U8) (size : U32) (m : FlashMem) : FlashRun FlashResult :=
  if addr % 4 ≠ 0 then ⟨.einval, []⟩
  else if addr + size > stm32FlashEndAddress then ⟨.einval, []⟩
  else
    let written := writeLoop (addr + size) (size.toNat / 4 + 1) addr buf m
    ⟨if written.result then .size size else .error, written.ops⟩

/-- `stm32_flash_erase`: this chip has one bank. The status of the HAL is that of the last page, and an error if
there is none.
SOURCE: drv_flash_f1.c:138-173, 244-246 -/
def stm32FlashEraseAt (addr size : U32) : FlashRun FlashResult :=
  if addr + size > stm32FlashEndAddress then ⟨.einval, []⟩
  else
    let ops := halFlashExErase (getPage addr) ((size + flashPageSize - 1) / flashPageSize)
    ⟨if ops = [] then .error else .size size, ops⟩

/-- `setDataToFlah`, which looks at neither result.
SOURCE: module.c:222-226 -/
def setDataToFlahAt (addr : U32) (data : List U8) (size : U32) (m : FlashMem) : List FlashOp :=
  let erased := (stm32FlashEraseAt addr size).ops
  erased ++ (stm32FlashWriteAt addr data size (applyOps m erased)).ops

/-- `getDataFromFlash`.
SOURCE: module.c:228-231 -/
def getDataFromFlashAt (addr size : U32) (m : FlashMem) : List U8 := (stm32FlashRead addr size m).2

end InfraredModule.Model
