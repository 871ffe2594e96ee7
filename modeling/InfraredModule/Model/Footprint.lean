import InfraredModule.Model.Uart

/-!
# Where the code reads and writes

The indices that the functions of `Uart.c` and `module.c` apply to their buffers, branch by
branch as the functions themselves: the message slots `uart1_msg.data` and `uart2_msg.data`, the
blocks that `rt_malloc` returns, and the record `module_info`. The values are the business of
the other modules.
-/

set_option autoImplicit false

namespace InfraredModule.Model

/-- The `n` bytes from `base` on, as `rt_memcpy`, `rt_memset` or `rt_device_read` touch them. -/
def bytesFrom (base n : ℕ) : List ℕ := (List.range n).map (base + ·)

/-! ## The message slots -/

/-- The bytes `usModbusRTU_CRC` reads. -/
def usModbusRtuCrcIndices (ulLen : ℕ) : List ℕ := bytesFrom 0 ulLen

/-- SOURCE: Uart.c:83-101 -/
def uart1InputIndices (burst : List U8) (s : Firmware) : List ℕ :=
  let msg := s.uart1Msg.receive burst
  bytesFrom 0 msg.size ++
    if burst.length < 2 then []
    else 0 :: (if byteAt msg.data 0 = registerCode then [] else [0]) ++
      if ¬ (byteAt msg.data 0 = registerCode ∨ s.moduleInfo.addr = byteAt msg.data 0) then []
      else [msg.size - 1, msg.size - 2] ++ usModbusRtuCrcIndices (msg.size - 2)

/-- SOURCE: Uart.c:117-127 -/
def uart2InputIndices (burst : List U8) (s : Firmware) : List ℕ :=
  let msg := s.uart2Msg.receive burst
  bytesFrom 0 msg.size ++
    if burst.length > 2 then 0 :: if byteAt msg.data 0 = 0xAA then [1] else [] else []

/-- SOURCE: module.c:65-90 -/
def analyzeMasterDataIndices (heap : Heap) (data : List U8) (size : ℕ) : List ℕ :=
  1 :: if byteAt data 1 = readMuti then
      5 :: if heap.room ((byteAt data 5).toNat * 2) then [2, 3] else []
    else if byteAt data 1 = writeSingle then if size = 8 then [2, 3, 4, 5] else []
    else []

/-- SOURCE: Uart.c:260-293 -/
def pollUart1Indices (id : U32) (heap : Heap) (s : Firmware) : List ℕ :=
  if s.uart1Msg.messageFlag then
    0 :: if byteAt s.uart1Msg.data 0 = registerCode then
        if s.uart1Msg.size ≥ 6 then
          [2, 3, 4, 5] ++ if frameUuid s.uart1Msg.data = id then [7] else []
        else []
      else 0 :: if s.moduleInfo.addr = byteAt s.uart1Msg.data 0 then
          analyzeMasterDataIndices heap s.uart1Msg.data s.uart1Msg.size
        else []
  else []

/-- The copies of a reply into a local record. `codeDataRecvResult` is given the slot but copies the
bytes of its own argument.
SOURCE: Uart.c:296-377, infrared.c:288-293 -/
def uart2RepliesIndices (s : Firmware) : List ℕ :=
  if s.uart2Msg.messageFlag ∧ replySized s ∧
      (handles .sendMatch s ∨ handles .sendLearnModeOn s ∨ handles .sendLearnModeOff s) then
    bytesFrom 0 7
  else []

/-! ## The blocks of a reply -/

/-- An access to a byte of a block, and the size the block was asked for with. -/
structure Access where
  size : ℕ
  index : ℕ
  deriving DecidableEq, Repr

/-- The bytes of `buf` that are stored to.
SOURCE: module.c:194-218 -/
def replyStores (rw len : U8) : List ℕ :=
  if rw = readMuti then
    [0, 1, 2] ++ bytesFrom 3 len.toNat ++ [len.toNat + 3, len.toNat + 4]
  else if rw = writeSingle then
    [0, 1, 2, 3] ++ bytesFrom 4 len.toNat ++ [len.toNat + 4, len.toNat + 5]
  else []

/-- The bytes of `buf` that `sendMessageToMaster` transmits; its length argument is a `u8`.
SOURCE: module.c:203, 215, Uart.c:590-595 -/
def replySends (rw len : U8) : List ℕ :=
  if rw = readMuti then bytesFrom 0 (BitVec.ofNat 8 (len.toNat + 3 + 2)).toNat
  else if rw = writeSingle then bytesFrom 0 (BitVec.ofNat 8 (len.toNat + 4 + 2)).toNat
  else []

/-- SOURCE: module.c:187-220 -/
def replyDataToMasterAccesses (heap : Heap) (rw len : U8) : List Access :=
  let block := len.toNat + 3 + 2
  if heap.room block then (replyStores rw len ++ replySends rw len).map (Access.mk block) else []

/-- SOURCE: module.c:64-107 -/
def analyzeMasterDataAccesses (heap : Heap) (data : List U8) (size : ℕ) : List Access :=
  if byteAt data 1 = readMuti then
    let num := byteAt data 5
    let block := num.toNat * 2
    if heap.room block then
      ((List.range num.toNat).flatMap fun index => bytesFrom (2 * index) 2).map (Access.mk block) ++
        replyDataToMasterAccesses heap readMuti (num * 2)
    else []
  else if byteAt data 1 = writeSingle then
    if size = 8 then
      if heap.room 2 then
        (bytesFrom 0 2).map (Access.mk 2) ++ replyDataToMasterAccesses heap writeSingle 2
      else []
    else []
  else []

/-! ## The record at start-up -/

/-- The bytes `initModuleInfo` stores to, counted from the beginning of `module_info`:
`getModuleInfo() + 2` is two records further on.
SOURCE: Uart.c:59-74 -/
def initModuleInfoStores (m : ModuleInfo) (beyond : Vector U8 10) : List ℕ :=
  (if usModbusRtuCrc beyond.toList 10 ≠ m.crc then bytesFrom (2 * 12) 10 ++ [2] else []) ++
    [5, 3] ++ bytesFrom 0 2

end InfraredModule.Model
