import InfraredModule.Model.Footprint
import InfraredModule.Model.Memory

/-!
# Requests of the hub on the heap

`analyzeMasterData` and `replyDataToMaster` once more, with the blocks they take from the heap of
`mem.c` and give back to it. What they do with a block they were given is what they do on a heap
with room; what the stores leave in memory is read as records (`memory`), since a store beyond the
block would reach the record of the next one.

SOURCE: module.c:55-117, 187-220
-/

set_option autoImplicit false

namespace InfraredModule.Model

/-- Store to bytes of a block: every record of which one of the bytes is a part may change. -/
def storeTo (mem : SmallMem) (buf : ℕ) (indices : List ℕ) (memory : ℕ → HeapMem) : SmallMem :=
  { mem with headers := fun a =>
      if indices.any fun i =>
        decide (mem.heapPtr + a ≤ buf + i ∧ buf + i < mem.heapPtr + a + sizeofStructMem)
      then memory a else mem.headers a }

/-- SOURCE: module.c:187-220 -/
def replyDataToMasterOn (memory : ℕ → HeapMem) (m : ModuleInfo) (rw : U8) (data : List U8) (reg : U16)
    (len : U8) (mem : SmallMem) : Option (List Obs × SmallMem) :=
  (rtMalloc mem (BitVec.ofNat 32 (len.toNat + 3 + 2))).bind fun
    | (none, mem) => some ([], mem)
    | (some buf, mem) =>
      (rtFree (storeTo mem buf (replyStores rw len) memory) buf).map fun mem =>
        (replyDataToMaster Heap.ample m rw data reg len, mem)

/-- The bytes of `replyData` that are stored to.
SOURCE: module.c:72-75 -/
def readStores (num : U8) : List ℕ := (List.range num.toNat).flatMap fun index => bytesFrom (2 * index) 2

/-- SOURCE: module.c:64-84 -/
def analyzeReadOn (memory : ℕ → HeapMem) (id : U32) (data : List U8) (m : ModuleInfo) (mem : SmallMem) :
    Option ((ModuleInfo × List Obs) × SmallMem) :=
  let num := byteAt data 5
  (rtMalloc mem (BitVec.ofNat 32 (num.toNat * 2))).bind fun
    | (none, mem) => some ((m, []), mem)
    | (some replyData, mem) =>
      let temp := word16 (byteAt data 2) (byteAt data 3)
      let r := readRegisters id temp num.toNat m
      (replyDataToMasterOn memory r.2 readMuti (r.1.flatMap littleEndian) 0 (num * 2)
          (storeTo mem replyData (readStores num) memory)).bind fun sent =>
        (rtFree sent.2 replyData).map fun mem => ((r.2, sent.1), mem)

/-- SOURCE: module.c:85-107 -/
def analyzeWriteOn (memory : ℕ → HeapMem) (id : U32) (data : List U8) (m : ModuleInfo) (mem : SmallMem) :
    Option ((ModuleInfo × List Obs) × SmallMem) :=
  let reg := word16 (byteAt data 2) (byteAt data 3)
  let m := setRegister reg (word16 (byteAt data 4) (byteAt data 5)) m
  (rtMalloc mem 2).bind fun
    | (none, mem) => some ((m, []), mem)
    | (some replyData, mem) =>
      let r := getRegister id reg m
      (replyDataToMasterOn memory r.2 writeSingle (littleEndian r.1) reg 2
          (storeTo mem replyData (bytesFrom 0 2) memory)).bind fun sent =>
        (rtFree sent.2 replyData).map fun mem => ((r.2, sent.1), mem)

/-- SOURCE: module.c:55-117 -/
def analyzeMasterDataOn (memory : ℕ → HeapMem) (id : U32) (data : List U8) (size : ℕ) (m : ModuleInfo)
    (mem : SmallMem) : Option ((RtErr × ModuleInfo × List Obs) × SmallMem) :=
  if byteAt data 1 = readMuti then
    (analyzeReadOn memory id data m mem).map fun r => ((.eok, r.1), r.2)
  else if byteAt data 1 = writeSingle then
    if size = 8 then (analyzeWriteOn memory id data m mem).map fun r => ((.eok, r.1), r.2)
    else some ((.error, m, []), mem)
  else some ((.eok, m, []), mem)

end InfraredModule.Model
