import InfraredModule.Analysis.Buffers
import InfraredModule.Analysis.HeapRuns
import InfraredModule.Model.HeapReplies

/-!
# Requests of the hub leave the heap as they found it

A block that is taken, written and given back leaves the blocks as they were (`Borrowed`). The
requests of the hub borrow two blocks, one inside the other. What they store stays inside the blocks
as `mem.c` cuts them, also where it is more than was asked for (`accesses_fit`).
-/

set_option autoImplicit false

namespace InfraredModule.Analysis

open InfraredModule.Foundation InfraredModule.Foundation.Arena InfraredModule.Model

/-- A pointer to a block among `cs` with room for `need` bytes; giving it back leaves `bs`. -/
structure Borrowed (bs cs : List Block) (heapPtr buf need : ℕ) : Prop where
  block : ∃ x n, (x, n) ∈ taken 0 cs ∧ buf = heapPtr + x + sizeofStructMem ∧
    sizeofStructMem + need ≤ n ∧ release x cs = bs

/-- The same region twice. -/
theorem SameRegion.trans {a b c : SmallMem} (hab : SameRegion a b) (hbc : SameRegion b c) : SameRegion a c :=
  ⟨hbc.1.trans hab.1, hbc.2.trans hab.2⟩

/-- A request is refused, or answered with a block. -/
theorem rtMalloc_borrow {mem : SmallMem} {bs : List Block} (hm : Represents mem bs) (size : U32) :
    (request mem.memSizeAligned size bs = none ∧ rtMalloc mem size = some (none, mem)) ∨
    ∃ cs buf mem', (request mem.memSizeAligned size bs).isSome = true ∧
      rtMalloc mem size = some (some buf, mem') ∧ Represents mem' cs ∧ SameRegion mem mem' ∧
      Borrowed bs cs mem.heapPtr buf (blockSize size.toNat) := by
  rcases rtMalloc_refines hm size with hnone | ⟨x, cs, mem', hrequest, hreturns, hmem', hregion, -⟩
  · exact .inl hnone
  · right
    refine ⟨cs, _, mem', by rw [hrequest]; rfl, hreturns, hmem', hregion, ?_⟩
    rw [request] at hrequest
    split at hrequest
    case isTrue => cases hrequest
    case isFalse =>
      obtain ⟨n, hn, htaken⟩ := taken_allocate hm.sound leastBlock_pos hrequest
      exact ⟨x, n, htaken.mem_iff.mpr List.mem_cons_self, rfl, hn,
        release_allocate hm.sound leastBlock_pos hrequest⟩

/-- A borrowed buffer is released, and the blocks are as they were before it was taken. -/
theorem Borrowed.free {mem : SmallMem} {bs cs : List Block} {buf need : ℕ} (hm : Represents mem cs)
    (h : Borrowed bs cs mem.heapPtr buf need) :
    ∃ mem', rtFree mem buf = some mem' ∧ Represents mem' bs ∧ SameRegion mem mem' := by
  obtain ⟨x, n, hx, rfl, -, hrelease⟩ := h.block
  obtain ⟨mem', hfree, hmem', hregion, -⟩ := rtFree_refines hm hx
  exact ⟨mem', hfree, hrelease ▸ hmem', hregion⟩

/-- Stores below the size of the block. -/
theorem Borrowed.store {mem : SmallMem} {bs cs : List Block} {buf need : ℕ} (hm : Represents mem cs)
    (h : Borrowed bs cs mem.heapPtr buf need) {indices : List ℕ} (hbelow : ∀ i ∈ indices, i < need)
    (memory : ℕ → HeapMem) : Represents (storeTo mem buf indices memory) cs := by
  obtain ⟨x, n, hx, rfl, hn, -⟩ := h.block
  refine hm.store memory fun o ho => ?_
  obtain ⟨i, hi, hbyte⟩ := List.any_eq_true.mp ho
  have hbyte := of_decide_eq_true hbyte
  have hlt := hbelow i hi
  exact ⟨(x, n), hx, by simp only; omega, by simp only; omega⟩

/-- A borrowed buffer stays borrowed in a heap with the same region. -/
theorem Borrowed.of_region {mem mem' : SmallMem} {bs cs : List Block} {buf need : ℕ}
    (h : Borrowed bs cs mem.heapPtr buf need) (hregion : SameRegion mem mem') :
    Borrowed bs cs mem'.heapPtr buf need := by
  rw [hregion.1]
  exact h

/-! ## What is stored -/

/-- A number below 2 ^ 32 as a word and back. -/
theorem toNat_ofNat32 {n : ℕ} (h : n < 2 ^ 32) : (BitVec.ofNat 32 n).toNat = n := by
  rw [BitVec.toNat_ofNat, Nat.mod_eq_of_lt h]

/-- The reply to a read has the size asked for. -/
theorem replyStores_read_below (len : U8) :
    ∀ i ∈ replyStores readMuti len, i < blockSize (len.toNat + 3 + 2) := by
  intro i hi
  have hlen := len.isLt
  have hle : len.toNat + 3 + 2 ≤ blockSize (len.toNat + 3 + 2) := (le_blockSize_iff (by omega)).mpr (by omega)
  have := (mem_replyStores_read len i).mp hi
  omega

/-- The reply to a write has eight bytes; for the seven asked for there are twelve. -/
theorem replyStores_write_below :
    ∀ i ∈ replyStores writeSingle 2, i < blockSize ((2 : U8).toNat + 3 + 2) := by
  intro i hi
  have := (mem_replyStores_write 2 i).mp hi
  have hblock : blockSize ((2 : U8).toNat + 3 + 2) = 12 := by decide
  have hlen : (2 : U8).toNat = 2 := rfl
  omega

/-- The stores of a read reply lie in the buffer. -/
theorem readStores_below (num : U8) : ∀ i ∈ readStores num, i < blockSize (num.toNat * 2) := by
  intro i hi
  obtain ⟨index, hindex, hi⟩ := List.mem_flatMap.mp hi
  rw [List.mem_range] at hindex
  rw [mem_bytesFrom] at hi
  have hnum := num.isLt
  have hle : num.toNat * 2 ≤ blockSize (num.toNat * 2) := (le_blockSize_iff (by omega)).mpr (by omega)
  omega

/-! ## The functions -/

/-- Where there is room the reply is that of an ample heap. -/
theorem replyDataToMaster_room {heap : Heap} {len : U8} (h : heap.room (len.toNat + 3 + 2) = true)
    (m : ModuleInfo) (rw : U8) (data : List U8) (reg : U16) :
    replyDataToMaster heap m rw data reg len = replyDataToMaster Heap.ample m rw data reg len := by
  have hample : Heap.ample.room (len.toNat + 3 + 2) = true := by simp [Heap.ample]
  rw [replyDataToMaster, replyDataToMaster, if_pos h, if_pos hample]

/-- A reply is sent when there is room for it, and its block is given back. -/
theorem replyDataToMasterOn_spec {mem : SmallMem} {bs : List Block} (hm : Represents mem bs)
    (memory : ℕ → HeapMem) (m : ModuleInfo) {rw len : U8} (data : List U8) (reg : U16)
    (hstores : ∀ i ∈ replyStores rw len, i < blockSize (len.toNat + 3 + 2)) {heap : Heap}
    (hroom : heap.room (len.toNat + 3 + 2) =
      (request mem.memSizeAligned (BitVec.ofNat 32 (len.toNat + 3 + 2)) bs).isSome) :
    ∃ mem', replyDataToMasterOn memory m rw data reg len mem =
        some (replyDataToMaster heap m rw data reg len, mem') ∧
      Represents mem' bs ∧ SameRegion mem mem' := by
  have hlen := len.isLt
  have hsize : (BitVec.ofNat 32 (len.toNat + 3 + 2)).toNat = len.toNat + 3 + 2 :=
    toNat_ofNat32 (by omega)
  rcases rtMalloc_borrow hm (BitVec.ofNat 32 (len.toNat + 3 + 2)) with
    ⟨hnone, hreturns⟩ | ⟨cs, buf, mem₁, hsome, hreturns, hmem₁, hregion, hborrowed⟩
  · refine ⟨mem, ?_, hm, rfl, rfl⟩
    rw [hnone, Option.isSome_none] at hroom
    have hidle : replyDataToMaster heap m rw data reg len = [] := by
      rw [replyDataToMaster, if_neg (by rw [hroom]; exact Bool.false_ne_true)]
    rw [replyDataToMasterOn, hreturns, hidle]
    rfl
  · rw [hsize] at hborrowed
    have hborrowed₁ := hborrowed.of_region hregion
    have hstored := hborrowed₁.store hmem₁ hstores memory
    obtain ⟨mem', hfree, hmem', hregion'⟩ := Borrowed.free hstored hborrowed₁
    refine ⟨mem', ?_, hmem', hregion.trans hregion'⟩
    rw [replyDataToMasterOn, hreturns, Option.bind_some]
    dsimp only
    rw [hfree, Option.map_some, replyDataToMaster_room (hroom.trans hsome)]

/-- The room that two requests find, the second while the first block is held. -/
def roomFor (space first : ℕ) (bs cs : List Block) (size : ℕ) : Bool :=
  (request space (BitVec.ofNat 32 size) (if size = first then bs else cs)).isSome

/-- There is no room for a request of no bytes. -/
theorem roomFor_zero (space first : ℕ) (bs cs : List Block) : roomFor space first bs cs 0 = false := by
  rw [roomFor, request, if_pos (.inl rfl)]
  rfl

/-- The heap of the request analysis that two requests to the allocator stand for: the first on `bs`, the
others on `cs`. -/
def heapFor (space first : ℕ) (bs cs : List Block) : Heap := ⟨roomFor space first bs cs, roomFor_zero space first bs cs⟩

/-- Its answer to the first request is the allocator's on `bs`. -/
theorem heapFor_first (space first : ℕ) (bs cs : List Block) :
    (heapFor space first bs cs).room first = (request space (BitVec.ofNat 32 first) bs).isSome := by
  show roomFor space first bs cs first = _
  rw [roomFor, if_pos rfl]

/-- Its answer to another request is the allocator's on `cs`. -/
theorem heapFor_second {space first size : ℕ} (h : size ≠ first) (bs cs : List Block) :
    (heapFor space first bs cs).room size = (request space (BitVec.ofNat 32 size) cs).isSome := by
  show roomFor space first bs cs size = _
  rw [roomFor, if_neg h]

section Requests

variable {mem : SmallMem} {bs : List Block} (hm : Represents mem bs) (memory : ℕ → HeapMem) (id : U32)
  (data : List U8) (m : ModuleInfo)

include hm in
/-- A read on the allocator's heap is the read of the model on some heap, and leaves the blocks as they
were. -/
theorem analyzeReadOn_spec :
    ∃ heap mem', analyzeReadOn memory id data m mem = some (analyzeRead heap id data m, mem') ∧
      Represents mem' bs ∧ SameRegion mem mem' := by
  have hnum := (byteAt data 5).isLt
  have hsize : (BitVec.ofNat 32 ((byteAt data 5).toNat * 2)).toNat = (byteAt data 5).toNat * 2 :=
    toNat_ofNat32 (by omega)
  rcases rtMalloc_borrow hm (BitVec.ofNat 32 ((byteAt data 5).toNat * 2)) with
    ⟨hnone, hreturns⟩ | ⟨cs, buf, mem₁, hsome, hreturns, hmem₁, hregion, hborrowed⟩
  · refine ⟨heapFor mem.memSizeAligned ((byteAt data 5).toNat * 2) bs bs, mem, ?_, hm, rfl, rfl⟩
    have hroom := heapFor_first mem.memSizeAligned ((byteAt data 5).toNat * 2) bs bs
    rw [hnone, Option.isSome_none] at hroom
    simp only [analyzeReadOn, hreturns, Option.bind_some, analyzeRead, hroom, Bool.false_eq_true, if_false]
  · refine ⟨heapFor mem.memSizeAligned ((byteAt data 5).toNat * 2) bs cs, ?_⟩
    have hroom := heapFor_first mem.memSizeAligned ((byteAt data 5).toNat * 2) bs cs
    rw [hsome] at hroom
    -- the second block has an odd size
    have hodd : (byteAt data 5 * 2).toNat + 3 + 2 ≠ (byteAt data 5).toNat * 2 := by
      rw [BitVec.toNat_mul]
      have htwo : (2 : U8).toNat = 2 := rfl
      rw [htwo]
      omega
    rw [hsize] at hborrowed
    have hborrowed₁ := hborrowed.of_region hregion
    have hstored := hborrowed₁.store hmem₁ (readStores_below (byteAt data 5)) memory
    have hsecond : (heapFor mem.memSizeAligned ((byteAt data 5).toNat * 2) bs cs).room
          ((byteAt data 5 * 2).toNat + 3 + 2) =
        (request mem₁.memSizeAligned (BitVec.ofNat 32 ((byteAt data 5 * 2).toNat + 3 + 2)) cs).isSome := by
      rw [hregion.2]
      exact heapFor_second hodd bs cs
    obtain ⟨mem₂, hreply, hmem₂, hregion₂⟩ := replyDataToMasterOn_spec hstored memory
      (readRegisters id (word16 (byteAt data 2) (byteAt data 3)) (byteAt data 5).toNat m).2
      ((readRegisters id (word16 (byteAt data 2) (byteAt data 3)) (byteAt data 5).toNat m).1.flatMap littleEndian)
      0 (replyStores_read_below (byteAt data 5 * 2)) hsecond
    obtain ⟨mem', hfree, hmem', hregion'⟩ := Borrowed.free hmem₂ (hborrowed₁.of_region hregion₂)
    refine ⟨mem', ?_, hmem', (hregion.trans hregion₂).trans hregion'⟩
    simp only [analyzeReadOn, hreturns, Option.bind_some, hreply, hfree, Option.map_some, analyzeRead, hroom,
      if_true]

include hm in
/-- A write on the allocator's heap is the write of the model on some heap, and leaves the blocks as they
were. -/
theorem analyzeWriteOn_spec :
    ∃ heap mem', analyzeWriteOn memory id data m mem = some (analyzeWrite heap id data m, mem') ∧
      Represents mem' bs ∧ SameRegion mem mem' := by
  rcases rtMalloc_borrow hm 2 with
    ⟨hnone, hreturns⟩ | ⟨cs, buf, mem₁, hsome, hreturns, hmem₁, hregion, hborrowed⟩
  · refine ⟨heapFor mem.memSizeAligned 2 bs bs, mem, ?_, hm, rfl, rfl⟩
    have hroom : (heapFor mem.memSizeAligned 2 bs bs).room 2 = false := by
      rw [heapFor_first]
      show (request mem.memSizeAligned 2 bs).isSome = false
      rw [hnone, Option.isSome_none]
    simp only [analyzeWriteOn, hreturns, Option.bind_some, analyzeWrite, hroom, Bool.false_eq_true, if_false]
  · refine ⟨heapFor mem.memSizeAligned 2 bs cs, ?_⟩
    have hroom : (heapFor mem.memSizeAligned 2 bs cs).room 2 = true := by
      rw [heapFor_first]
      exact hsome
    have hblock : blockSize (2 : U32).toNat = 12 := by decide
    have hborrowed₁ := hborrowed.of_region hregion
    have hvalue : ∀ i ∈ bytesFrom 0 2, i < blockSize (2 : U32).toNat := by
      rw [hblock]
      decide
    have hstored := hborrowed₁.store hmem₁ hvalue memory
    have hsecond : (heapFor mem.memSizeAligned 2 bs cs).room ((2 : U8).toNat + 3 + 2) =
        (request mem₁.memSizeAligned (BitVec.ofNat 32 ((2 : U8).toNat + 3 + 2)) cs).isSome := by
      rw [hregion.2]
      exact heapFor_second (by decide) bs cs
    obtain ⟨mem₂, hreply, hmem₂, hregion₂⟩ := replyDataToMasterOn_spec hstored memory
      (getRegister id (word16 (byteAt data 2) (byteAt data 3))
        (setRegister (word16 (byteAt data 2) (byteAt data 3)) (word16 (byteAt data 4) (byteAt data 5)) m)).2
      (littleEndian (getRegister id (word16 (byteAt data 2) (byteAt data 3))
        (setRegister (word16 (byteAt data 2) (byteAt data 3)) (word16 (byteAt data 4) (byteAt data 5)) m)).1)
      (word16 (byteAt data 2) (byteAt data 3)) replyStores_write_below hsecond
    obtain ⟨mem', hfree, hmem', hregion'⟩ := Borrowed.free hmem₂ (hborrowed₁.of_region hregion₂)
    refine ⟨mem', ?_, hmem', (hregion.trans hregion₂).trans hregion'⟩
    simp only [analyzeWriteOn, hreturns, Option.bind_some, hreply, hfree, Option.map_some, analyzeWrite, hroom,
      if_true]

include hm in
/-- On the heap of `mem.c` a request is analysed as it is on a heap with the room that was found, and the
heap has the same blocks afterwards. -/
theorem analyzeMasterDataOn_spec (size : ℕ) :
    ∃ heap mem', analyzeMasterDataOn memory id data size m mem =
        some (analyzeMasterData heap id data size m, mem') ∧
      Represents mem' bs ∧ SameRegion mem mem' := by
  rw [analyzeMasterDataOn]
  split_ifs with hread hwrite hsize
  · obtain ⟨heap, mem', hreturns, hmem', hregion⟩ := analyzeReadOn_spec hm memory id data m
    exact ⟨heap, mem', by rw [hreturns, analyzeMasterData_read hread]; rfl, hmem', hregion⟩
  · obtain ⟨heap, mem', hreturns, hmem', hregion⟩ := analyzeWriteOn_spec hm memory id data m
    exact ⟨heap, mem', by rw [hreturns, analyzeMasterData_write hwrite hsize]; rfl, hmem', hregion⟩
  · exact ⟨Heap.ample, mem, by rw [analyzeMasterData_misfit hwrite hsize], hm, rfl, rfl⟩
  · exact ⟨Heap.ample, mem, by rw [analyzeMasterData_other hread hwrite], hm, rfl, rfl⟩

end Requests

/-- **No request of the hub loses memory or damages the heap.** In every state that the users of the heap
can bring it to, for every request: no assertion fails, the request is analysed as on a heap with the
room that was found, and afterwards the heap has the blocks it had before.
SOURCE: module.c:55-117, 187-220, mem.c:271-411, 552-616 -/
theorem analyzeMasterData_keeps_heap {boot : ℕ → HeapMem} {beginAddr endAddr : ℕ} {m₀ : SmallMem}
    (h : rtSystemHeapInit boot beginAddr endAddr = some m₀) (hend : endAddr < 2 ^ 32)
    (hleast : minSizeAligned ≤ m₀.memSizeAligned) {uses : List HeapUse} {u : HeapUsers}
    (hrun : heapRun uses ⟨m₀, []⟩ = some u) (memory : ℕ → HeapMem) (id : U32) (data : List U8) (size : ℕ)
    (m : ModuleInfo) :
    ∃ heap mem', analyzeMasterDataOn memory id data size m u.mem =
        some (analyzeMasterData heap id data size m, mem') ∧
      heapBlocks mem' = heapBlocks u.mem ∧ Accounts ⟨mem', u.held⟩ (heapBlocks u.mem) := by
  obtain ⟨u', hrun', ⟨bs, hrepresents, hheld⟩, -⟩ := boot_settled h hend hleast uses
  obtain rfl := Option.some.inj (hrun.symm.trans hrun')
  obtain ⟨heap, mem', hreturns, hmem', hregion⟩ := analyzeMasterDataOn_spec hrepresents memory id data m size
  refine ⟨heap, mem', hreturns, by rw [hmem'.heapBlocks, hrepresents.heapBlocks], ?_⟩
  rw [hrepresents.heapBlocks]
  refine ⟨hmem', ?_⟩
  rw [hregion.1]
  exact hheld

/-- A write of the control word on a heap of 256 bytes with a block held. -/
theorem analyzeMasterData_keeps_quarterHeap :
    let f : List U8 := [0x01, 0x06, 0x01, 0x00, 0xE0, 0x00, 0xC1, 0xF6]
    let m : ModuleInfo := getDataFromFlash (Vector.replicate 12 0xFF)
    ∃ u, heapRun [.malloc 10, .malloc 33, .free 0x2000000C] ⟨quarterHeap, []⟩ = some u ∧
      ∃ heap mem', analyzeMasterDataOn (fun _ => ⟨0, false, 0, 0⟩) 0 f 8 m u.mem =
          some (analyzeMasterData heap 0 f 8 m, mem') ∧
        heapBlocks mem' = heapBlocks u.mem ∧ Accounts ⟨mem', u.held⟩ (heapBlocks u.mem) := by
  intro f m
  obtain ⟨u, hrun, -⟩ := boot_settled quarterHeap_init (by decide) (by decide)
    [.malloc 10, .malloc 33, .free 0x2000000C]
  exact ⟨u, hrun, analyzeMasterData_keeps_heap quarterHeap_init (by decide) (by decide) hrun _ _ _ _ _⟩

end InfraredModule.Analysis
