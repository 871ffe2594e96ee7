import InfraredModule.Model.Data
import Mathlib.Algebra.Group.Nat.Defs
import Mathlib.Logic.Function.Basic

/-!
# The heap: `mem.c`

The allocator behind `rt_malloc` and `rt_free`, as it is configured here: `RT_USING_SMALL_MEM`
with `RT_ALIGN_SIZE` 4, without the memory trace. A block is found through the record
`struct heap_mem` at its beginning; `headers` gives the record that stands at an offset from
`heap_ptr`. What `malloc` and `free` do between taking and releasing `heap_sem` is one step.

Sizes and offsets are 32-bit words; their differences wrap (`sub32`). A result of `none` is an
assertion that fails, or a loop that does not end.

SOURCE: rt-thread/src/mem.c
-/

set_option autoImplicit false

namespace InfraredModule.Model

/-- SOURCE: mem.c:91-108 -/
structure HeapMem where
  magic : U16
  used : Bool
  next : ℕ
  prev : ℕ
  deriving DecidableEq, Repr

/-- `HEAP_MAGIC`.
SOURCE: mem.c:95 -/
def heapMagic : U16 := 0x1ea0

/-- `MIN_SIZE_ALIGNED`.
SOURCE: mem.c:116-128 -/
def minSizeAligned : ℕ := 12

/-- `SIZEOF_STRUCT_MEM`.
SOURCE: mem.c:129 -/
def sizeofStructMem : ℕ := 12

/-- SOURCE: mem.c:110-133 -/
structure SmallMem where
  heapPtr : ℕ
  memSizeAligned : ℕ
  headers : ℕ → HeapMem
  lfree : ℕ
  usedMem : ℕ
  maxMem : ℕ

/-- The offset of `heap_end`.
SOURCE: mem.c:237 -/
def SmallMem.heapEnd (m : SmallMem) : ℕ := m.memSizeAligned + sizeofStructMem

/-- The difference of two `rt_size_t`. -/
def sub32 (a b : ℕ) : ℕ := (a + (2 ^ 32 - b)) % 2 ^ 32

/-- `RT_ALIGN`, at `RT_ALIGN_SIZE`.
SOURCE: rtdef.h:300 -/
def rtAlign (n : ℕ) : ℕ := (n + 3) % 2 ^ 32 / 4 * 4

/-- `RT_ALIGN_DOWN`, at `RT_ALIGN_SIZE`.
SOURCE: rtdef.h:309 -/
def rtAlignDown (n : ℕ) : ℕ := n / 4 * 4

/-! ## Records -/

/-- Store to the record at an offset. -/
def setHeader (h : ℕ → HeapMem) (a : ℕ) (f : HeapMem → HeapMem) : ℕ → HeapMem :=
  Function.update h a (f (h a))

/-- Assigns `next` in the header at `a`. -/
def setNext (h : ℕ → HeapMem) (a next : ℕ) : ℕ → HeapMem := setHeader h a fun r => { r with next := next }

/-- Assigns `prev` in the header at `a`. -/
def setPrev (h : ℕ → HeapMem) (a prev : ℕ) : ℕ → HeapMem := setHeader h a fun r => { r with prev := prev }

/-- `mem->used` and, beside it, `mem->magic = HEAP_MAGIC`. -/
def setUsed (h : ℕ → HeapMem) (a : ℕ) (used : Bool) : ℕ → HeapMem :=
  setHeader h a fun r => { r with used := used, magic := heapMagic }

/-! ## Start-up -/

/-- Nothing is set up when the region has no room for the two records. `memory` is what stands in
the region before.
SOURCE: mem.c:204-258 -/
def rtSystemHeapInit (memory : ℕ → HeapMem) (beginAddr endAddr : ℕ) : Option SmallMem :=
  let beginAlign := rtAlign beginAddr
  let endAlign := rtAlignDown endAddr
  if 2 * sizeofStructMem < endAlign ∧ beginAlign ≤ endAlign - 2 * sizeofStructMem then
    let memSizeAligned := endAlign - beginAlign - 2 * sizeofStructMem
    let stub := memSizeAligned + sizeofStructMem
    let first := Function.update memory 0 ⟨heapMagic, false, stub, 0⟩
    some ⟨beginAlign, memSizeAligned, Function.update first stub ⟨heapMagic, true, stub, stub⟩, 0, 0, 0⟩
  else none

/-! ## Allocation -/

/-- The size a request is raised to: a multiple of four, and at least the smallest block.
SOURCE: mem.c:288-300 -/
def blockSize (size : ℕ) : ℕ :=
  if rtAlign size < minSizeAligned then minSizeAligned else rtAlign size

/-- The loop over the blocks; `some (some ptr)` when it finds one.
SOURCE: mem.c:305-311, 404-405 -/
def findBlock (m : SmallMem) (size : ℕ) : ℕ → ℕ → Option (Option ℕ)
  | 0, _ => none
  | rounds + 1, ptr =>
    if ptr < sub32 m.memSizeAligned size then
      if (m.headers ptr).used = false ∧ size ≤ sub32 (m.headers ptr).next (ptr + sizeofStructMem) then
        some (some ptr)
      else findBlock m size rounds (m.headers ptr).next
    else some none

/-- The block at `ptr` comes into use; what it does not need becomes a block of its own where
that is large enough.
SOURCE: mem.c:316-371 -/
def useBlock (m : SmallMem) (size ptr : ℕ) : SmallMem :=
  let next := (m.headers ptr).next
  if size + sizeofStructMem + minSizeAligned ≤ sub32 next (ptr + sizeofStructMem) then
    let ptr2 := ptr + sizeofStructMem + size
    let split := Function.update m.headers ptr2 ⟨heapMagic, false, next, ptr⟩
    let linked := setUsed (setNext split ptr ptr2) ptr true
    let usedMem := m.usedMem + (size + sizeofStructMem)
    { m with
      headers := if next ≠ m.heapEnd then setPrev linked next ptr2 else linked
      usedMem := usedMem
      maxMem := if m.maxMem < usedMem then usedMem else m.maxMem }
  else
    let usedMem := m.usedMem + sub32 next ptr
    { m with
      headers := setUsed m.headers ptr true
      usedMem := usedMem
      maxMem := if m.maxMem < usedMem then usedMem else m.maxMem }

/-- `while (lfree->used && lfree != heap_end) lfree = &heap_ptr[lfree->next]`.
SOURCE: mem.c:383-384 -/
def raiseLfree (m : SmallMem) : ℕ → ℕ → Option ℕ
  | 0, _ => none
  | rounds + 1, lfree =>
    if (m.headers lfree).used = true ∧ lfree ≠ m.heapEnd then
      raiseLfree m rounds (m.headers lfree).next
    else some lfree

/-- The lowest free block is looked for again when it was the one that came into use.
SOURCE: mem.c:380-387 -/
def updateLfree (m : SmallMem) (ptr : ℕ) : Option SmallMem :=
  if ptr = m.lfree then
    (raiseLfree m (m.memSizeAligned + 2) m.lfree).bind fun lfree =>
      if lfree = m.heapEnd ∨ (m.headers lfree).used = false then some { m with lfree := lfree }
      else none
  else some m

/-- The assertions on the block before it is returned.
SOURCE: mem.c:390-392 -/
def blockAsserted (m : SmallMem) (size ptr : ℕ) : Bool :=
  decide (m.heapPtr + ptr + sizeofStructMem + size ≤ m.heapPtr + m.heapEnd ∧
    (m.heapPtr + ptr + sizeofStructMem) % 4 = 0 ∧ (m.heapPtr + ptr) % 4 = 0)

/-- The pointer returned, `none` for `RT_NULL`. The loops are granted as many rounds as the heap has
bytes.
SOURCE: mem.c:271-411 -/
def rtMalloc (m : SmallMem) (size : U32) : Option (Option ℕ × SmallMem) :=
  if size = 0 then some (none, m)
  else if m.memSizeAligned < rtAlign size.toNat then some (none, m)
  else
    let need := blockSize size.toNat
    (findBlock m need (m.memSizeAligned + 2) m.lfree).bind fun
      | none => some (none, m)
      | some ptr =>
        (updateLfree (useBlock m need ptr) ptr).bind fun m =>
          if blockAsserted m need ptr then some (some (m.heapPtr + ptr + sizeofStructMem), m) else none

/-! ## Release -/

/-- SOURCE: mem.c:163-178 -/
def plugForward (m : SmallMem) (mem : ℕ) : SmallMem :=
  let nmem := (m.headers mem).next
  let next := (m.headers nmem).next
  if mem ≠ nmem ∧ (m.headers nmem).used = false ∧ nmem ≠ m.heapEnd then
    { m with
      lfree := if m.lfree = nmem then mem else m.lfree
      headers := setPrev (setNext m.headers mem next) next mem }
  else m

/-- SOURCE: mem.c:180-191 -/
def plugBackward (m : SmallMem) (mem : ℕ) : SmallMem :=
  let pmem := (m.headers mem).prev
  let next := (m.headers mem).next
  if pmem ≠ mem ∧ (m.headers pmem).used = false then
    { m with
      lfree := if m.lfree = mem then pmem else m.lfree
      headers := setPrev (setNext m.headers pmem next) next pmem }
  else m

/-- SOURCE: mem.c:154-192 -/
def plugHoles (m : SmallMem) (mem : ℕ) : Option SmallMem :=
  if mem < m.heapEnd ∧ (m.headers mem).used = false then some (plugBackward (plugForward m mem) mem)
  else none

/-- `rmem` is 0 for `RT_NULL`. For a pointer into the first record the record looked at begins below
the heap, which `plug_holes` asserts against.
SOURCE: mem.c:552-616 -/
def rtFree (m : SmallMem) (rmem : ℕ) : Option SmallMem :=
  if rmem = 0 then some m
  else if rmem % 4 ≠ 0 ∨ rmem < m.heapPtr + sizeofStructMem ∨ m.heapPtr + m.heapEnd ≤ rmem then none
  else
    let mem := rmem - sizeofStructMem - m.heapPtr
    if (m.headers mem).used = true ∧ (m.headers mem).magic = heapMagic then
      plugHoles
        { m with
          headers := setUsed m.headers mem false
          lfree := if mem < m.lfree then mem else m.lfree
          usedMem := sub32 m.usedMem (sub32 (m.headers mem).next mem) } mem
    else none

/-! ## The threads that use the heap -/

/-- The heap, and the pointers handed out and not given back, each with the size asked for. -/
structure HeapUsers where
  mem : SmallMem
  held : List (ℕ × ℕ)

/-- A user asks for memory, gives back what it holds, or stores anything to the blocks it holds. -/
inductive HeapUse where
  | malloc (size : U32)
  | free (rmem : ℕ)
  | store (memory : ℕ → HeapMem)

/-- A byte of the record at this offset belongs to a block that is held. -/
def HeapUsers.owns (u : HeapUsers) (offset : ℕ) : Bool :=
  u.held.any fun p =>
    decide (p.1 < u.mem.heapPtr + offset + sizeofStructMem ∧ u.mem.heapPtr + offset < p.1 + blockSize p.2)

/-- One use of the heap. -/
def heapStep : HeapUse → HeapUsers → Option HeapUsers
  | .malloc size, u =>
    (rtMalloc u.mem size).map fun
      | (none, mem) => ⟨mem, u.held⟩
      | (some rmem, mem) => ⟨mem, (rmem, size.toNat) :: u.held⟩
  | .free rmem, u =>
    if rmem ∈ u.held.map Prod.fst then
      (rtFree u.mem rmem).map fun mem => ⟨mem, u.held.eraseP fun p => p.1 = rmem⟩
    else some u
  | .store memory, u =>
    some ⟨{ u.mem with headers := fun a => if u.owns a then memory a else u.mem.headers a }, u.held⟩

/-- A sequence of uses; none when a call of the allocator goes wrong. -/
def heapRun : List HeapUse → HeapUsers → Option HeapUsers
  | [], u => some u
  | use :: uses, u => (heapStep use u).bind (heapRun uses)

/-- Total, used, and most used so far.
SOURCE: mem.c:619-629 -/
def rtMemoryInfo (m : SmallMem) : ℕ × ℕ × ℕ := (m.memSizeAligned, m.usedMem, m.maxMem)

end InfraredModule.Model
