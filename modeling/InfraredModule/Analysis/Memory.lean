import InfraredModule.Foundation.Arena
import InfraredModule.Model.Memory

/-!
# The heap is a sound division into blocks

`Represents` connects the records of `mem.c` with the blocks of `Foundation.Arena`: the records are
linked both ways, `lfree` is the first free block, `used_mem` is the memory in use. `rt_malloc` and
`rt_free` are `allocate` and `release` of the blocks (`rtMalloc_refines`, `rtFree_refines`), so what
holds of these holds of every run.
-/

set_option autoImplicit false

namespace InfraredModule.Analysis

open InfraredModule.Foundation InfraredModule.Foundation.Arena InfraredModule.Model

/-! ## Records that describe blocks -/

/-- The records from `a` on describe the blocks, `p` being the block before the first. -/
def Lays (h : ℕ → HeapMem) : ℕ → ℕ → List Block → Prop
  | _, _, [] => True
  | p, a, b :: bs => h a = ⟨heapMagic, b.used, a + b.size, p⟩ ∧ Lays h a (a + b.size) bs

/-- Where the last block lies; `p` if there is none. -/
def lastAt : ℕ → ℕ → List Block → ℕ
  | p, _, [] => p
  | _, a, b :: bs => lastAt a (a + b.size) bs

/-- The headers of two rows of blocks, one behind the other. -/
theorem lays_append {h : ℕ → HeapMem} {p a : ℕ} {bs cs : List Block} :
    Lays h p a (bs ++ cs) ↔ Lays h p a bs ∧ Lays h (lastAt p a bs) (a + total bs) cs := by
  induction bs generalizing p a with
  | nil => simp [Lays, lastAt, total]
  | cons b bs ih =>
    simp only [List.cons_append, Lays, lastAt, total, ih, and_assoc, Nat.add_assoc]

/-- The place of the last block. -/
theorem lastAt_append (p a : ℕ) (bs : List Block) (b : Block) :
    lastAt p a (bs ++ [b]) = a + total bs := by
  induction bs generalizing p a with
  | nil => rfl
  | cons c bs ih => rw [List.cons_append, lastAt, ih, total, Nat.add_assoc]

/-- The records of the blocks alone matter. -/
theorem Lays.of_starts {h h' : ℕ → HeapMem} {p a : ℕ} {bs : List Block} (hlays : Lays h p a bs)
    (hagree : ∀ x ∈ starts a bs, h' x = h x) : Lays h' p a bs := by
  induction bs generalizing p a with
  | nil => trivial
  | cons b bs ih =>
    rw [starts, List.forall_mem_cons] at hagree
    exact ⟨hagree.1.trans hlays.1, ih hlays.2 hagree.2⟩

/-- Headers that agree on a row of blocks describe it alike. -/
theorem Lays.congr {h h' : ℕ → HeapMem} {p a : ℕ} {bs : List Block} (hpos : ∀ b ∈ bs, 0 < b.size)
    (hlays : Lays h p a bs) (hagree : ∀ x, a ≤ x → x < a + total bs → h' x = h x) :
    Lays h' p a bs :=
  hlays.of_starts fun x hx => hagree x (le_of_mem_starts hx) (lt_of_mem_starts hpos hx)

section Stores

variable {h : ℕ → HeapMem} {a x v : ℕ} {u : Bool}

/-- A header elsewhere is not touched. -/
theorem setHeader_ne {f : HeapMem → HeapMem} (hx : x ≠ a) : setHeader h a f x = h x :=
  Function.update_of_ne hx _ _

/-- The header that is set. -/
@[simp] theorem setHeader_same {f : HeapMem → HeapMem} : setHeader h a f a = f (h a) :=
  Function.update_self _ _ _

/-- Setting `next` leaves the other headers. -/
theorem setNext_ne (hx : x ≠ a) : setNext h a v x = h x := setHeader_ne hx

/-- Setting `prev` leaves the other headers. -/
theorem setPrev_ne (hx : x ≠ a) : setPrev h a v x = h x := setHeader_ne hx

/-- Setting `used` leaves the other headers. -/
theorem setUsed_ne (hx : x ≠ a) : setUsed h a u x = h x := setHeader_ne hx

/-- The header whose `next` is set. -/
@[simp] theorem setNext_same : setNext h a v a = { h a with next := v } := setHeader_same

/-- The header whose `prev` is set. -/
@[simp] theorem setPrev_same : setPrev h a v a = { h a with prev := v } := setHeader_same

/-- The header whose `used` is set. -/
@[simp] theorem setUsed_same : setUsed h a u a = { h a with used := u, magic := heapMagic } :=
  setHeader_same

end Stores

/-- A changed `prev` of the first block makes it follow another one. -/
theorem Lays.relink {h : ℕ → HeapMem} {p q a : ℕ} {bs : List Block} (hpos : ∀ b ∈ bs, 0 < b.size)
    (hlays : Lays h p a bs) : Lays (setPrev h a q) q a bs := by
  cases bs with
  | nil => trivial
  | cons b bs =>
    obtain ⟨hhead, htail⟩ := hlays
    have hb := hpos b List.mem_cons_self
    refine ⟨by rw [setPrev_same, hhead], ?_⟩
    apply htail.congr fun c hc => hpos c (List.mem_cons_of_mem b hc)
    intro x hlow _
    exact setPrev_ne (by omega)

/-- The records after the block at `x` took over what lies before `next`. -/
def joinedHeaders (h : ℕ → HeapMem) (x next : ℕ) : ℕ → HeapMem := setPrev (setNext h x next) next x

/-- **Two neighbours become one**: the first takes over the link of the second, and the block behind
them, or the record at the end, points back to it. -/
theorem Lays.merge {h : ℕ → HeapMem} {p a m n : ℕ} {u v : Bool} {pre post : List Block}
    (hpos : ∀ b ∈ pre ++ ⟨m, u⟩ :: ⟨n, v⟩ :: post, 0 < b.size)
    (hlays : Lays h p a (pre ++ ⟨m, u⟩ :: ⟨n, v⟩ :: post)) :
    Lays (joinedHeaders h (a + total pre) (a + total pre + m + n)) p a (pre ++ ⟨m + n, u⟩ :: post) := by
  obtain ⟨hpre, hfirst, -, hpost⟩ := lays_append.mp hlays
  simp only [List.forall_mem_append, List.forall_mem_cons] at hpos
  obtain ⟨hposPre, hm, hn, hposPost⟩ := hpos
  simp only at hfirst hpost
  rw [joinedHeaders]
  refine lays_append.mpr ⟨?_, ?_, ?_⟩
  · apply hpre.congr hposPre
    intro x _ hx
    rw [setPrev_ne (by omega), setNext_ne (by omega)]
  · rw [setPrev_ne (by omega), setNext_same, hfirst]
    simp [Nat.add_assoc]
  · have hnext : Lays (setNext h (a + total pre) (a + total pre + m + n)) (a + total pre + m)
        (a + total pre + m + n) post := by
      apply hpost.congr hposPost
      intro x hx _
      exact setNext_ne (by omega)
    have hshift := hnext.relink (q := a + total pre) hposPost
    rwa [Nat.add_assoc (a + total pre)] at hshift ⊢

/-! ## The state of the allocator -/

/-- The records describe the blocks; the last of them is the one at the end, which is in use. -/
structure Linked (m : SmallMem) (bs : List Block) : Prop where
  whole : total bs = m.heapEnd
  lays : Lays m.headers 0 0 bs
  stub : (m.headers m.heapEnd).used = true
  usedMem : m.usedMem = charged bs
  base : 4 ∣ m.heapPtr
  space : m.heapPtr + m.heapEnd < 2 ^ 32
  least : minSizeAligned ≤ m.memSizeAligned

/-- A block has room for its record and for a word. -/
def leastBlock : ℕ := sizeofStructMem + 4

/-- The record represents the blocks: the headers link them, they are sound, and `lfree` is the lowest free
one. -/
structure Represents (m : SmallMem) (bs : List Block) : Prop extends Linked m bs where
  sound : Sound 4 leastBlock bs
  lfree : m.lfree = lowestFree 0 bs

/-- A difference that does not wrap. -/
theorem sub32_of_le {a b : ℕ} (hle : b ≤ a) (ha : a < 2 ^ 32) : sub32 a b = a - b := by
  have hsum : a + (2 ^ 32 - b) = a - b + 2 ^ 32 := by omega
  rw [sub32, hsum, Nat.add_mod_right, Nat.mod_eq_of_lt (by omega)]

/-- A header takes room. -/
theorem sizeofStructMem_pos : 0 < sizeofStructMem := by decide

/-- A block takes room. -/
theorem leastBlock_pos : 0 < leastBlock := by decide

/-- In a sound row every block has room for its header. -/
theorem struct_le_of_sound {bs : List Block} (h : Sound 4 leastBlock bs) :
    ∀ b ∈ bs, sizeofStructMem ≤ b.size := fun b hb => Nat.le_trans (Nat.le_add_right _ _) (h.floor b hb)

/-- Blocks are at least as large as their records, so the loops visit no more of them than they
are granted rounds. -/
theorem length_lt_of_floor {bs : List Block} {n : ℕ} (hfloor : ∀ b ∈ bs, sizeofStructMem ≤ b.size)
    (htotal : total bs = n + sizeofStructMem) : bs.length < n + 2 := by
  have hle : sizeofStructMem * bs.length ≤ total bs := by
    clear htotal
    induction bs with
    | nil => simp [total]
    | cons b bs ih =>
      have hb := hfloor b List.mem_cons_self
      have htail := ih fun c hc => hfloor c (List.mem_cons_of_mem b hc)
      rw [List.length_cons, total, Nat.mul_succ]
      omega
  simp only [sizeofStructMem] at hle htotal
  omega

/-! ## Allocation -/

section Search

variable {m : SmallMem} {need : ℕ}

/-- The loop finds the first block that fits. -/
theorem findBlock_eq (hneed : need ≤ m.memSizeAligned) (hspace : m.heapEnd < 2 ^ 32) {p a : ℕ}
    {bs : List Block} (hlays : Lays m.headers p a bs) (hend : a + total bs = m.heapEnd)
    (hfloor : ∀ b ∈ bs, sizeofStructMem ≤ b.size) {rounds : ℕ} (hrounds : bs.length < rounds) :
    findBlock m need rounds a =
      some (firstFit sizeofStructMem (m.memSizeAligned - need) need a bs) := by
  have hlimit : sub32 m.memSizeAligned need = m.memSizeAligned - need :=
    sub32_of_le hneed (by rw [SmallMem.heapEnd] at hspace; omega)
  induction bs generalizing p a rounds with
  | nil =>
    obtain ⟨rounds, rfl⟩ : ∃ k, rounds = k + 1 := ⟨rounds - 1, by simp at hrounds; omega⟩
    have hbeyond : ¬ a < m.memSizeAligned - need := by
      rw [SmallMem.heapEnd] at hend
      simp only [total] at hend
      omega
    rw [findBlock, hlimit, if_neg hbeyond, firstFit]
  | cons b bs ih =>
    obtain ⟨rounds, rfl⟩ : ∃ k, rounds = k + 1 := ⟨rounds - 1, by simp at hrounds; omega⟩
    obtain ⟨hhead, htail⟩ := hlays
    have hb := hfloor b List.mem_cons_self
    rw [total] at hend
    have hroom : sub32 (a + b.size) (a + sizeofStructMem) = b.size - sizeofStructMem := by
      rw [sub32_of_le (by omega) (by omega)]
      omega
    rw [findBlock, hlimit, hhead, firstFit]
    simp only [hroom]
    split
    case isFalse => rfl
    case isTrue =>
      -- the code compares the room behind the record
      have hiff : (b.used = false ∧ need ≤ b.size - sizeofStructMem) ↔
          (b.used = false ∧ sizeofStructMem + need ≤ b.size) :=
        and_congr_right fun _ => ⟨fun h => by omega, fun h => by omega⟩
      simp only [hiff]
      split
      · rfl
      · apply ih htail (by omega) fun c hc => hfloor c (List.mem_cons_of_mem b hc)
        simpa using hrounds

/-- The walk from a block on ends at the first free one, or at the end of the heap. -/
theorem raiseLfree_eq {p a : ℕ} {bs : List Block}
    (hlays : Lays m.headers p a bs) (hend : a + total bs = m.heapEnd) (hpos : ∀ b ∈ bs, 0 < b.size)
    {rounds : ℕ} (hrounds : bs.length < rounds) :
    raiseLfree m rounds a = some (lowestFree a bs) := by
  induction bs generalizing p a rounds with
  | nil =>
    obtain ⟨rounds, rfl⟩ : ∃ k, rounds = k + 1 := ⟨rounds - 1, by simp at hrounds; omega⟩
    have ha : a = m.heapEnd := hend
    simp [raiseLfree, ha, lowestFree]
  | cons b bs ih =>
    obtain ⟨rounds, rfl⟩ : ∃ k, rounds = k + 1 := ⟨rounds - 1, by simp at hrounds; omega⟩
    obtain ⟨hhead, htail⟩ := hlays
    have hb := hpos b List.mem_cons_self
    rw [total] at hend
    have hne : a ≠ m.heapEnd := by omega
    simp only [raiseLfree, lowestFree, hhead, hne, ne_eq, not_false_iff, and_true]
    split
    · apply ih htail (by omega) fun c hc => hpos c (List.mem_cons_of_mem b hc)
      simpa using hrounds
    · rfl

/-- Where the walk ends there is a free block, or the end of the heap. -/
theorem lowestFree_header {p a : ℕ} {bs : List Block} (hlays : Lays m.headers p a bs)
    (hend : a + total bs = m.heapEnd) :
    lowestFree a bs = m.heapEnd ∨ (m.headers (lowestFree a bs)).used = false := by
  obtain ⟨pre, post, rfl, -, hlowest, rfl | ⟨b, cs, rfl, hfree⟩⟩ := lowestFree_split a bs
  · left
    rw [hlowest, ← hend, List.append_nil]
  · right
    rw [hlowest, (lays_append.mp hlays).2.1]
    exact hfree

end Search

/-- A block comes into use as a whole. -/
theorem Lays.setUsed {h : ℕ → HeapMem} {p a : ℕ} {b : Block} {pre post : List Block} (u : Bool)
    (hpos : ∀ c ∈ pre ++ b :: post, 0 < c.size) (hlays : Lays h p a (pre ++ b :: post)) :
    Lays (Model.setUsed h (a + total pre) u) p a (pre ++ ⟨b.size, u⟩ :: post) := by
  obtain ⟨hpre, hhead, hpost⟩ := lays_append.mp hlays
  simp only [List.forall_mem_append, List.forall_mem_cons] at hpos
  obtain ⟨hposPre, hb, hposPost⟩ := hpos
  refine lays_append.mpr ⟨?_, ?_, ?_⟩
  · apply hpre.congr hposPre
    intro x _ hx
    exact setUsed_ne (by omega)
  · rw [setUsed_same, hhead]
  · apply hpost.congr hposPost
    intro x hx _
    exact setUsed_ne (by omega)

/-- The records after a block was divided, but for the link back from the block behind it. -/
def dividedHeaders (h : ℕ → HeapMem) (x m n : ℕ) : ℕ → HeapMem :=
  Model.setUsed (setNext (Function.update h (x + m) ⟨heapMagic, false, x + n, x⟩) x (x + m)) x true

/-- Dividing a block touches two headers only. -/
theorem dividedHeaders_ne {h : ℕ → HeapMem} {x m n y : ℕ} (hx : y ≠ x) (hm : y ≠ x + m) :
    dividedHeaders h x m n y = h y := by
  rw [dividedHeaders, setUsed_ne hx, setNext_ne hx, Function.update_of_ne hm]

/-- A block comes into use up to `m`; the rest is a free block. -/
theorem Lays.divide {h : ℕ → HeapMem} {p a m : ℕ} {b : Block} {pre post : List Block}
    (hpos : ∀ c ∈ pre ++ b :: post, 0 < c.size) (hm : 0 < m) (hcut : m < b.size)
    (hlays : Lays h p a (pre ++ b :: post)) :
    let x := a + total pre
    let h' := dividedHeaders h x m b.size
    Lays h' p a (pre ++ [⟨m, true⟩, ⟨b.size - m, false⟩]) ∧ Lays h' x (x + b.size) post := by
  intro x h'
  obtain ⟨hpre, hhead, hpost⟩ := lays_append.mp hlays
  simp only [List.forall_mem_append, List.forall_mem_cons] at hpos
  obtain ⟨hposPre, hb, hposPost⟩ := hpos
  refine ⟨lays_append.mpr ⟨?_, ?_, ?_, trivial⟩, ?_⟩
  · apply hpre.congr hposPre
    intro y _ hy
    exact dividedHeaders_ne (by omega) (by omega)
  · have hne : x ≠ x + m := by omega
    show dividedHeaders h x m b.size x = _
    rw [dividedHeaders, setUsed_same, setNext_same, Function.update_of_ne hne, hhead]
  · have hne : x + m ≠ x := by omega
    show dividedHeaders h x m b.size (x + m) = _
    rw [dividedHeaders, setUsed_ne hne, setNext_ne hne, Function.update_self]
    simp only [HeapMem.mk.injEq, true_and]
    omega
  · apply hpost.congr hposPost
    intro y hy _
    exact dividedHeaders_ne (by omega) (by omega)

section UseBlock

/-- Taking a block leaves the start of the heap. -/
@[simp] theorem useBlock_heapPtr (m : SmallMem) (need ptr : ℕ) : (useBlock m need ptr).heapPtr = m.heapPtr := by
  dsimp only [useBlock]
  split <;> rfl

/-- Taking a block leaves the size of the heap. -/
@[simp] theorem useBlock_memSizeAligned (m : SmallMem) (need ptr : ℕ) :
    (useBlock m need ptr).memSizeAligned = m.memSizeAligned := by
  dsimp only [useBlock]
  split <;> rfl

/-- Taking a block leaves `lfree`. -/
@[simp] theorem useBlock_lfree (m : SmallMem) (need ptr : ℕ) : (useBlock m need ptr).lfree = m.lfree := by
  dsimp only [useBlock]
  split <;> rfl

/-- Taking a block leaves the end of the heap. -/
@[simp] theorem useBlock_heapEnd (m : SmallMem) (need ptr : ℕ) :
    (useBlock m need ptr).heapEnd = m.heapEnd := by
  rw [SmallMem.heapEnd, useBlock_memSizeAligned, SmallMem.heapEnd]

/-- The largest use so far is kept up to date. -/
theorem useBlock_maxMem (m : SmallMem) (need ptr : ℕ) :
    (useBlock m need ptr).maxMem = max m.maxMem (useBlock m need ptr).usedMem := by
  dsimp only [useBlock]
  split
  · simp only
    split <;> omega
  · simp only
    split <;> omega

variable {m : SmallMem} {need : ℕ} {b : Block} {pre post : List Block}

/-- The record of the block found. -/
theorem Linked.header (hm : Linked m (pre ++ b :: post)) :
    m.headers (total pre) = ⟨heapMagic, b.used, total pre + b.size, lastAt 0 0 pre⟩ := by
  have hhead := (lays_append.mp hm.lays).2.1
  rwa [Nat.zero_add] at hhead

/-- The blocks before one, the block itself and the blocks behind it fill the heap. -/
theorem Linked.sum (hm : Linked m (pre ++ b :: post)) : total pre + b.size + total post = m.heapEnd := by
  rw [← hm.whole, total_append, total, Nat.add_assoc]

/-- What the record says of the room in the block. -/
theorem Linked.room (hm : Linked m (pre ++ b :: post)) (hb : sizeofStructMem ≤ b.size) :
    sub32 (m.headers (total pre)).next (total pre + sizeofStructMem) = b.size - sizeofStructMem := by
  have hsum := hm.sum
  have hspace := hm.space
  rw [hm.header]
  simp only
  rw [sub32_of_le (by omega) (by omega)]
  omega

/-- Taking a block that is large enough to be divided. -/
theorem useBlock_headers_divided (hm : Linked m (pre ++ b :: post))
    (hcut : sizeofStructMem + need + (sizeofStructMem + minSizeAligned) ≤ b.size) :
    (useBlock m need (total pre)).headers =
      (let h := dividedHeaders m.headers (total pre) (sizeofStructMem + need) b.size
      if total pre + b.size ≠ m.heapEnd then
        setPrev h (total pre + b.size) (total pre + (sizeofStructMem + need))
      else h) ∧
    (useBlock m need (total pre)).usedMem = m.usedMem + (sizeofStructMem + need) := by
  have htest : need + sizeofStructMem + minSizeAligned ≤
      sub32 (m.headers (total pre)).next (total pre + sizeofStructMem) := by
    rw [hm.room (by omega)]
    omega
  have hptr : total pre + sizeofStructMem + need = total pre + (sizeofStructMem + need) :=
    Nat.add_assoc _ _ _
  have hnext : (m.headers (total pre)).next = total pre + b.size := by rw [hm.header]
  rw [hnext] at htest
  simp only [useBlock, hnext, if_pos htest, hptr, dividedHeaders, true_and]
  omega

/-- Taking a block that is given whole. -/
theorem useBlock_headers_whole (hm : Linked m (pre ++ b :: post)) (hb : sizeofStructMem ≤ b.size)
    (hcut : ¬ sizeofStructMem + need + (sizeofStructMem + minSizeAligned) ≤ b.size) :
    (useBlock m need (total pre)).headers = setUsed m.headers (total pre) true ∧
      (useBlock m need (total pre)).usedMem = m.usedMem + b.size := by
  have htest : ¬ need + sizeofStructMem + minSizeAligned ≤
      sub32 (m.headers (total pre)).next (total pre + sizeofStructMem) := by
    rw [hm.room hb]
    omega
  have hnext : (m.headers (total pre)).next = total pre + b.size := by rw [hm.header]
  have hsum := hm.sum
  have hspace := hm.space
  have hsize : sub32 (total pre + b.size) (total pre) = b.size := by
    rw [sub32_of_le (by omega) (by omega)]
    omega
  rw [hnext] at htest
  simp only [useBlock, hnext, if_neg htest, hsize, and_self]

/-- The block found comes into use: the blocks become those of the request. -/
theorem useBlock_linked (hm : Linked m (pre ++ b :: post))
    (hfloor : ∀ c ∈ pre ++ b :: post, sizeofStructMem ≤ c.size) (hfree : b.used = false)
    (hfit : sizeofStructMem + need ≤ b.size) :
    Linked (useBlock m need (total pre))
      (pre ++ carve sizeofStructMem minSizeAligned need b ++ post) := by
  have hstruct := sizeofStructMem_pos
  have hpos : ∀ c ∈ pre ++ b :: post, 0 < c.size := fun c hc =>
    Nat.lt_of_lt_of_le hstruct (hfloor c hc)
  have hposPost : ∀ c ∈ post, 0 < c.size := fun c hc =>
    hpos c (List.mem_append_right pre (List.mem_cons_of_mem b hc))
  have hsum := hm.sum
  have hwhole : total (pre ++ carve sizeofStructMem minSizeAligned need b ++ post) = m.heapEnd := by
    rw [total_append, total_append, total_carve hfit, hsum]
  have hcharged : charged (pre ++ carve sizeofStructMem minSizeAligned need b ++ post) =
      m.usedMem + carved sizeofStructMem minSizeAligned need b := by
    rw [hm.usedMem]
    simp only [charged_append, charged_carve, charged, hfree, Bool.false_eq_true, if_false]
    omega
  suffices hrest : Lays (useBlock m need (total pre)).headers 0 0
        (pre ++ carve sizeofStructMem minSizeAligned need b ++ post) ∧
      ((useBlock m need (total pre)).headers m.heapEnd).used = true ∧
      (useBlock m need (total pre)).usedMem = m.usedMem + carved sizeofStructMem minSizeAligned need b from
    { whole := by rw [hwhole, useBlock_heapEnd]
      lays := hrest.1
      stub := by rw [useBlock_heapEnd]; exact hrest.2.1
      usedMem := by rw [hcharged]; exact hrest.2.2
      base := by rw [useBlock_heapPtr]; exact hm.base
      space := by rw [useBlock_heapPtr, useBlock_heapEnd]; exact hm.space
      least := by rw [useBlock_memSizeAligned]; exact hm.least }
  by_cases hcut : sizeofStructMem + need + (sizeofStructMem + minSizeAligned) ≤ b.size
  · -- the rest becomes a block of its own
    obtain ⟨hheaders, hused⟩ := useBlock_headers_divided hm hcut
    have hdivided := hm.lays.divide hpos (m := sizeofStructMem + need) (by omega) (by omega)
    simp only [Nat.zero_add] at hdivided
    obtain ⟨hfront, hback⟩ := hdivided
    rw [hheaders, hused, carved, if_pos hcut, carve, if_pos hcut]
    have hlast : lastAt 0 0 (pre ++ [⟨sizeofStructMem + need, true⟩, ⟨b.size - (sizeofStructMem + need), false⟩])
        = total pre + (sizeofStructMem + need) := by
      rw [List.append_cons, lastAt_append, total_append]
      simp [total]
    have hsizes : total (pre ++ [⟨sizeofStructMem + need, true⟩, ⟨b.size - (sizeofStructMem + need), false⟩])
        = total pre + b.size := by
      rw [total_append]
      simp only [total]
      omega
    refine ⟨?_, ?_, rfl⟩
    · refine lays_append.mpr ⟨?_, ?_⟩
      · apply hfront.congr
        · simp only [List.forall_mem_append, List.forall_mem_cons] at hpos ⊢
          exact ⟨hpos.1, by omega, by omega, by simp⟩
        · intro y _ hy
          rw [hsizes] at hy
          split
          · exact setPrev_ne (by omega)
          · rfl
      · rw [hlast, hsizes, Nat.zero_add]
        simp only
        split
        case isTrue => exact hback.relink hposPost
        case isFalse hend =>
          -- the block was the last one: the record at the end keeps its link back
          have hnone : post = [] := by
            cases post with
            | nil => rfl
            | cons c post =>
              have hc := hposPost c List.mem_cons_self
              rw [total] at hsum
              omega
          rw [hnone]
          trivial
    · simp only
      split
      case isTrue hend =>
        rw [setPrev_ne (Ne.symm hend), dividedHeaders_ne (by omega) (by omega)]
        exact hm.stub
      case isFalse =>
        rw [dividedHeaders_ne (by omega) (by omega)]
        exact hm.stub
  · obtain ⟨hheaders, hused⟩ := useBlock_headers_whole hm (by omega) hcut
    rw [hheaders, hused, carved, if_neg hcut, carve, if_neg hcut]
    refine ⟨?_, ?_, rfl⟩
    · have hlays := hm.lays.setUsed true hpos
      rw [Nat.zero_add] at hlays
      simpa using hlays
    · rw [setUsed_ne (by omega)]
      exact hm.stub

end UseBlock

/-- The lowest free block is found again. -/
theorem updateLfree_eq {m : SmallMem} {b : Block} {pre mid post : List Block}
    (hm : Linked m (pre ++ mid ++ post))
    (hfloor : ∀ c ∈ pre ++ mid ++ post, sizeofStructMem ≤ c.size)
    (hlfree : m.lfree = lowestFree 0 (pre ++ b :: post)) (hfree : b.used = false) :
    updateLfree m (total pre) = some { m with lfree := lowestFree 0 (pre ++ mid ++ post) } := by
  have hpos : ∀ c ∈ pre ++ mid ++ post, 0 < c.size := fun c hc =>
    Nat.lt_of_lt_of_le sizeofStructMem_pos (hfloor c hc)
  have hposPre : ∀ c ∈ pre, 0 < c.size := fun c hc =>
    hpos c (List.mem_append_left _ (List.mem_append_left _ hc))
  rw [updateLfree]
  by_cases hused : ∀ c ∈ pre, c.used = true
  · -- everything below is in use: the block was the lowest free one
    have hhere : total pre = m.lfree := by
      rw [hlfree, lowestFree_append_used hused, Nat.zero_add, lowestFree, if_neg (by simp [hfree])]
    have hlowest : lowestFree 0 (pre ++ mid ++ post) = lowestFree (total pre) (mid ++ post) := by
      rw [List.append_assoc, lowestFree_append_used hused, Nat.zero_add]
    have hlays : Lays m.headers (lastAt 0 0 pre) (total pre) (mid ++ post) := by
      have hlays := hm.lays
      rw [List.append_assoc, lays_append, Nat.zero_add] at hlays
      exact hlays.2
    have hend : total pre + total (mid ++ post) = m.heapEnd := by
      rw [← hm.whole, List.append_assoc, total_append pre]
    have hrounds : (mid ++ post).length < m.memSizeAligned + 2 := by
      have := length_lt_of_floor hfloor hm.whole
      rw [List.append_assoc, List.length_append] at this
      omega
    have hraise : raiseLfree m (m.memSizeAligned + 2) m.lfree =
        some (lowestFree (total pre) (mid ++ post)) := by
      rw [← hhere]
      apply raiseLfree_eq hlays hend _ hrounds
      intro c hc
      apply hpos
      rw [List.append_assoc]
      exact List.mem_append_right pre hc
    have hasserted : lowestFree (total pre) (mid ++ post) = m.heapEnd ∨
        (m.headers (lowestFree (total pre) (mid ++ post))).used = false :=
      lowestFree_header hlays hend
    rw [if_pos hhere, hraise, Option.bind_some, if_pos hasserted, hlowest]
  · have hlt := lowestFree_lt hposPre hused 0
    have helse : total pre ≠ m.lfree := by
      rw [hlfree, lowestFree_append_free hused]
      omega
    rw [if_neg helse, List.append_assoc, lowestFree_append_free hused, ← lowestFree_append_free hused 0 (b :: post),
      ← hlfree]

/-! ### Sizes -/

/-- `rt_malloc` rounds to four bytes. -/
theorem four_dvd_rtAlign (n : ℕ) : 4 ∣ rtAlign n := Nat.dvd_mul_left 4 _

/-- Rounding up does not lose bytes, as long as it does not wrap. -/
theorem le_rtAlign {n : ℕ} (h : n + 3 < 2 ^ 32) : n ≤ rtAlign n := by
  rw [rtAlign, Nat.mod_eq_of_lt h]
  omega

/-- The room of a block is a multiple of four. -/
theorem four_dvd_blockSize (n : ℕ) : 4 ∣ blockSize n := by
  rw [blockSize]
  split
  · decide
  · exact four_dvd_rtAlign n

/-- The room of a block is at least the smallest size. -/
theorem minSizeAligned_le_blockSize (n : ℕ) : minSizeAligned ≤ blockSize n := by
  rw [blockSize]
  split <;> omega

/-- The room of a block is at least the rounded size. -/
theorem rtAlign_le_blockSize (n : ℕ) : rtAlign n ≤ blockSize n := by
  rw [blockSize]
  split <;> omega

/-- A block is as large as the size asked for, unless that is so near to `2 ^ 32` that `RT_ALIGN` wraps: then
it is the smallest block.
SOURCE: mem.c:288-300 -/
theorem le_blockSize_iff {n : ℕ} (h : n < 2 ^ 32) : n ≤ blockSize n ↔ n + 3 < 2 ^ 32 := by
  constructor
  · intro hle
    by_contra hwrap
    have hzero : rtAlign n < minSizeAligned := by
      simp only [rtAlign, minSizeAligned]
      omega
    rw [blockSize, if_pos hzero, minSizeAligned] at hle
    omega
  · intro hfits
    exact (le_rtAlign hfits).trans (rtAlign_le_blockSize n)

/-- The room of a block is at most what both the smallest and the rounded size are at most. -/
theorem blockSize_le {n limit : ℕ} (hmin : minSizeAligned ≤ limit) (h : rtAlign n ≤ limit) :
    blockSize n ≤ limit := by
  rw [blockSize]
  split <;> assumption

/-- What `rt_malloc` does to the blocks of a heap with `space` bytes. -/
def request (space : ℕ) (size : U32) (bs : List Block) : Option (ℕ × List Block) :=
  if size = 0 ∨ space < rtAlign size.toNat then none
  else
    allocate sizeofStructMem minSizeAligned (space - blockSize size.toNat) (blockSize size.toNat) bs

/-- Two states of one heap. -/
def SameRegion (m m' : SmallMem) : Prop :=
  m'.heapPtr = m.heapPtr ∧ m'.memSizeAligned = m.memSizeAligned

section Malloc

variable {m : SmallMem} {bs : List Block}

/-- A request keeps the blocks sound. -/
theorem sound_request {space : ℕ} {size : U32} (hsound : Sound 4 leastBlock bs) {x : ℕ}
    {cs : List Block} (h : request space size bs = some (x, cs)) : Sound 4 leastBlock cs := by
  rw [request] at h
  split at h
  · cases h
  · have hsize : leastBlock ≤ sizeofStructMem + blockSize size.toNat :=
      Nat.add_le_add_left (Nat.le_trans (by decide) (minSizeAligned_le_blockSize _)) _
    exact hsound.allocate leastBlock_pos (by decide) (four_dvd_blockSize _) (by decide) hsize h

/-- The search succeeds: the block comes into use and is returned. -/
theorem rtMalloc_found (hm : Represents m bs) {need x : ℕ} {cs : List Block}
    (h : allocate sizeofStructMem minSizeAligned (m.memSizeAligned - need) need bs = some (x, cs))
    (hcs : Sound 4 leastBlock cs) :
    ∃ m', (updateLfree (useBlock m need x) x).bind (fun m =>
        if blockAsserted m need x then some (some (m.heapPtr + x + sizeofStructMem), m) else none) =
          some (some (m.heapPtr + x + sizeofStructMem), m') ∧
      Represents m' cs ∧ SameRegion m m' ∧ m'.maxMem = max m.maxMem m'.usedMem := by
  obtain ⟨pre, b, post, rfl, rfl, -, hfree, hfit, rfl⟩ :=
    allocate_spec hm.sound leastBlock_pos h
  have hlinked := useBlock_linked hm.toLinked (struct_le_of_sound hm.sound) hfree hfit
  have hlfree : (useBlock m need (total pre)).lfree = lowestFree 0 (pre ++ b :: post) := by
    rw [useBlock_lfree]
    exact hm.lfree
  have hsum := hm.sum
  have hdvd : 4 ∣ total pre :=
    dvd_total fun c hc => hm.sound.grain c (List.mem_append_left _ hc)
  have hheapPtr := useBlock_heapPtr m need (total pre)
  have hheapEnd := useBlock_heapEnd m need (total pre)
  obtain ⟨m', hm'⟩ : ∃ m', m' = { useBlock m need (total pre) with
      lfree := lowestFree 0 (pre ++ carve sizeofStructMem minSizeAligned need b ++ post) } := ⟨_, rfl⟩
  have hptr' : m'.heapPtr = m.heapPtr := by rw [hm', ← hheapPtr]
  have hend' : m'.heapEnd = m.heapEnd := by rw [hm', ← hheapEnd]; rfl
  have hasserted : blockAsserted m' need (total pre) = true := by
    have hbase := hm.base
    rw [blockAsserted, decide_eq_true_iff, hend', hptr']
    refine ⟨by omega, ?_, by omega⟩
    simp only [sizeofStructMem]
    omega
  rw [updateLfree_eq hlinked (struct_le_of_sound hcs) hlfree hfree, Option.bind_some, ← hm', if_pos hasserted, hptr']
  refine ⟨m', rfl, ?_, ⟨hptr', ?_⟩, ?_⟩
  rotate_left
  · rw [hm']
    exact useBlock_memSizeAligned m need _
  · rw [hm']
    exact useBlock_maxMem m need _
  rw [hm']
  exact
    { whole := hlinked.whole
      lays := hlinked.lays
      stub := hlinked.stub
      usedMem := hlinked.usedMem
      base := hlinked.base
      space := hlinked.space
      least := hlinked.least
      sound := hcs
      lfree := rfl }

/-- The blocks below `lfree` are in use, so the search may as well begin with the first block. -/
theorem findBlock_lfree (hm : Represents m bs) {need : ℕ} (hneed : need ≤ m.memSizeAligned)
    (hspace : m.heapEnd < 2 ^ 32) :
    findBlock m need (m.memSizeAligned + 2) m.lfree =
      some (firstFit sizeofStructMem (m.memSizeAligned - need) need 0 bs) := by
  obtain ⟨pre, post, rfl, hused, hlowest, -⟩ := lowestFree_split 0 bs
  have hlays := (lays_append.mp hm.lays).2
  have hend : 0 + total pre + total post = m.heapEnd := by
    rw [← hm.whole, total_append, Nat.zero_add]
  have hrounds := length_lt_of_floor (struct_le_of_sound hm.sound) hm.whole
  rw [List.length_append] at hrounds
  rw [firstFit_append_used hused, hm.lfree, hlowest]
  exact findBlock_eq hneed hspace hlays hend
    (fun c hc => struct_le_of_sound hm.sound c (List.mem_append_right _ hc)) (by omega)

/-- **`rt_malloc` is a request for a block.** It returns, whatever the size. -/
theorem rtMalloc_refines (hm : Represents m bs) (size : U32) :
    (request m.memSizeAligned size bs = none ∧ rtMalloc m size = some (none, m)) ∨
    ∃ x cs m', request m.memSizeAligned size bs = some (x, cs) ∧
      rtMalloc m size = some (some (m.heapPtr + x + sizeofStructMem), m') ∧
      Represents m' cs ∧ SameRegion m m' ∧ m'.maxMem = max m.maxMem m'.usedMem := by
  by_cases hrefused : size = 0 ∨ m.memSizeAligned < rtAlign size.toNat
  · left
    refine ⟨by rw [request, if_pos hrefused], ?_⟩
    rw [rtMalloc]
    rcases hrefused with hzero | hlarge
    · rw [if_pos hzero]
    · rw [if_pos hlarge, ite_self]
  · have hzero : size ≠ 0 := fun h => hrefused (.inl h)
    have hfits : ¬ m.memSizeAligned < rtAlign size.toNat := fun h => hrefused (.inr h)
    -- the smallest block fits in every heap, so the raised size does too
    have hneed : blockSize size.toNat ≤ m.memSizeAligned := blockSize_le hm.least (Nat.not_lt.mp hfits)
    have hspace : m.heapEnd < 2 ^ 32 := Nat.lt_of_le_of_lt (Nat.le_add_left _ _) hm.space
    have hfind := findBlock_lfree hm hneed hspace
    have hrequest : request m.memSizeAligned size bs =
        allocate sizeofStructMem minSizeAligned (m.memSizeAligned - blockSize size.toNat)
          (blockSize size.toNat) bs := by
      rw [request, if_neg hrefused]
    rw [hrequest, rtMalloc, if_neg hzero, if_neg hfits]
    dsimp only
    rw [hfind, Option.bind_some]
    cases hfit : firstFit sizeofStructMem (m.memSizeAligned - blockSize size.toNat)
        (blockSize size.toNat) 0 bs with
    | none =>
      left
      exact ⟨by rw [allocate, hfit, Option.map_none], rfl⟩
    | some x =>
      right
      obtain ⟨cs, hcs⟩ : ∃ cs, allocate sizeofStructMem minSizeAligned
          (m.memSizeAligned - blockSize size.toNat) (blockSize size.toNat) bs = some (x, cs) := by
        rw [allocate, hfit, Option.map_some]
        exact ⟨_, rfl⟩
      obtain ⟨m', hreturns, hrest⟩ := rtMalloc_found hm hcs (sound_request hm.sound (hrequest.trans hcs))
      exact ⟨x, cs, m', hcs, hreturns, hrest⟩

end Malloc

/-! ## Release -/

section Free

variable {m : SmallMem} {pre post : List Block} {j n : ℕ}

/-- Two free neighbours become one block. -/
theorem Linked.merge (hm : Linked m (pre ++ ⟨j, false⟩ :: ⟨n, false⟩ :: post))
    (hpos : ∀ c ∈ pre ++ ⟨j, false⟩ :: ⟨n, false⟩ :: post, 0 < c.size) :
    Linked { m with headers := joinedHeaders m.headers (total pre) (total pre + j + n) }
      (pre ++ ⟨j + n, false⟩ :: post) := by
  have hlays := hm.lays.merge hpos
  have hwhole := hm.whole
  have hused := hm.usedMem
  rw [Nat.zero_add] at hlays
  simp only [total_append, total] at hwhole
  refine
    { whole := ?_
      lays := hlays
      stub := ?_
      usedMem := ?_
      base := hm.base
      space := hm.space
      least := hm.least }
  · simp only [total_append, total]
    show _ = m.heapEnd
    omega
  · -- at most the link back of the record at the end has changed
    have hj := hpos ⟨j, false⟩ (List.mem_append_right _ List.mem_cons_self)
    show (joinedHeaders m.headers (total pre) (total pre + j + n) m.heapEnd).used = true
    have hnext : (setNext m.headers (total pre) (total pre + j + n) m.heapEnd).used = true := by
      rw [setNext_ne (by simp only at hj; omega)]
      exact hm.stub
    by_cases hend : m.heapEnd = total pre + j + n
    · rw [joinedHeaders, ← hend, setPrev_same]
      rw [← hend] at hnext
      exact hnext
    · rw [joinedHeaders, setPrev_ne hend]
      exact hnext
  · show m.usedMem = _
    rw [hused]
    simp only [charged_append, charged, Bool.false_eq_true, if_false, Nat.zero_add]

/-- The block behind is free: it is joined to the one given back. -/
theorem plugForward_free (hm : Linked m (pre ++ ⟨j, false⟩ :: ⟨n, false⟩ :: post))
    (hpos : ∀ c ∈ pre ++ ⟨j, false⟩ :: ⟨n, false⟩ :: post, 0 < c.size) (hlfree : m.lfree ≤ total pre) :
    plugForward m (total pre) =
      { m with headers := joinedHeaders m.headers (total pre) (total pre + j + n) } := by
  have hj := hpos ⟨j, false⟩ (List.mem_append_right _ List.mem_cons_self)
  have hn := hpos ⟨n, false⟩ (List.mem_append_right _ (List.mem_cons_of_mem _ List.mem_cons_self))
  have hsum := hm.sum
  have hhead := hm.header
  have hsecond : m.headers (total pre + j) = ⟨heapMagic, false, total pre + j + n, total pre⟩ := by
    have := (lays_append.mp hm.lays).2.2.1
    rwa [Nat.zero_add] at this
  simp only [total] at hj hn hsum hhead
  have hne : total pre ≠ total pre + j := by omega
  have hend : total pre + j ≠ m.heapEnd := by omega
  have hlow : m.lfree ≠ total pre + j := by omega
  simp only [plugForward, hhead, hsecond, ne_eq, hne, hend, not_false_iff, and_self, if_true, hlow, if_false,
    joinedHeaders]

/-- `plug_holes` leaves a block before a used one. -/
theorem plugForward_used (hm : Linked m (pre ++ ⟨j, false⟩ :: post))
    (hpost : post = [] ∨ ∃ b cs, post = b :: cs ∧ b.used = true) :
    plugForward m (total pre) = m := by
  have hhead := hm.header
  have hnone : ¬ (total pre ≠ total pre + j ∧ (m.headers (total pre + j)).used = false ∧
      total pre + j ≠ m.heapEnd) := by
    rintro ⟨-, hfree, hend⟩
    rcases hpost with rfl | ⟨b, cs, rfl, hused⟩
    · have hsum := hm.sum
      simp only [total] at hsum
      omega
    · have hsecond := (lays_append.mp hm.lays).2.2.1
      rw [Nat.zero_add] at hsecond
      rw [hsecond, hused] at hfree
      cases hfree
  simp only [plugForward, hhead, if_neg hnone]

/-- `plug_holes` joins a free block to the free one before it. -/
theorem plugBackward_free (hm : Linked m (pre ++ ⟨j, false⟩ :: ⟨n, false⟩ :: post))
    (hpos : ∀ c ∈ pre ++ ⟨j, false⟩ :: ⟨n, false⟩ :: post, 0 < c.size) (hlfree : m.lfree ≤ total pre) :
    plugBackward m (total pre + j) =
      { m with headers := joinedHeaders m.headers (total pre) (total pre + j + n) } := by
  have hj := hpos ⟨j, false⟩ (List.mem_append_right _ List.mem_cons_self)
  have hhead := hm.header
  have hsecond : m.headers (total pre + j) = ⟨heapMagic, false, total pre + j + n, total pre⟩ := by
    have := (lays_append.mp hm.lays).2.2.1
    rwa [Nat.zero_add] at this
  simp only at hj hhead
  have hne : total pre ≠ total pre + j := by omega
  have hlow : m.lfree ≠ total pre + j := by omega
  simp only [plugBackward, hhead, hsecond, ne_eq, hne, not_false_iff, and_self, if_true, hlow, if_false,
    joinedHeaders]

/-- `plug_holes` leaves a block behind a used one. -/
theorem plugBackward_used {b : Block} (hm : Linked m (pre ++ b :: post))
    (hpre : pre = [] ∨ ∃ cs c, pre = cs ++ [c] ∧ c.used = true) :
    plugBackward m (total pre) = m := by
  have hhead := hm.header
  have hnone : ¬ (lastAt 0 0 pre ≠ total pre ∧ (m.headers (lastAt 0 0 pre)).used = false) := by
    rintro ⟨hne, hfree⟩
    rcases hpre with rfl | ⟨cs, c, rfl, hused⟩
    · exact hne rfl
    · have hlast := lastAt_append 0 0 cs c
      have hlays := hm.lays
      rw [List.append_assoc] at hlays
      have hc := (lays_append.mp hlays).2.1
      rw [hlast, hc, hused] at hfree
      cases hfree
  simp only [plugBackward, hhead, if_neg hnone]

/-- What `plug_holes` changes: the links, and nothing else. -/
def OnlyHeaders (m m' : SmallMem) : Prop :=
  ∃ h, m' = { m with headers := h }

/-- Only the headers differ, twice. -/
theorem OnlyHeaders.trans {a b c : SmallMem} (hab : OnlyHeaders a b) (hbc : OnlyHeaders b c) :
    OnlyHeaders a c := by
  obtain ⟨h, rfl⟩ := hab
  obtain ⟨h', rfl⟩ := hbc
  exact ⟨h', rfl⟩

/-- The first half of `plug_holes`: behind the block there is no free one any more. -/
theorem plugForward_spec (hm : Linked m (pre ++ ⟨n, false⟩ :: post))
    (hpos : ∀ c ∈ pre ++ ⟨n, false⟩ :: post, 0 < c.size) (hpost : Plugged post)
    (hlfree : m.lfree ≤ total pre) :
    ∃ k cs, Linked (plugForward m (total pre)) (pre ++ ⟨k, false⟩ :: cs) ∧
      (∀ c ∈ pre ++ ⟨k, false⟩ :: cs, 0 < c.size) ∧ Plugged (⟨k, false⟩ :: cs) ∧
      coalesce (pre ++ ⟨k, false⟩ :: cs) = coalesce (pre ++ ⟨n, false⟩ :: post) ∧
      OnlyHeaders m (plugForward m (total pre)) := by
  by_cases hnext : ∃ k cs, post = ⟨k, false⟩ :: cs
  · obtain ⟨k, cs, rfl⟩ := hnext
    have hjoin := plugForward_free hm hpos hlfree
    refine ⟨n + k, cs, ?_, ?_, ?_, (coalesce_merge pre n k cs).symm, ?_⟩
    · rw [hjoin]
      exact hm.merge hpos
    · simp only [List.forall_mem_append, List.forall_mem_cons] at hpos ⊢
      exact ⟨hpos.1, by omega, hpos.2.2.2⟩
    · cases cs with
      | nil => exact List.isChain_singleton _
      | cons c cs => exact List.isChain_cons_cons.mpr (List.isChain_cons_cons.mp hpost)
    · exact ⟨_, hjoin⟩
  · have hused : post = [] ∨ ∃ b cs, post = b :: cs ∧ b.used = true := by
      cases post with
      | nil => exact .inl rfl
      | cons b cs =>
        right
        refine ⟨b, cs, rfl, ?_⟩
        by_contra hb
        exact hnext ⟨b.size, cs, by rw [← eq_false_of_ne_true hb]⟩
    rw [plugForward_used hm hused]
    refine ⟨n, post, hm, hpos, ?_, rfl, m.headers, rfl⟩
    rcases hused with rfl | ⟨b, cs, rfl, hb⟩
    · exact List.isChain_singleton _
    · exact List.isChain_cons_cons.mpr ⟨.inr hb, hpost⟩

/-- The second half: before the block there is no free one either, so the blocks are plugged. -/
theorem plugBackward_spec (hm : Linked m (pre ++ ⟨n, false⟩ :: post))
    (hpos : ∀ c ∈ pre ++ ⟨n, false⟩ :: post, 0 < c.size) (hpre : Plugged pre)
    (hpost : Plugged (⟨n, false⟩ :: post)) (hlfree : m.lfree = lowestFree 0 (pre ++ ⟨n, false⟩ :: post)) :
    Linked (plugBackward m (total pre)) (coalesce (pre ++ ⟨n, false⟩ :: post)) ∧
      OnlyHeaders m (plugBackward m (total pre)) := by
  by_cases hprev : ∃ cs k, pre = cs ++ [⟨k, false⟩]
  · obtain ⟨cs, k, rfl⟩ := hprev
    have happend : cs ++ [⟨k, false⟩] ++ ⟨n, false⟩ :: post = cs ++ ⟨k, false⟩ :: ⟨n, false⟩ :: post := by
      rw [List.append_assoc, List.singleton_append]
    rw [happend] at hm hpos hlfree ⊢
    -- `lfree` is not the block that disappears
    have hlow : m.lfree ≤ total cs := by
      rw [hlfree]
      simpa using lowestFree_le rfl 0 cs (⟨n, false⟩ :: post)
    have hptr : total (cs ++ [⟨k, false⟩]) = total cs + k := by simp [total_append, total]
    have hjoin := plugBackward_free hm hpos hlow
    have hplugged : Plugged (cs ++ ⟨k + n, false⟩ :: post) := by
      refine List.isChain_split.mpr ⟨?_, ?_⟩
      · obtain ⟨hchain, -, hseam⟩ := List.isChain_append.mp hpre
        refine List.isChain_append.mpr ⟨hchain, List.isChain_singleton _, ?_⟩
        simpa using hseam
      · cases post with
        | nil => exact List.isChain_singleton _
        | cons c post => exact List.isChain_cons_cons.mpr (List.isChain_cons_cons.mp hpost)
    rw [hptr, hjoin, coalesce_merge, coalesce_of_plugged hplugged]
    exact ⟨hm.merge hpos, _, rfl⟩
  · have hused : pre = [] ∨ ∃ cs c, pre = cs ++ [c] ∧ c.used = true := by
      rcases List.eq_nil_or_concat pre with rfl | ⟨cs, c, rfl⟩
      · exact .inl rfl
      · right
        refine ⟨cs, c, List.concat_eq_append, ?_⟩
        by_contra hc
        exact hprev ⟨cs, c.size, by rw [List.concat_eq_append, ← eq_false_of_ne_true hc]⟩
    have hplugged : Plugged (pre ++ ⟨n, false⟩ :: post) := by
      rcases hused with rfl | ⟨cs, c, rfl, hc⟩
      · exact hpost
      · refine List.isChain_append.mpr ⟨hpre, hpost, ?_⟩
        simp [hc]
    rw [plugBackward_used hm hused, coalesce_of_plugged hplugged]
    exact ⟨hm, m.headers, rfl⟩

end Free

/-- A block is marked as free. -/
theorem Linked.giveBack {m : SmallMem} {pre post : List Block} {n lfree : ℕ}
    (hm : Linked m (pre ++ ⟨n, true⟩ :: post)) (hpos : ∀ c ∈ pre ++ ⟨n, true⟩ :: post, 0 < c.size) :
    Linked { m with
      headers := setUsed m.headers (total pre) false
      lfree := lfree
      usedMem := sub32 m.usedMem (sub32 (m.headers (total pre)).next (total pre)) }
      (pre ++ ⟨n, false⟩ :: post) := by
  have hsum := hm.sum
  have hspace := hm.space
  have hused := hm.usedMem
  have hn := hpos ⟨n, true⟩ (List.mem_append_right _ List.mem_cons_self)
  have hle := charged_le_total (pre ++ ⟨n, true⟩ :: post)
  rw [hm.whole] at hle
  simp only at hsum hn
  have hnext : (m.headers (total pre)).next = total pre + n := by rw [hm.header]
  -- neither difference of the code wraps
  have hsize : sub32 (total pre + n) (total pre) = n := by
    rw [sub32_of_le (by omega) (by omega)]
    omega
  have hlays := hm.lays.setUsed false hpos
  rw [Nat.zero_add] at hlays
  refine
    { whole := ?_
      lays := hlays
      stub := ?_
      usedMem := ?_
      base := hm.base
      space := hm.space
      least := hm.least }
  · rw [total_append, total, ← Nat.add_assoc]
    exact hsum
  · show (setUsed m.headers (total pre) false m.heapEnd).used = true
    rw [setUsed_ne (by omega)]
    exact hm.stub
  · show sub32 m.usedMem (sub32 (m.headers (total pre)).next (total pre)) = _
    rw [hnext, hsize, hused]
    simp only [charged_append, charged, if_true, Bool.false_eq_true, if_false] at hle ⊢
    rw [sub32_of_le (by omega) (by omega)]
    omega

/-- **`rt_free` gives a block back.** -/
theorem rtFree_refines {m : SmallMem} {bs : List Block} (hm : Represents m bs) {x n : ℕ}
    (hx : (x, n) ∈ taken 0 bs) :
    ∃ m', rtFree m (m.heapPtr + x + sizeofStructMem) = some m' ∧ Represents m' (release x bs) ∧
      SameRegion m m' ∧ m'.maxMem = m.maxMem := by
  have hrelease := hm.sound.release leastBlock_pos hx
  have hwithin := taken_within hx
  obtain ⟨pre, post, rfl, hpre⟩ := mem_taken_iff.mp hx
  obtain rfl : x = total pre := by omega
  have hpos := hm.sound.pos leastBlock_pos
  have hposFree : ∀ c ∈ pre ++ ⟨n, false⟩ :: post, 0 < c.size := by
    rw [List.forall_mem_append, List.forall_mem_cons] at hpos ⊢
    exact hpos
  have hfloor := hm.sound.floor ⟨n, true⟩ (List.mem_append_right _ List.mem_cons_self)
  have hdvd : 4 ∣ total pre :=
    dvd_total fun c hc => hm.sound.grain c (List.mem_append_left _ hc)
  have hbase := hm.base
  have hsum := hm.sum
  have hheader := hm.header
  obtain ⟨hplugPre, hplugPost, -⟩ := List.isChain_append.mp hm.sound.plugged
  simp only at hfloor hsum hheader
  have hlowest := lowestFree_given_back 0 n pre post
  rw [Nat.zero_add, ← hm.lfree] at hlowest
  obtain ⟨m₁, hm₁⟩ : ∃ m₁, m₁ = { m with
      headers := setUsed m.headers (total pre) false
      lfree := if total pre < m.lfree then total pre else m.lfree
      usedMem := sub32 m.usedMem (sub32 (m.headers (total pre)).next (total pre)) } := ⟨_, rfl⟩
  have hlinked : Linked m₁ (pre ++ ⟨n, false⟩ :: post) := by
    rw [hm₁]
    exact hm.toLinked.giveBack hpos
  have hlfree : m₁.lfree = lowestFree 0 (pre ++ ⟨n, false⟩ :: post) := by
    rw [hm₁, hlowest]
    simp only
    split <;> omega
  have hlow : m₁.lfree ≤ total pre := by
    rw [hlfree, hlowest]
    exact Nat.min_le_left _ _
  rw [leastBlock] at hfloor
  have hassert : total pre < m₁.heapEnd ∧ (m₁.headers (total pre)).used = false := by
    have hend : m₁.heapEnd = m.heapEnd := by rw [hm₁]; rfl
    rw [hend, hlinked.header]
    exact ⟨by omega, rfl⟩
  -- both halves of `plug_holes`
  obtain ⟨k, cs, hforward, hposForward, hpluggedForward, hcoalesce, hheaders⟩ :=
    plugForward_spec hlinked hposFree hplugPost.tail hlow
  have hlfreeForward : (plugForward m₁ (total pre)).lfree = lowestFree 0 (pre ++ ⟨k, false⟩ :: cs) := by
    obtain ⟨h, hh⟩ := hheaders
    rw [← lowestFree_coalesce, hcoalesce, lowestFree_coalesce, ← hlfree, hh]
  obtain ⟨hbackward, hheaders'⟩ :=
    plugBackward_spec hforward hposForward hplugPre hpluggedForward hlfreeForward
  have hplug : plugHoles m₁ (total pre) = some (plugBackward (plugForward m₁ (total pre)) (total pre)) := by
    rw [plugHoles, if_pos hassert]
  have hfree : rtFree m (m.heapPtr + total pre + sizeofStructMem) = plugHoles m₁ (total pre) := by
    have hmem : m.heapPtr + total pre + sizeofStructMem - sizeofStructMem - m.heapPtr = total pre := by omega
    have hvalid : ¬ ((m.heapPtr + total pre + sizeofStructMem) % 4 ≠ 0 ∨
        m.heapPtr + total pre + sizeofStructMem < m.heapPtr + sizeofStructMem ∨
        m.heapPtr + m.heapEnd ≤ m.heapPtr + total pre + sizeofStructMem) := by
      simp only [sizeofStructMem] at hfloor ⊢
      omega
    rw [rtFree, if_neg (by simp [sizeofStructMem]), if_neg hvalid, hmem, hm₁]
    rw [if_pos (by rw [hheader]; exact ⟨rfl, rfl⟩)]
  rw [hcoalesce] at hbackward
  rw [release_append _ (fun c hc => hpos c (List.mem_append_left _ hc)) rfl] at hrelease ⊢
  obtain ⟨h, hh⟩ := hheaders.trans hheaders'
  refine ⟨_, hfree.trans hplug, ?_, ?_, ?_⟩
  · exact
      { hbackward with
        sound := hrelease
        lfree := by rw [hh, lowestFree_coalesce]; exact hlfree }
  · rw [hh, hm₁]
    exact ⟨rfl, rfl⟩
  · rw [hh, hm₁]

/-! ## Stores -/

/-- Stores that reach no record leave the heap as it is. -/
theorem Represents.store {m : SmallMem} {bs : List Block} (h : Represents m bs) (memory : ℕ → HeapMem)
    {touched : ℕ → Bool} (hinside : ∀ o, touched o = true → ∃ t ∈ taken 0 bs, t.1 < o ∧ o < t.1 + t.2) :
    Represents { m with headers := fun o => if touched o then memory o else m.headers o } bs := by
  have hrecord : ∀ o ∈ starts 0 bs, ¬ touched o = true := by
    intro o hstart htouched
    obtain ⟨t, ht, hlow, hhigh⟩ := hinside o htouched
    rcases starts_outside hstart ht with hle | hle <;> omega
  have hstub : ¬ touched m.heapEnd = true := by
    intro htouched
    obtain ⟨t, ht, hlow, hhigh⟩ := hinside m.heapEnd htouched
    have hwithin := (taken_within ht).2
    rw [h.whole] at hwithin
    omega
  refine { h with lays := ?_, stub := ?_ }
  · exact h.lays.of_starts fun o ho => if_neg (hrecord o ho)
  · show (if touched m.heapEnd then memory m.heapEnd else m.headers m.heapEnd).used = true
    rw [if_neg hstub]
    exact h.stub

end InfraredModule.Analysis
