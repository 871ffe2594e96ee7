import InfraredModule.Analysis.Memory

/-!
# Runs of the heap

`Accounts` matches the pointers that are held with the blocks in use. Every use of the heap keeps
it, so in every run no assertion fails and no loop is without end, and the blocks that are held
do not overlap (`heap_safe`). When nothing is held any more the heap is one free block again
(`heap_restored`).
-/

set_option autoImplicit false

namespace InfraredModule.Analysis

open InfraredModule.Foundation InfraredModule.Foundation.Arena InfraredModule.Model

/-- A pointer and the size asked for, and the block that was found for it. -/
def Covers (heapPtr : ℕ) (p block : ℕ × ℕ) : Prop :=
  p.1 = heapPtr + block.1 + sizeofStructMem ∧ sizeofStructMem + blockSize p.2 ≤ block.2

/-- The pointers that are held belong to the blocks in use, each to its own. -/
structure Accounts (u : HeapUsers) (bs : List Block) : Prop where
  represents : Represents u.mem bs
  held : ∃ blocks, blocks.Perm (taken 0 bs) ∧ List.Forall₂ (Covers u.mem.heapPtr) u.held blocks

/-- The partner of an element in the middle. -/
theorem forall₂_middle {α β : Type} {R : α → β → Prop} {l₁ l₂ : List α} {a : α} {r : List β}
    (h : List.Forall₂ R (l₁ ++ a :: l₂) r) :
    ∃ r₁ b r₂, r = r₁ ++ b :: r₂ ∧ R a b ∧ List.Forall₂ R (l₁ ++ l₂) (r₁ ++ r₂) := by
  induction l₁ generalizing r with
  | nil =>
    obtain ⟨b, r₂, hab, hrest, rfl⟩ := List.forall₂_cons_left_iff.mp h
    exact ⟨[], b, r₂, rfl, hab, hrest⟩
  | cons c l₁ ih =>
    obtain ⟨d, r, hcd, hrest, rfl⟩ := List.forall₂_cons_left_iff.mp h
    obtain ⟨r₁, b, r₂, rfl, hab, hothers⟩ := ih hrest
    exact ⟨d :: r₁, b, r₂, rfl, hab, List.Forall₂.cons hcd hothers⟩

/-! ## One use of the heap -/

section Step

variable {u : HeapUsers} {bs : List Block}

/-- What one use does to the accounts: the region stays, and `max_mem` follows `used_mem`. -/
structure Keeps (u u' : HeapUsers) : Prop where
  accounts : ∃ cs, Accounts u' cs
  region : SameRegion u.mem u'.mem
  maxMem : u'.mem.maxMem = max u.mem.maxMem u'.mem.usedMem

/-- A request keeps the accounts. -/
theorem step_malloc (h : Accounts u bs) (hmax : u.mem.usedMem ≤ u.mem.maxMem) (size : U32) :
    ∃ u', heapStep (.malloc size) u = some u' ∧ Keeps u u' := by
  obtain ⟨blocks, hperm, hcovers⟩ := h.held
  rcases rtMalloc_refines h.represents size with ⟨-, hreturns⟩ | ⟨x, cs, mem, hrequest, hreturns, hmem, hregion, hmost⟩
  · refine ⟨u, by rw [heapStep, hreturns, Option.map_some], ⟨bs, h⟩, ⟨rfl, rfl⟩, ?_⟩
    exact (Nat.max_eq_left hmax).symm
  · refine ⟨⟨mem, (u.mem.heapPtr + x + sizeofStructMem, size.toNat) :: u.held⟩,
      by rw [heapStep, hreturns, Option.map_some], ⟨cs, hmem, ?_⟩, hregion, hmost⟩
    rw [request] at hrequest
    split at hrequest
    case isTrue => cases hrequest
    case isFalse =>
      obtain ⟨n, hn, htaken⟩ := taken_allocate h.represents.sound leastBlock_pos hrequest
      refine ⟨(x, n) :: blocks, (hperm.cons _).trans htaken.symm, ?_⟩
      rw [hregion.1]
      exact List.Forall₂.cons ⟨rfl, hn⟩ hcovers

/-- A release keeps the accounts. -/
theorem step_free (h : Accounts u bs) (hmax : u.mem.usedMem ≤ u.mem.maxMem) (rmem : ℕ) :
    ∃ u', heapStep (.free rmem) u = some u' ∧ Keeps u u' := by
  by_cases hheld : rmem ∈ u.held.map Prod.fst
  case neg =>
    exact ⟨u, by rw [heapStep, if_neg hheld], ⟨bs, h⟩, ⟨rfl, rfl⟩, (Nat.max_eq_left hmax).symm⟩
  obtain ⟨p, hp, rfl⟩ := List.mem_map.mp hheld
  obtain ⟨q, held₁, held₂, -, hq, hsplit, herase⟩ :=
    List.exists_of_eraseP (p := fun q : ℕ × ℕ => decide (q.1 = p.1)) hp (decide_eq_true rfl)
  obtain ⟨blocks, hperm, hcovers⟩ := h.held
  rw [hsplit] at hcovers
  obtain ⟨blocks₁, ⟨x, n⟩, blocks₂, rfl, hblock, hothers⟩ := forall₂_middle hcovers
  have hx : (x, n) ∈ taken 0 bs :=
    hperm.mem_iff.mp (List.mem_append_right _ List.mem_cons_self)
  have hptr : p.1 = u.mem.heapPtr + x + sizeofStructMem := by
    rw [← of_decide_eq_true hq]
    exact hblock.1
  obtain ⟨mem, hfree, hmem, hregion, hmost⟩ := rtFree_refines h.represents hx
  have htaken := taken_release h.represents.sound leastBlock_pos hx
  refine ⟨⟨mem, held₁ ++ held₂⟩, ?_, ⟨_, hmem, blocks₁ ++ blocks₂, ?_, ?_⟩, hregion, ?_⟩
  · rw [heapStep, if_pos hheld, hptr, hfree, Option.map_some, ← hptr, herase]
  · have hmiddle : ((x, n) :: (blocks₁ ++ blocks₂)).Perm ((x, n) :: taken 0 (release x bs)) :=
      (List.perm_middle.symm.trans hperm).trans htaken
    exact hmiddle.cons_inv
  · rw [hregion.1]
    exact hothers
  · -- less is in use than before
    have hused : mem.usedMem ≤ u.mem.usedMem := by
      rw [hmem.usedMem, h.represents.usedMem, charged_release h.represents.sound leastBlock_pos hx]
      exact Nat.le_add_left _ _
    show mem.maxMem = max u.mem.maxMem mem.usedMem
    rw [hmost]
    omega

/-- A byte of a block that is held lies behind the record of that block and before the next. -/
theorem owns_inside (h : Accounts u bs) {o : ℕ} (ho : u.owns o = true) :
    ∃ t ∈ taken 0 bs, t.1 < o ∧ o < t.1 + t.2 := by
  obtain ⟨p, hp, hbyte⟩ := List.any_eq_true.mp ho
  have hbyte := of_decide_eq_true hbyte
  obtain ⟨blocks, hperm, hcovers⟩ := h.held
  obtain ⟨held₁, held₂, hsplit⟩ := List.append_of_mem hp
  rw [hsplit] at hcovers
  obtain ⟨blocks₁, t, blocks₂, rfl, hblock, -⟩ := forall₂_middle hcovers
  have hstruct := sizeofStructMem_pos
  have hptr := hblock.1
  have hsize := hblock.2
  exact ⟨t, hperm.mem_iff.mp (List.mem_append_right _ List.mem_cons_self), by omega, by omega⟩

/-- A store into what is held keeps the accounts. -/
theorem step_store (h : Accounts u bs) (hmax : u.mem.usedMem ≤ u.mem.maxMem) (memory : ℕ → HeapMem) :
    ∃ u', heapStep (.store memory) u = some u' ∧ Keeps u u' := by
  refine ⟨_, rfl, ⟨bs, ?_, h.held⟩, ⟨rfl, rfl⟩, (Nat.max_eq_left hmax).symm⟩
  exact h.represents.store memory fun o ho => owns_inside h ho

/-- **Every use of the heap returns and keeps the accounts.** -/
theorem step_keeps (h : Accounts u bs) (hmax : u.mem.usedMem ≤ u.mem.maxMem) (use : HeapUse) :
    ∃ u', heapStep use u = some u' ∧ Keeps u u' := by
  cases use with
  | malloc size => exact step_malloc h hmax size
  | free rmem => exact step_free h hmax rmem
  | store memory => exact step_store h hmax memory

end Step

/-! ## Start-up -/

section Boot

variable {memory : ℕ → HeapMem} {beginAddr endAddr : ℕ} {m : SmallMem}

/-- What the initialisation leaves behind. -/
theorem rtSystemHeapInit_eq (h : rtSystemHeapInit memory beginAddr endAddr = some m) :
    m.heapPtr = rtAlign beginAddr ∧ m.heapPtr + m.heapEnd + sizeofStructMem = rtAlignDown endAddr ∧
      m.headers 0 = ⟨heapMagic, false, m.heapEnd, 0⟩ ∧ (m.headers m.heapEnd).used = true ∧
      m.lfree = 0 ∧ m.usedMem = 0 ∧ m.maxMem = 0 := by
  dsimp only [rtSystemHeapInit] at h
  split at h
  case isFalse => cases h
  case isTrue hroom =>
    obtain rfl := Option.some.inj h
    have hne : 0 ≠ rtAlignDown endAddr - rtAlign beginAddr - 2 * sizeofStructMem + sizeofStructMem := by
      have hstruct := sizeofStructMem_pos
      omega
    refine ⟨rfl, ?_, ?_, ?_, rfl, rfl, rfl⟩
    · simp only [SmallMem.heapEnd]
      omega
    · simp only [SmallMem.heapEnd, Function.update_of_ne hne, Function.update_self]
    · simp only [SmallMem.heapEnd, Function.update_self]

/-- After start-up there is one free block and nothing is held. -/
theorem boot_accounts (h : rtSystemHeapInit memory beginAddr endAddr = some m) (hend : endAddr < 2 ^ 32)
    (hleast : minSizeAligned ≤ m.memSizeAligned) : Accounts ⟨m, []⟩ [⟨m.heapEnd, false⟩] := by
  obtain ⟨hptr, hregion, hfirst, hstub, hlfree, hused, -⟩ := rtSystemHeapInit_eq h
  have hbase : 4 ∣ m.heapPtr := hptr ▸ four_dvd_rtAlign beginAddr
  have hdown : rtAlignDown endAddr ≤ endAddr := Nat.div_mul_le_self endAddr 4
  have hgrain : 4 ∣ rtAlignDown endAddr := Nat.dvd_mul_left 4 _
  rw [← hregion] at hdown hgrain
  have hsizes : sizeofStructMem = 12 ∧ minSizeAligned = 12 := ⟨rfl, rfl⟩
  have hheapEnd : m.heapEnd = m.memSizeAligned + sizeofStructMem := rfl
  refine ⟨?_, [], List.Perm.refl _, List.Forall₂.nil⟩
  refine
    { whole := by simp [total]
      lays := ⟨by rw [hfirst, Nat.zero_add], trivial⟩
      stub := hstub
      usedMem := hused
      base := hbase
      space := by show m.heapPtr + m.heapEnd < 2 ^ 32; omega
      least := hleast
      sound := ⟨?_, ?_, List.isChain_singleton _⟩
      lfree := hlfree }
  · intro b hb
    rw [List.mem_singleton.mp hb]
    show 4 ∣ m.heapEnd
    omega
  · intro b hb
    rw [List.mem_singleton.mp hb, leastBlock]
    show sizeofStructMem + 4 ≤ m.heapEnd
    omega

end Boot

/-! ## Whole runs -/

/-- What holds after every run: it has come to an end, and the accounts are in order. -/
structure Settled (u₀ u : HeapUsers) : Prop where
  accounts : ∃ bs, Accounts u bs
  region : SameRegion u₀.mem u.mem
  used : u.mem.usedMem ≤ u.mem.maxMem
  most : u₀.mem.maxMem ≤ u.mem.maxMem

/-- A run of uses goes through, and the heap is then accounted for. -/
theorem run_settled {u : HeapUsers} {bs : List Block} (h : Accounts u bs)
    (hmax : u.mem.usedMem ≤ u.mem.maxMem) (uses : List HeapUse) :
    ∃ u', heapRun uses u = some u' ∧ Settled u u' := by
  induction uses generalizing u bs with
  | nil => exact ⟨u, rfl, ⟨bs, h⟩, ⟨rfl, rfl⟩, hmax, Nat.le_refl _⟩
  | cons use uses ih =>
    obtain ⟨u₁, hstep, ⟨cs, haccounts⟩, hregion, hmost⟩ := step_keeps h hmax use
    obtain ⟨u', hrun, hsettled⟩ := ih haccounts (by omega)
    refine ⟨u', by rw [heapRun, hstep, Option.bind_some, hrun], hsettled.accounts, ?_, hsettled.used, ?_⟩
    · exact ⟨hsettled.region.1.trans hregion.1, hsettled.region.2.trans hregion.2⟩
    · have := hsettled.most
      omega

/-- The blocks of the heap, by the links from one record to the next. -/
def blocksFrom (m : SmallMem) : ℕ → ℕ → List Block
  | 0, _ => []
  | rounds + 1, a =>
    if a = m.heapEnd then []
    else ⟨(m.headers a).next - a, (m.headers a).used⟩ :: blocksFrom m rounds (m.headers a).next

/-- The blocks that the headers of a heap describe. -/
def heapBlocks (m : SmallMem) : List Block := blocksFrom m (m.memSizeAligned + 2) 0

/-- Walking the headers of a heap finds its blocks. -/
theorem blocksFrom_eq {m : SmallMem} {p a : ℕ} {bs : List Block} (hlays : Lays m.headers p a bs)
    (hend : a + total bs = m.heapEnd) (hpos : ∀ b ∈ bs, 0 < b.size) {rounds : ℕ}
    (hrounds : bs.length < rounds) : blocksFrom m rounds a = bs := by
  induction bs generalizing p a rounds with
  | nil =>
    obtain ⟨rounds, rfl⟩ : ∃ k, rounds = k + 1 := ⟨rounds - 1, by simp at hrounds; omega⟩
    rw [blocksFrom, if_pos (show a = m.heapEnd from hend)]
  | cons b bs ih =>
    obtain ⟨rounds, rfl⟩ : ∃ k, rounds = k + 1 := ⟨rounds - 1, by simp at hrounds; omega⟩
    obtain ⟨hhead, htail⟩ := hlays
    rw [List.forall_mem_cons] at hpos
    rw [total] at hend
    rw [blocksFrom, if_neg (by omega), hhead]
    simp only
    rw [ih htail (by omega) hpos.2 (by simpa using hrounds), Nat.add_sub_cancel_left]

/-- The blocks of a heap are the ones that it represents. -/
theorem Represents.heapBlocks {m : SmallMem} {bs : List Block} (h : Represents m bs) : heapBlocks m = bs :=
  blocksFrom_eq h.lays ((Nat.zero_add _).trans h.whole) (h.sound.pos leastBlock_pos)
    (length_lt_of_floor (struct_le_of_sound h.sound) h.whole)

/-- What holds of partners holds of the elements. -/
theorem pairwise_of_forall₂ {α β : Type} {R : α → β → Prop} {S : β → β → Prop} {T : α → α → Prop}
    (hST : ∀ a b c d, R a c → R b d → S c d → T a b) {l : List α} {r : List β}
    (h : List.Forall₂ R l r) (hr : r.Pairwise S) : l.Pairwise T := by
  induction h with
  | nil => exact List.Pairwise.nil
  | cons hac hrest ih =>
    obtain ⟨hfirst, hothers⟩ := List.pairwise_cons.mp hr
    refine List.pairwise_cons.mpr ⟨?_, ih hothers⟩
    intro b hb
    obtain ⟨l₁, l₂, rfl⟩ := List.append_of_mem hb
    obtain ⟨r₁, d, r₂, rfl, hbd, -⟩ := forall₂_middle hrest
    exact hST _ _ _ _ hac hbd (hfirst d (List.mem_append_right _ List.mem_cons_self))

section Runs

variable {memory : ℕ → HeapMem} {beginAddr endAddr : ℕ} {m : SmallMem}

/-- Every run from start-up on settles. -/
theorem boot_settled (h : rtSystemHeapInit memory beginAddr endAddr = some m) (hend : endAddr < 2 ^ 32)
    (hleast : minSizeAligned ≤ m.memSizeAligned) (uses : List HeapUse) :
    ∃ u, heapRun uses ⟨m, []⟩ = some u ∧ Settled ⟨m, []⟩ u := by
  obtain ⟨-, -, -, -, -, hused, hmax⟩ := rtSystemHeapInit_eq h
  exact run_settled (boot_accounts h hend hleast) (by show m.usedMem ≤ m.maxMem; omega) uses

/-- **The heap is safe.** For every region the heap can be set up in and every sequence of requests,
releases and stores of its users, in any order: each call returns without a failed assertion, every
pointer held is aligned and its block lies between `heap_ptr` and `heap_end`, and of any two blocks
held the one ends before the record of the other begins. A block is as large as the size asked for, up to
`2 ^ 32 - 4`; above that `RT_ALIGN` wraps.
SOURCE: mem.c:154-258, 271-411, 552-616 -/
theorem heap_safe (h : rtSystemHeapInit memory beginAddr endAddr = some m) (hend : endAddr < 2 ^ 32)
    (hleast : minSizeAligned ≤ m.memSizeAligned) (uses : List HeapUse) :
    ∃ u, heapRun uses ⟨m, []⟩ = some u ∧
      (∀ p ∈ u.held, 4 ∣ p.1 ∧ m.heapPtr + sizeofStructMem ≤ p.1 ∧
        p.1 + blockSize p.2 ≤ m.heapPtr + m.heapEnd ∧ (p.2 + 3 < 2 ^ 32 → p.2 ≤ blockSize p.2)) ∧
      u.held.Pairwise fun p q =>
        p.1 + blockSize p.2 + sizeofStructMem ≤ q.1 ∨ q.1 + blockSize q.2 + sizeofStructMem ≤ p.1 := by
  obtain ⟨u, hrun, ⟨bs, hrepresents, blocks, hperm, hcovers⟩, ⟨hptr, hsize⟩, -, -⟩ :=
    boot_settled h hend hleast uses
  replace hptr : u.mem.heapPtr = m.heapPtr := hptr
  have hheapEnd : u.mem.heapEnd = m.heapEnd := by
    rw [SmallMem.heapEnd, hsize]
    rfl
  refine ⟨u, hrun, ?_, ?_⟩
  · intro p hp
    obtain ⟨held₁, held₂, hsplit⟩ := List.append_of_mem hp
    rw [hsplit] at hcovers
    obtain ⟨blocks₁, t, blocks₂, rfl, ⟨hp₁, hp₂⟩, -⟩ := forall₂_middle hcovers
    have ht : t ∈ taken 0 bs := hperm.mem_iff.mp (List.mem_append_right _ List.mem_cons_self)
    have hwithin := (taken_within ht).2
    rw [Nat.zero_add, hrepresents.whole, hheapEnd] at hwithin
    obtain ⟨pre, post, rfl, hstart⟩ := mem_taken_iff.mp ht
    -- the blocks before it are multiples of four, and so is `heap_ptr`
    have hdvd : 4 ∣ total pre :=
      dvd_total fun c hc => hrepresents.sound.grain c (List.mem_append_left _ hc)
    have hbase := hrepresents.base
    rw [hptr] at hp₁ hbase
    simp only [sizeofStructMem] at hp₁ hp₂ ⊢
    exact ⟨by omega, by omega, by omega, fun hfits => (le_blockSize_iff (by omega)).mpr hfits⟩
  · have hapart : blocks.Pairwise fun s t => s.1 + s.2 ≤ t.1 ∨ t.1 + t.2 ≤ s.1 := by
      refine (hperm.pairwise_iff ?_).mpr ((taken_pairwise 0 bs).imp fun hle => .inl hle)
      exact fun hst => hst.symm
    apply pairwise_of_forall₂ _ hcovers hapart
    rintro p q s t ⟨hp₁, hp₂⟩ ⟨hq₁, hq₂⟩ hst
    omega

/-- A heap of 256 bytes, in memory that was zero. -/
def quarterHeap : SmallMem :=
  ⟨0x20000000, 232, Function.update (Function.update (fun _ => ⟨0, false, 0, 0⟩) 0
    ⟨heapMagic, false, 244, 0⟩) 244 ⟨heapMagic, true, 244, 244⟩, 0, 0, 0⟩

/-- The initialisation over 256 bytes. -/
theorem quarterHeap_init :
    rtSystemHeapInit (fun _ => ⟨0, false, 0, 0⟩) 0x20000000 0x20000100 = some quarterHeap := by
  rfl

/-- Two blocks that are held after four uses. -/
theorem heap_safe_quarter :
    ∃ u, heapRun [.malloc 10, .malloc 33, .free 0x2000000C, .malloc 7] ⟨quarterHeap, []⟩ = some u ∧
      (∀ p ∈ u.held, 4 ∣ p.1 ∧ quarterHeap.heapPtr + sizeofStructMem ≤ p.1 ∧
        p.1 + blockSize p.2 ≤ quarterHeap.heapPtr + quarterHeap.heapEnd ∧
        (p.2 + 3 < 2 ^ 32 → p.2 ≤ blockSize p.2)) ∧
      u.held.Pairwise fun p q =>
        p.1 + blockSize p.2 + sizeofStructMem ≤ q.1 ∨ q.1 + blockSize q.2 + sizeofStructMem ≤ p.1 :=
  heap_safe quarterHeap_init (by decide) (by decide) _

/-- What is returned depends on the blocks alone. -/
theorem rtMalloc_eq_of_blocks {m m' : SmallMem} {bs : List Block} (hm : Represents m bs)
    (hm' : Represents m' bs) (hregion : SameRegion m m') (size : U32) :
    (rtMalloc m' size).map Prod.fst = (rtMalloc m size).map Prod.fst := by
  have hrefines := rtMalloc_refines hm size
  have hrefines' := rtMalloc_refines hm' size
  rw [hregion.2] at hrefines'
  rcases hrefines with ⟨hnone, hreturns⟩ | ⟨x, cs, n, hsome, hreturns, -⟩
  · rcases hrefines' with ⟨-, hreturns'⟩ | ⟨x', cs', n', hsome', -⟩
    · rw [hreturns, hreturns']
      rfl
    · rw [hnone] at hsome'
      cases hsome'
  · rcases hrefines' with ⟨hnone', -⟩ | ⟨x', cs', n', hsome', hreturns', -⟩
    · rw [hsome] at hnone'
      cases hnone'
    · obtain ⟨rfl, rfl⟩ := Prod.mk.inj (Option.some.inj (hsome.symm.trans hsome'))
      rw [hreturns, hreturns', hregion.1]
      rfl

/-- **Nothing is lost.** After every run at whose end nothing is held, in whatever order the blocks
were given back, the heap is the one free block it was at start-up: `used_mem` is zero, and every
request is answered as it would have been then.
SOURCE: mem.c:154-192, 552-616 -/
theorem heap_restored (h : rtSystemHeapInit memory beginAddr endAddr = some m) (hend : endAddr < 2 ^ 32)
    (hleast : minSizeAligned ≤ m.memSizeAligned) {uses : List HeapUse} {u : HeapUsers}
    (hrun : heapRun uses ⟨m, []⟩ = some u) (hnone : u.held = []) :
    heapBlocks u.mem = [⟨m.heapEnd, false⟩] ∧ u.mem.usedMem = 0 ∧ u.mem.lfree = 0 ∧
      ∀ size, (rtMalloc u.mem size).map Prod.fst = (rtMalloc m size).map Prod.fst := by
  obtain ⟨u', hrun', ⟨bs, hrepresents, blocks, hperm, hcovers⟩, hregion, -, -⟩ :=
    boot_settled h hend hleast uses
  obtain rfl := Option.some.inj (hrun.symm.trans hrun')
  rw [hnone, List.forall₂_nil_left_iff] at hcovers
  rw [hcovers, List.nil_perm] at hperm
  have hwhole : total bs = m.heapEnd := by
    rw [hrepresents.whole, SmallMem.heapEnd, hregion.2]
    rfl
  have hne : bs ≠ [] := by
    rintro rfl
    rw [SmallMem.heapEnd] at hwhole
    have hstruct := sizeofStructMem_pos
    simp only [total] at hwhole
    omega
  have hbs := eq_singleton_of_taken_nil hrepresents.sound.plugged hperm hne
  rw [hwhole] at hbs
  rw [hbs] at hrepresents
  refine ⟨hrepresents.heapBlocks, ?_, ?_, ?_⟩
  · rw [hrepresents.usedMem]
    rfl
  · rw [hrepresents.lfree]
    rfl
  · exact rtMalloc_eq_of_blocks (boot_accounts h hend hleast).represents hrepresents hregion

/-- Four uses after which nothing is held. -/
theorem heap_restored_quarter :
    ∃ u, heapRun [.malloc 10, .malloc 33, .free 0x2000000C, .free 0x20000024] ⟨quarterHeap, []⟩ = some u ∧
      heapBlocks u.mem = [⟨quarterHeap.heapEnd, false⟩] ∧ u.mem.usedMem = 0 ∧ u.mem.lfree = 0 ∧
        ∀ size, (rtMalloc u.mem size).map Prod.fst = (rtMalloc quarterHeap size).map Prod.fst := by
  have hheld : (heapRun [.malloc 10, .malloc 33, .free 0x2000000C, .free 0x20000024]
      ⟨quarterHeap, []⟩).map HeapUsers.held = some [] := by
    decide +kernel
  obtain ⟨u, hrun, hnone⟩ := Option.map_eq_some_iff.mp hheld
  exact ⟨u, hrun, heap_restored quarterHeap_init (by decide) (by decide) hrun hnone⟩

/-- **When a request fails.** In every state a run leads to, `rt_malloc` of a size other than zero
returns `RT_NULL` exactly when the size as `RT_ALIGN` rounds it, modulo `2 ^ 32`, is larger than the heap, or
every free block is too small for its record and `blockSize` bytes (the size rounded up, at least twelve) or is
the last block of the heap and just as large as them.
SOURCE: mem.c:288-311, 407-410 -/
theorem rtMalloc_fails_iff (h : rtSystemHeapInit memory beginAddr endAddr = some m) (hend : endAddr < 2 ^ 32)
    (hleast : minSizeAligned ≤ m.memSizeAligned) {uses : List HeapUse} {u : HeapUsers}
    (hrun : heapRun uses ⟨m, []⟩ = some u) (size : U32) (hsize : size ≠ 0) :
    (rtMalloc u.mem size).map Prod.fst = some none ↔
      m.memSizeAligned < rtAlign size.toNat ∨
        ∀ pre b post, heapBlocks u.mem = pre ++ b :: post → b.used = false →
          b.size < sizeofStructMem + blockSize size.toNat ∨
            post = [] ∧ b.size = sizeofStructMem + blockSize size.toNat := by
  obtain ⟨u', hrun', ⟨bs, hrepresents, -⟩, hregion, -, -⟩ := boot_settled h hend hleast uses
  obtain rfl := Option.some.inj (hrun.symm.trans hrun')
  replace hregion : u.mem.memSizeAligned = m.memSizeAligned := hregion.2
  have hnull : (rtMalloc u.mem size).map Prod.fst = some none ↔ request u.mem.memSizeAligned size bs = none := by
    rcases rtMalloc_refines hrepresents size with ⟨hnone, hreturns⟩ | ⟨x, cs, n, hsome, hreturns, -⟩
    · rw [hnone, hreturns]
      simp
    · rw [hsome, hreturns]
      simp
  rw [hnull, hrepresents.heapBlocks, request, hregion]
  by_cases hlarge : m.memSizeAligned < rtAlign size.toNat
  · simp [hlarge]
  · have hneed : blockSize size.toNat ≤ m.memSizeAligned := blockSize_le hleast (Nat.not_lt.mp hlarge)
    have hpos := hrepresents.sound.pos leastBlock_pos
    rw [if_neg (not_or.mpr ⟨hsize, hlarge⟩), allocate, Option.map_eq_none_iff, firstFit_eq_none_iff]
    simp only [hlarge, false_or]
    refine forall_congr' fun pre => forall_congr' fun b => forall_congr' fun post => ?_
    refine imp_congr_right fun hsplit => imp_congr_right fun hfree => ?_
    subst hsplit
    -- where the block ends the rest of the heap begins
    have hsum := hrepresents.sum
    rw [SmallMem.heapEnd, hregion] at hsum
    have hlast : post = [] ↔ total post = 0 := by
      cases post with
      | nil => simp [total]
      | cons c post =>
        have hc := hpos c (List.mem_append_right _ (List.mem_cons_of_mem _ List.mem_cons_self))
        simp only [total, List.cons_ne_nil, false_iff]
        omega
    rw [hlast]
    omega

/-- With two blocks held, the rest of the heap is 172 bytes: 160 and a record. It is not handed out. -/
theorem rtMalloc_fails_last :
    ∃ u, heapRun [.malloc 10, .malloc 33] ⟨quarterHeap, []⟩ = some u ∧
      u.held = [(0x20000024, 33), (0x2000000C, 10)] ∧ (rtMalloc u.mem 160).map Prod.fst = some none ∧
      (quarterHeap.memSizeAligned < rtAlign (160 : U32).toNat ∨
        ∀ pre b post, heapBlocks u.mem = pre ++ b :: post → b.used = false →
          b.size < sizeofStructMem + blockSize (160 : U32).toNat ∨
            post = [] ∧ b.size = sizeofStructMem + blockSize (160 : U32).toNat) := by
  have hends : (heapRun [.malloc 10, .malloc 33] ⟨quarterHeap, []⟩).map (fun u =>
      (u.held, (rtMalloc u.mem 160).map Prod.fst)) =
        some ([(0x20000024, 33), (0x2000000C, 10)], some none) := by
    decide +kernel
  obtain ⟨u, hrun, hu⟩ := Option.map_eq_some_iff.mp hends
  obtain ⟨hheld, hnone⟩ := Prod.mk.inj hu
  exact ⟨u, hrun, hheld, hnone,
    (rtMalloc_fails_iff quarterHeap_init (by decide) (by decide) hrun 160 (by decide)).mp hnone⟩

/-- The largest use of a run is that of one of its moments. -/
theorem maxMem_attained {u₀ : HeapUsers} {bs : List Block} (h : Accounts u₀ bs)
    (hmax : u₀.mem.usedMem ≤ u₀.mem.maxMem) (uses : List HeapUse) :
    ∃ u, heapRun uses u₀ = some u ∧
      (∀ pre post v, uses = pre ++ post → heapRun pre u₀ = some v → v.mem.usedMem ≤ u.mem.maxMem) ∧
      (u.mem.maxMem = u₀.mem.maxMem ∨
        ∃ pre post v, uses = pre ++ post ∧ heapRun pre u₀ = some v ∧ v.mem.usedMem = u.mem.maxMem) := by
  induction uses generalizing u₀ bs with
  | nil =>
    refine ⟨u₀, rfl, ?_, .inl rfl⟩
    intro pre post v hsplit hv
    obtain ⟨rfl, -⟩ := List.append_eq_nil_iff.mp hsplit.symm
    obtain rfl := Option.some.inj hv
    exact hmax
  | cons use uses ih =>
    obtain ⟨u₁, hstep, ⟨cs, haccounts⟩, -, hmost⟩ := step_keeps h hmax use
    obtain ⟨u, hrun, hbelow, hattained⟩ := ih haccounts (by omega)
    have hfirst := hbelow [] uses u₁ rfl rfl
    -- the maximum never falls again
    have hgrows : u₁.mem.maxMem ≤ u.mem.maxMem := by
      obtain ⟨u', hrun', hsettled⟩ := run_settled haccounts (by omega) uses
      obtain rfl := Option.some.inj (hrun.symm.trans hrun')
      exact hsettled.most
    refine ⟨u, by rw [heapRun, hstep, Option.bind_some, hrun], ?_, ?_⟩
    · intro pre post v hsplit hv
      cases pre with
      | nil =>
        obtain rfl := Option.some.inj hv
        omega
      | cons use' pre =>
        obtain ⟨rfl, hrest⟩ := List.cons.inj hsplit
        rw [heapRun, hstep, Option.bind_some] at hv
        exact hbelow pre post v hrest hv
    · rcases hattained with hsame | ⟨pre, post, v, rfl, hv, hpeak⟩
      · rcases Nat.le_total u₁.mem.usedMem u₀.mem.maxMem with hle | hle
        · exact .inl (by omega)
        · exact .inr ⟨[use], uses, u₁, rfl, by rw [heapRun, hstep]; rfl, by omega⟩
      · exact .inr ⟨use :: pre, post, v, rfl, by rw [heapRun, hstep, Option.bind_some, hv], hpeak⟩

/-- **The figures of `rt_memory_info`.** After every run the used memory is that of the blocks in use,
records included, and the largest use reported is the largest that any moment of the run had.
SOURCE: mem.c:348-352, 365-369, 608-610, 619-629 -/
theorem rtMemoryInfo_exact (h : rtSystemHeapInit memory beginAddr endAddr = some m) (hend : endAddr < 2 ^ 32)
    (hleast : minSizeAligned ≤ m.memSizeAligned) (uses : List HeapUse) :
    ∃ u most, heapRun uses ⟨m, []⟩ = some u ∧
      rtMemoryInfo u.mem = (m.memSizeAligned, charged (heapBlocks u.mem), most) ∧
      (∀ pre post v, uses = pre ++ post → heapRun pre ⟨m, []⟩ = some v →
        charged (heapBlocks v.mem) ≤ most) ∧
      ∃ pre post v, uses = pre ++ post ∧ heapRun pre ⟨m, []⟩ = some v ∧
        charged (heapBlocks v.mem) = most := by
  have hboot := boot_accounts h hend hleast
  obtain ⟨-, -, -, -, -, hused, hmax⟩ := rtSystemHeapInit_eq h
  have hcharged : ∀ pre v, heapRun pre ⟨m, []⟩ = some v → charged (heapBlocks v.mem) = v.mem.usedMem := by
    intro pre v hv
    obtain ⟨v', hv', ⟨bs, hrepresents, -⟩, -⟩ := boot_settled h hend hleast pre
    obtain rfl := Option.some.inj (hv.symm.trans hv')
    rw [hrepresents.heapBlocks, hrepresents.usedMem]
  obtain ⟨u, hrun, hbelow, hattained⟩ :=
    maxMem_attained hboot (by show m.usedMem ≤ m.maxMem; omega) uses
  obtain ⟨u', hrun', hsettled⟩ := boot_settled h hend hleast uses
  obtain rfl := Option.some.inj (hrun.symm.trans hrun')
  refine ⟨u, u.mem.maxMem, hrun, ?_, ?_, ?_⟩
  · rw [hcharged uses u hrun, rtMemoryInfo, hsettled.region.2]
  · intro pre post v hsplit hv
    rw [hcharged pre v hv]
    exact hbelow pre post v hsplit hv
  · rcases hattained with hsame | ⟨pre, post, v, hsplit, hv, hpeak⟩
    · refine ⟨[], uses, ⟨m, []⟩, rfl, rfl, ?_⟩
      rw [hcharged [] _ rfl, hsame]
      show m.usedMem = m.maxMem
      omega
    · exact ⟨pre, post, v, hsplit, hv, (hcharged pre v hv).trans hpeak⟩

/-- Three uses, with the most that was charged on the way. -/
theorem rtMemoryInfo_exact_quarter :
    ∃ u most, heapRun [.malloc 10, .malloc 33, .free 0x2000000C] ⟨quarterHeap, []⟩ = some u ∧
      rtMemoryInfo u.mem = (quarterHeap.memSizeAligned, charged (heapBlocks u.mem), most) ∧
      (∀ pre post v, [.malloc 10, .malloc 33, .free 0x2000000C] = pre ++ post →
        heapRun pre ⟨quarterHeap, []⟩ = some v → charged (heapBlocks v.mem) ≤ most) ∧
      ∃ pre post v, [.malloc 10, .malloc 33, .free 0x2000000C] = pre ++ post ∧
        heapRun pre ⟨quarterHeap, []⟩ = some v ∧ charged (heapBlocks v.mem) = most :=
  rtMemoryInfo_exact quarterHeap_init (by decide) (by decide) _

end Runs

end InfraredModule.Analysis
