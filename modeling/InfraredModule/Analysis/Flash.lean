import InfraredModule.Foundation.Overlay
import InfraredModule.Foundation.Simulation
import InfraredModule.Model.Flash
import InfraredModule.Analysis.HubFrames

/-!
# What the flash driver does to the memory

An erase is an overlay of ones over whole pages, a write into erased cells an overlay of the data, half-word by
half-word. The number of pages comes from the size alone, so an erase reaches the end of its range only if
the range does not begin too far into its first page (`Covered`).
-/

set_option autoImplicit false

namespace InfraredModule.Analysis

open InfraredModule.Foundation InfraredModule.Model

/-! ## Pages -/

/-- The page of an address by shifts. -/
theorem getPage_eq_shift (x : U32) : getPage x = x >>> 10 <<< 10 := by
  apply BitVec.eq_of_getLsbD_eq
  intro i hi
  have hmask : ∀ i : Fin 32, (flashPageSize - 1).getLsbD i = decide (i.val < 10) := by decide
  have hbit := hmask ⟨i, hi⟩
  simp only at hbit
  rw [getPage, BitVec.getLsbD_and, BitVec.getLsbD_not, hbit, BitVec.getLsbD_shiftLeft,
    BitVec.getLsbD_ushiftRight]
  by_cases hlow : i < 10
  · simp [hlow]
  · simp [hlow, hi, Nat.add_sub_cancel' (Nat.le_of_not_lt hlow)]

/-- The page of an address by division. -/
theorem toNat_getPage (x : U32) : (getPage x).toNat = x.toNat / 1024 * 1024 := by
  rw [getPage_eq_shift, BitVec.toNat_shiftLeft, BitVec.toNat_ushiftRight, Nat.shiftRight_eq_div_pow,
    Nat.shiftLeft_eq, Nat.mod_eq_of_lt (by have := x.isLt; omega)]

/-- The addresses of a page are the 1024 behind its base. -/
theorem getPage_eq_iff {base : U32} (hbase : base.toNat % 1024 = 0) (x : U32) :
    getPage x = getPage base ↔ offset base x < 1024 := by
  have hx := x.isLt
  have hb := base.isLt
  rw [← BitVec.toNat_inj, toNat_getPage, toNat_getPage, offset, BitVec.toNat_sub]
  omega

/-- Erased cells. -/
def ones (n : ℕ) : List U8 := List.replicate n 0xFF

/-- So many cells are so many bytes. -/
theorem length_ones (n : ℕ) : (ones n).length = n := List.length_replicate

/-- Erased cells behind erased cells. -/
theorem ones_append (n k : ℕ) : ones n ++ ones k = ones (n + k) := List.replicate_append_replicate

/-- Erasing a page lays erased cells over it. -/
theorem apply_pageErase {base : U32} (hbase : base.toNat % 1024 = 0) (m : FlashMem) :
    (FlashOp.pageErase base).apply m = overlay m base (ones 1024) := by
  funext x
  simp only [FlashOp.apply, getPage_eq_iff hbase]
  split
  case isTrue hin =>
    rw [overlay_of_lt m (by rwa [length_ones])]
    exact (List.getElem_replicate _).symm
  case isFalse hout => rw [overlay_of_le m (by rw [length_ones]; omega)]

/-- Operations after operations. -/
theorem applyOps_append (m : FlashMem) (xs ys : List FlashOp) :
    applyOps m (xs ++ ys) = applyOps (applyOps m xs) ys := List.foldl_append

/-- The erase loop, stopped after any number of pages. -/
theorem applyOps_eraseLoop {limit base : U32} {n k : ℕ} (hbase : base.toNat % 1024 = 0)
    (hlimit : limit.toNat = base.toNat + n * 1024) (hk : k ≤ n) (m : FlashMem) :
    applyOps m ((eraseLoop limit n base).take k) = overlay m base (ones (k * 1024)) := by
  induction k generalizing n base m with
  | zero => rw [List.take_zero, Nat.zero_mul]; rfl
  | succ k ih =>
    obtain ⟨n, rfl⟩ : ∃ n', n = n' + 1 := ⟨n - 1, by omega⟩
    have hlt := limit.isLt
    have hgo : base < limit := by rw [BitVec.lt_def]; omega
    have hnext : (base + flashPageSize).toNat = base.toNat + 1024 := by
      rw [BitVec.toNat_add, show flashPageSize.toNat = 1024 from rfl, Nat.mod_eq_of_lt (by omega)]
    have hfirst : applyOps m (.pageErase base :: (eraseLoop limit n (base + flashPageSize)).take k) =
        applyOps (overlay m base (ones 1024)) ((eraseLoop limit n (base + flashPageSize)).take k) := by
      rw [← apply_pageErase hbase]
      rfl
    have hjoin := overlay_append m base (ones 1024) (ones (k * 1024)) (by rw [length_ones, length_ones]; omega)
    rw [length_ones, ones_append, show BitVec.ofNat 32 1024 = flashPageSize from rfl,
      show 1024 + k * 1024 = (k + 1) * 1024 by omega] at hjoin
    rw [eraseLoop, if_pos hgo, List.take_succ_cons, hfirst,
      ih (by omega) (by rw [hnext]; omega) (by omega), hjoin]

/-- The loop takes one operation a page. -/
theorem length_eraseLoop {limit base : U32} {n : ℕ} (hlimit : limit.toNat = base.toNat + n * 1024) :
    (eraseLoop limit n base).length = n := by
  induction n generalizing base with
  | zero => rfl
  | succ n ih =>
    have hlt := limit.isLt
    have hgo : base < limit := by rw [BitVec.lt_def]; omega
    have hnext : (base + flashPageSize).toNat = base.toNat + 1024 := by
      rw [BitVec.toNat_add, show flashPageSize.toNat = 1024 from rfl, Nat.mod_eq_of_lt (by omega)]
    rw [eraseLoop, if_pos hgo, List.length_cons, ih (by rw [hnext]; omega)]

/-- The pages that an erase of so many bytes erases. -/
def pages (size : ℕ) : ℕ := (size + 1023) / 1024

/-- A range of addresses that the driver accepts. -/
structure InFlash (addr size : U32) : Prop where
  range : addr.toNat + size.toNat ≤ 0x08020000

/-- A range in the flash passes the check of the driver. -/
theorem InFlash.check {addr size : U32} (h : InFlash addr size) : ¬ addr + size > stm32FlashEndAddress := by
  have hrange := h.range
  have hend : stm32FlashEndAddress.toNat = 0x08020000 := rfl
  rw [gt_iff_lt, BitVec.lt_def, BitVec.toNat_add, hend]
  omega

/-- The operations of an erase are the loop from the page of the address on. -/
theorem InFlash.eraseOps {addr size : U32} (h : InFlash addr size) :
    ∃ limit : U32, limit.toNat = (getPage addr).toNat + pages size.toNat * 1024 ∧
      (stm32FlashEraseAt addr size).ops = eraseLoop limit (pages size.toNat) (getPage addr) := by
  have hrange := h.range
  have hcount : ((size + flashPageSize - 1) / flashPageSize).toNat = pages size.toNat := by
    have hup : (size + flashPageSize - 1).toNat = size.toNat + 1023 := by
      simp only [BitVec.toNat_sub, BitVec.toNat_add, show flashPageSize.toNat = 1024 from rfl,
        show (1 : U32).toNat = 1 from rfl]
      omega
    rw [BitVec.toNat_udiv, hup]
    rfl
  refine ⟨(size + flashPageSize - 1) / flashPageSize * flashPageSize + getPage addr, ?_, ?_⟩
  · have hpages : pages size.toNat * 1024 ≤ size.toNat + 1023 := Nat.div_mul_le_self _ _
    have hpage := toNat_getPage addr
    rw [BitVec.toNat_add, BitVec.toNat_mul, hcount, show flashPageSize.toNat = 1024 from rfl]
    omega
  · simp only [stm32FlashEraseAt, if_neg h.check, halFlashExErase, hcount]

/-- A page begins at a multiple of its size. -/
theorem getPage_aligned (addr : U32) : (getPage addr).toNat % 1024 = 0 := by
  rw [toNat_getPage]
  omega

/-- **The erase**, cut off after any number of its operations. -/
theorem InFlash.erase {addr size : U32} (h : InFlash addr size) (m : FlashMem) {k : ℕ}
    (hk : k ≤ pages size.toNat) :
    applyOps m ((stm32FlashEraseAt addr size).ops.take k) = overlay m (getPage addr) (ones (k * 1024)) := by
  obtain ⟨limit, hlimit, hops⟩ := h.eraseOps
  rw [hops, applyOps_eraseLoop (getPage_aligned addr) hlimit hk]

/-- An erase takes one operation a page. -/
theorem InFlash.length_erase {addr size : U32} (h : InFlash addr size) :
    (stm32FlashEraseAt addr size).ops.length = pages size.toNat := by
  obtain ⟨limit, hlimit, hops⟩ := h.eraseOps
  rw [hops, length_eraseLoop hlimit]

/-! ## Writing -/

/-- The `n` cells from an address on are erased. -/
def Erased (m : FlashMem) (addr : U32) (n : ℕ) : Prop := ∀ i < n, m (addr + BitVec.ofNat 32 i) = 0xFF

/-- Part of an erased block is erased. -/
theorem Erased.mono {m : FlashMem} {addr : U32} {n k : ℕ} (h : Erased m addr n) (hk : k ≤ n) :
    Erased m addr k := fun i hi => h i (by omega)

/-- What is behind a block stays erased when the block is written. -/
theorem Erased.behind {m : FlashMem} {addr : U32} {n : ℕ} (xs : List U8) (h : Erased m addr (xs.length + n))
    (hn : xs.length + n ≤ 2 ^ 32) : Erased (overlay m addr xs) (addr + BitVec.ofNat 32 xs.length) n := by
  intro i hi
  have hcell : addr + BitVec.ofNat 32 xs.length + BitVec.ofNat 32 i = addr + BitVec.ofNat 32 (xs.length + i) := by
    rw [BitVec.add_assoc, ← BitVec.ofNat_add]
  rw [hcell, overlay_of_le m (by rw [offset_add_ofNat _ (by omega)]; omega)]
  exact h _ (by omega)

/-- An erased half-word reads as ones. -/
theorem Erased.halfWord {m : FlashMem} {addr : U32} (h : Erased m addr 2) : halfWordAt m addr = 0xFFFF := by
  have hlow : m addr = 0xFF := by simpa using h 0 (by omega)
  have hhigh : m (addr + 1) = 0xFF := h 1 (by omega)
  rw [halfWordAt, hlow, hhigh]
  rfl

/-- Programming an erased half-word lays its two bytes there. -/
theorem apply_program {m : FlashMem} {addr : U32} (h : Erased m addr 2) (lo hi : U8) :
    (FlashOp.programHalfWord addr (word16 hi lo)).apply m = overlay m addr [lo, hi] := by
  funext x
  rw [FlashOp.apply, if_pos (.inl h.halfWord), lowByte_word16, highByte_word16]
  by_cases hfirst : x = addr
  · have hoffset : offset addr x = 0 := by rw [hfirst, offset, BitVec.sub_self]; rfl
    rw [if_pos hfirst, overlay, hoffset]
    rfl
  · rw [if_neg hfirst]
    by_cases hsecond : x = addr + 1
    · have hoffset : offset addr x = 1 := by
        rw [hsecond]
        exact offset_add_ofNat addr (i := 1) (by omega)
      rw [if_pos hsecond, overlay, hoffset]
      rfl
    · have hmore : 2 ≤ offset addr x := by
        have hx := add_offset addr x
        by_contra hless
        rcases (by omega : offset addr x = 0 ∨ offset addr x = 1) with hzero | hone
        · rw [hzero] at hx
          exact hfirst (hx.symm.trans (BitVec.add_zero addr))
        · rw [hone] at hx
          exact hsecond hx.symm
      rw [if_neg hsecond, overlay_of_le m (by simpa using hmore)]

/-- The operations that write a block, half-word by half-word. -/
def halves : U32 → List U8 → List FlashOp
  | addr, lo :: hi :: rest => .programHalfWord addr (word16 hi lo) :: halves (addr + 2) rest
  | _, _ => []

/-- A block is half as many half-words as bytes. -/
theorem length_halves (addr : U32) (data : List U8) : (halves addr data).length = data.length / 2 := by
  induction addr, data using halves.induct with
  | case1 addr lo hi rest ih =>
    rw [halves, List.length_cons, ih, List.length_cons, List.length_cons]
    omega
  | case2 data addr hshort =>
    match data with
    | [] => rfl
    | [_] => simp [halves]
    | lo :: hi :: rest => exact (hshort lo hi rest rfl).elim

/-- **The write**, cut off after any number of its operations. -/
theorem applyOps_halves {m : FlashMem} {addr : U32} {data : List U8} (h : Erased m addr data.length)
    (hlen : data.length ≤ 2 ^ 32) (k : ℕ) (hk : 2 * k ≤ data.length) :
    applyOps m ((halves addr data).take k) = overlay m addr (data.take (2 * k)) := by
  induction addr, data using halves.induct generalizing m k with
  | case1 addr lo hi rest ih =>
    cases k with
    | zero => rfl
    | succ k =>
      simp only [List.length_cons] at h hlen hk
      have hbehind : Erased (overlay m addr [lo, hi]) (addr + 2) rest.length :=
        Erased.behind [lo, hi] (h.mono (by simp; omega)) (by simp; omega)
      have hjoin := overlay_append m addr [lo, hi] (rest.take (2 * k))
        (by simp only [List.length_cons, List.length_nil, List.length_take]; omega)
      rw [halves, List.take_succ_cons, show 2 * (k + 1) = 2 * k + 1 + 1 by omega, List.take_succ_cons,
        List.take_succ_cons]
      show applyOps ((FlashOp.programHalfWord addr (word16 hi lo)).apply m) _ = _
      rw [apply_program (h.mono (by omega)), ih hbehind (by omega) k (by omega)]
      exact hjoin
  | case2 data addr hshort =>
    match data with
    | [] => rw [show k = 0 by rw [List.length_nil] at hk; omega]; rfl
    | [_] => rw [show k = 0 by rw [List.length_singleton] at hk; omega]; rfl
    | lo :: hi :: rest => exact (hshort lo hi rest rfl).elim

/-! ## Words -/

/-- The low half of a word made of two. -/
theorem low_of_words (hi lo : U16) : (hi.setWidth 32 <<< 16 ||| lo.setWidth 32).setWidth 16 = lo := by
  apply BitVec.eq_of_getLsbD_eq
  intro i hi
  simp [hi]

/-- The high half of a word made of two. -/
theorem high_of_words (hi lo : U16) : ((hi.setWidth 32 <<< 16 ||| lo.setWidth 32) >>> 16).setWidth 16 = hi := by
  apply BitVec.eq_of_getLsbD_eq
  intro i hlt
  simp [hlt, show 16 + i < 32 by omega]

variable {m : FlashMem} {addr : U32} (b₀ b₁ b₂ b₃ : U8) (rest : List U8)

/-- A word goes into four erased cells, and is read back. -/
theorem program_word (h : Erased m addr 4) :
    halFlashProgram addr (bufWord (b₀ :: b₁ :: b₂ :: b₃ :: rest)) m = ⟨true, halves addr [b₀, b₁, b₂, b₃]⟩ ∧
      applyOps m (halves addr [b₀, b₁, b₂, b₃]) = overlay m addr [b₀, b₁, b₂, b₃] ∧
      flashWord (overlay m addr [b₀, b₁, b₂, b₃]) addr = bufWord (b₀ :: b₁ :: b₂ :: b₃ :: rest) := by
  have hword : bufWord (b₀ :: b₁ :: b₂ :: b₃ :: rest) =
      (word16 b₃ b₂).setWidth 32 <<< 16 ||| (word16 b₁ b₀).setWidth 32 := rfl
  have hfirst : Erased m addr 2 := h.mono (by omega)
  have hbehind : Erased (overlay m addr [b₀, b₁]) (addr + 2) 2 :=
    Erased.behind [b₀, b₁] h (by simp)
  have hall := applyOps_halves (show Erased m addr [b₀, b₁, b₂, b₃].length from h) (by simp) 2 (by simp)
  have haccept : (FlashOp.programHalfWord addr (word16 b₁ b₀)).accepted m = true :=
    decide_eq_true (.inl hfirst.halfWord)
  have haccept' : (FlashOp.programHalfWord (addr + 2) (word16 b₃ b₂)).accepted (overlay m addr [b₀, b₁]) = true :=
    decide_eq_true (.inl hbehind.halfWord)
  refine ⟨?_, hall, ?_⟩
  · simp only [halFlashProgram, hword, low_of_words, high_of_words, haccept, if_true, apply_program hfirst, haccept']
    rfl
  · have hcell : ∀ i : Fin 4, overlay m addr [b₀, b₁, b₂, b₃] (addr + BitVec.ofNat 32 i) = [b₀, b₁, b₂, b₃].get i := by
      intro i
      have hoffset : offset addr (addr + BitVec.ofNat 32 i) = i := offset_add_ofNat addr (by omega)
      rw [overlay, hoffset, List.getD_eq_getElem _ _ i.isLt]
      rfl
    have h0 : overlay m addr [b₀, b₁, b₂, b₃] addr = b₀ := by simpa using hcell 0
    have h1 : overlay m addr [b₀, b₁, b₂, b₃] (addr + 1) = b₁ := hcell 1
    have h2 : overlay m addr [b₀, b₁, b₂, b₃] (addr + 2) = b₂ := hcell 2
    have h3 : overlay m addr [b₀, b₁, b₂, b₃] (addr + 2 + 1) = b₃ := by
      rw [BitVec.add_assoc]
      exact hcell 3
    rw [flashWord, halfWordAt, halfWordAt, h0, h1, h2, h3, hword]

/-- The operations of a block are those of its first word and of the rest. -/
theorem halves_append_word : halves addr (b₀ :: b₁ :: b₂ :: b₃ :: rest) =
    halves addr [b₀, b₁, b₂, b₃] ++ halves (addr + 4) rest := by
  simp only [halves, List.cons_append, List.nil_append, BitVec.add_assoc]
  rfl

/-- The loop writes every word, if the cells are erased. -/
theorem writeLoop_eq {n rounds : ℕ} {data : List U8} (hlen : data.length = 4 * n)
    (hrange : addr.toNat + 4 * n < 2 ^ 32) (h : Erased m addr (4 * n)) (hrounds : n < rounds) :
    writeLoop (addr + BitVec.ofNat 32 (4 * n)) rounds addr data m = ⟨true, halves addr data⟩ := by
  induction n generalizing addr data m rounds with
  | zero =>
    obtain rfl : data = [] := List.length_eq_zero_iff.mp (by omega)
    obtain ⟨rounds, rfl⟩ : ∃ r, rounds = r + 1 := ⟨rounds - 1, by omega⟩
    have hdone : ¬ addr < addr + BitVec.ofNat 32 (4 * 0) := by
      rw [BitVec.lt_def, BitVec.toNat_add, BitVec.toNat_ofNat]
      omega
    rw [writeLoop, if_neg hdone]
    rfl
  | succ n ih =>
    obtain ⟨rounds, rfl⟩ : ∃ r, rounds = r + 1 := ⟨rounds - 1, by omega⟩
    match data, hlen with
    | b₀ :: b₁ :: b₂ :: b₃ :: rest, hlen =>
      have hgo : addr < addr + BitVec.ofNat 32 (4 * (n + 1)) := by
        rw [BitVec.lt_def, BitVec.toNat_add, BitVec.toNat_ofNat]
        omega
      have hend : addr + BitVec.ofNat 32 (4 * (n + 1)) = addr + 4 + BitVec.ofNat 32 (4 * n) := by
        rw [BitVec.add_assoc, show (4 : U32) = BitVec.ofNat 32 4 from rfl, ← BitVec.ofNat_add]
        congr 2
        omega
      have hnext : (addr + 4).toNat = addr.toNat + 4 := by
        rw [BitVec.toNat_add, show (4 : U32).toNat = 4 from rfl, Nat.mod_eq_of_lt (by omega)]
      have hbehind : Erased (overlay m addr [b₀, b₁, b₂, b₃]) (addr + 4) (4 * n) :=
        Erased.behind [b₀, b₁, b₂, b₃] (h.mono (by simp; omega)) (by simp; omega)
      obtain ⟨hprogram, hcells, hback⟩ := program_word b₀ b₁ b₂ b₃ rest (h.mono (by omega))
      have hrest : writeLoop (addr + 4 + BitVec.ofNat 32 (4 * n)) rounds (addr + 4) rest
          (overlay m addr [b₀, b₁, b₂, b₃]) = ⟨true, halves (addr + 4) rest⟩ :=
        ih (by simp only [List.length_cons] at hlen; omega) (by omega) hbehind (by omega)
      rw [writeLoop, if_pos hgo, halves_append_word]
      simp only [hprogram, hcells, hback, and_self, if_true, List.drop_succ_cons, List.drop_zero, hend, hrest]

/-! ## Saving -/

/-- The erase reaches to the end of the range. -/
def Covered (addr size : U32) : Prop := addr.toNat % 1024 + size.toNat ≤ pages size.toNat * 1024

instance (addr size : U32) : Decidable (Covered addr size) := inferInstanceAs (Decidable (_ ≤ _))

/-- A range that the driver can save whole words to. -/
structure Saveable (addr size : U32) : Prop extends InFlash addr size where
  aligned : addr.toNat % 4 = 0
  words : size.toNat % 4 = 0
  covered : Covered addr size

/-- Where an address lies in its page. -/
theorem offset_getPage (addr : U32) : offset (getPage addr) addr = addr.toNat % 1024 := by
  have hpage := toNat_getPage addr
  have hlt := addr.isLt
  rw [offset, BitVec.toNat_sub, hpage]
  omega

/-- Where a cell of the range lies in its pages. -/
theorem InFlash.offset_cell {size : U32} (h : InFlash addr size) {i : ℕ} (hi : i < size.toNat) :
    offset (getPage addr) (addr + BitVec.ofNat 32 i) = addr.toNat % 1024 + i := by
  have hrange := h.range
  have hbase : addr = getPage addr + BitVec.ofNat 32 (addr.toNat % 1024) := by
    rw [← offset_getPage, add_offset]
  have hcell : addr + BitVec.ofNat 32 i = getPage addr + BitVec.ofNat 32 (addr.toNat % 1024 + i) := by
    rw [BitVec.ofNat_add, ← BitVec.add_assoc, ← hbase]
  rw [hcell, offset_add_ofNat _ (by omega)]

/-- After the erase the whole range is erased. -/
theorem Saveable.erased {size : U32} (h : Saveable addr size) (m : FlashMem) :
    Erased (overlay m (getPage addr) (ones (pages size.toNat * 1024))) addr size.toNat := by
  intro i hi
  have hcovered : addr.toNat % 1024 + size.toNat ≤ pages size.toNat * 1024 := h.covered
  have hoffset := h.toInFlash.offset_cell hi
  have hin : offset (getPage addr) (addr + BitVec.ofNat 32 i) < (ones (pages size.toNat * 1024)).length := by
    rw [hoffset, length_ones]
    omega
  rw [overlay_of_lt m hin]
  exact List.getElem_replicate _

/-- On an erased range the write programs every half-word and reports the size. -/
theorem Saveable.write {size : U32} (h : Saveable addr size) {data : List U8} (hlen : data.length = size.toNat)
    (herased : Erased m addr size.toNat) :
    stm32FlashWriteAt addr data size m = ⟨.size size, halves addr data⟩ := by
  have hrange := h.range
  have hwords := h.words
  have hsize : size.toNat = 4 * (size.toNat / 4) := by omega
  have haligned : ¬ addr % 4 ≠ 0 := by
    rw [ne_eq, not_not, ← BitVec.toNat_inj, BitVec.toNat_umod]
    exact h.aligned
  have hend : addr + size = addr + BitVec.ofNat 32 (4 * (size.toNat / 4)) := by
    rw [← hsize, BitVec.ofNat_toNat, BitVec.setWidth_eq]
  have hloop : writeLoop (addr + BitVec.ofNat 32 (4 * (size.toNat / 4))) (size.toNat / 4 + 1) addr data m =
      ⟨true, halves addr data⟩ :=
    writeLoop_eq (hlen.trans hsize) (by omega) (hsize ▸ herased) (Nat.lt_succ_self _)
  rw [stm32FlashWriteAt, if_neg haligned, if_neg h.toInFlash.check]
  simp only [hend, hloop, if_true]

/-- The operations of a save: the pages, then the half-words. -/
theorem Saveable.ops {size : U32} (h : Saveable addr size) {data : List U8} (hlen : data.length = size.toNat)
    (m : FlashMem) :
    setDataToFlahAt addr data size m = (stm32FlashEraseAt addr size).ops ++ halves addr data := by
  have hall := h.toInFlash.erase m (Nat.le_refl _)
  rw [← h.toInFlash.length_erase, List.take_length, h.toInFlash.length_erase] at hall
  rw [setDataToFlahAt, hall, h.write hlen (h.erased m)]

/-- The memory after a power cut in the write of a save. -/
theorem Saveable.cut {size : U32} (h : Saveable addr size) {data : List U8} (hlen : data.length = size.toNat)
    (m : FlashMem) (j : ℕ) :
    applyOps m ((setDataToFlahAt addr data size m).take (pages size.toNat + j)) =
      overlay (overlay m (getPage addr) (ones (pages size.toNat * 1024))) addr (data.take (2 * j)) := by
  have herase := h.toInFlash.erase m (Nat.le_refl _)
  have hcount := h.toInFlash.length_erase
  rw [← hcount, List.take_length, hcount] at herase
  have herased : Erased (overlay m (getPage addr) (ones (pages size.toNat * 1024))) addr data.length := by
    rw [hlen]
    exact h.erased m
  have hwords := h.words
  have hfew := applyOps_halves herased (by have := size.isLt; omega) (min j (data.length / 2)) (by omega)
  have hops : (halves addr data).take (min j (data.length / 2)) = (halves addr data).take j := by
    rw [← length_halves addr data, ← List.take_eq_take_min]
  have hdata : data.take (2 * min j (data.length / 2)) = data.take (2 * j) := by
    rw [List.take_eq_take_iff]
    omega
  rw [hops, hdata] at hfew
  rw [h.ops hlen, ← hcount, List.take_length_add_append, applyOps_append, herase, hcount, hfew]

/-- What is read of cells that hold a part of the data and are erased behind it. -/
theorem getDataFromFlashAt_overlay {size : U32} (h : InFlash addr size) {data : List U8}
    (hlen : data.length ≤ size.toNat) (herased : Erased m addr size.toNat) :
    getDataFromFlashAt addr size (overlay m addr data) = data ++ ones (size.toNat - data.length) := by
  rw [getDataFromFlashAt, stm32FlashRead, if_neg h.check]
  refine List.ext_getElem (by simp [length_ones]; omega) fun i hi hi' => ?_
  have hi : i < size.toNat := by simpa using hi
  have hoffset : offset addr (addr + BitVec.ofNat 32 i) = i := offset_add_ofNat addr (by have := size.isLt; omega)
  simp only [List.getElem_map, List.getElem_range, overlay, hoffset]
  by_cases hin : i < data.length
  · rw [List.getD_eq_getElem _ _ hin, List.getElem_append_left hin]
  · rw [List.getD_eq_default _ _ (by omega), List.getElem_append_right (by omega), herased i hi]
    exact (List.getElem_replicate _).symm

/-- What a save that is cut off, or not, leaves outside its pages. -/
theorem Saveable.frame {size : U32} (h : Saveable addr size) {data : List U8} (hlen : data.length = size.toNat)
    (m : FlashMem) (k : ℕ) {x : U32} (hx : pages size.toNat * 1024 ≤ offset (getPage addr) x) :
    applyOps m ((setDataToFlahAt addr data size m).take k) x = m x := by
  by_cases hk : k ≤ pages size.toNat
  · have hfirst : k ≤ (stm32FlashEraseAt addr size).ops.length := by rwa [h.toInFlash.length_erase]
    have hless : k * 1024 ≤ pages size.toNat * 1024 := Nat.mul_le_mul_right 1024 hk
    have hout : (ones (k * 1024)).length ≤ offset (getPage addr) x :=
      (length_ones (k * 1024)).trans_le (hless.trans hx)
    rw [h.ops hlen, List.take_append_of_le_length hfirst, h.toInFlash.erase m hk, overlay_of_le m hout]
  · obtain ⟨j, rfl⟩ : ∃ j, k = pages size.toNat + j := ⟨k - pages size.toNat, by omega⟩
    have hcovered : addr.toNat % 1024 + size.toNat ≤ pages size.toNat * 1024 := h.covered
    have hbehind : (data.take (2 * j)).length ≤ offset addr x := by
      have hbase : addr = getPage addr + BitVec.ofNat 32 (addr.toNat % 1024) := by
        rw [← offset_getPage, add_offset]
      have hoffset := offset_add_base (getPage addr) x (n := addr.toNat % 1024) (by omega)
      rw [← hbase, if_pos (by omega)] at hoffset
      rw [hoffset, List.length_take]
      omega
    rw [h.cut hlen, overlay_of_le _ hbehind, overlay_of_le m (by rw [length_ones]; omega)]

/-- **A save that is cut off.** For every range of whole words that the erase covers, every record and every
content of the memory: whenever the power fails, the cells outside the erased pages hold what they held;
once the pages are erased, the record reads as its beginning, as many half-words as were programmed, and ones
behind it, and as the whole of it when the save is done.
SOURCE: drv_flash_f1.c:49-246, module.c:222-231, stm32f1xx_hal_flash.c:168-251, stm32f1xx_hal_flash_ex.c:277-297 -/
theorem flash_torn (addr size : U32) (data : List U8) (m : FlashMem) (h : Saveable addr size)
    (hlen : data.length = size.toNat) (k : ℕ) :
    let cut := applyOps m ((setDataToFlahAt addr data size m).take k)
    (∀ x, pages size.toNat * 1024 ≤ offset (getPage addr) x → cut x = m x) ∧
      (pages size.toNat ≤ k → getDataFromFlashAt addr size cut =
        data.take (2 * (k - pages size.toNat)) ++ ones (size.toNat - 2 * (k - pages size.toNat))) ∧
      ((setDataToFlahAt addr data size m).length ≤ k → getDataFromFlashAt addr size cut = data) := by
  have hread : ∀ j, getDataFromFlashAt addr size
      (applyOps m ((setDataToFlahAt addr data size m).take (pages size.toNat + j))) =
        data.take (2 * j) ++ ones (size.toNat - 2 * j) := fun j => by
    rw [h.cut hlen, getDataFromFlashAt_overlay h.toInFlash (by rw [List.length_take]; omega) (h.erased m),
      List.length_take]
    congr 2
    omega
  refine ⟨fun x hx => h.frame hlen m k hx, fun hk => ?_, fun hk => ?_⟩
  · have hcut := hread (k - pages size.toNat)
    rwa [Nat.add_sub_cancel' hk] at hcut
  · rw [h.ops hlen, List.length_append, length_halves, h.toInFlash.length_erase, hlen] at hk
    have hwords := h.words
    have hcut := hread (k - pages size.toNat)
    have hwhole : data.take (2 * (k - pages size.toNat)) = data := List.take_of_length_le (by omega)
    rw [Nat.add_sub_cancel' (by omega), hwhole, show size.toNat - 2 * (k - pages size.toNat) = 0 by omega] at hcut
    rw [hcut]
    exact List.append_nil data

/-- **What an erase reaches.** For every range of the memory that is not empty: whatever its cells held, all of
them are erased afterwards, if and only if the range, counted from the beginning of its first page, is no
longer than the pages its size is rounded up to.
SOURCE: drv_flash_f1.c:32-37, 138-173 -/
theorem flash_erase_covers_iff (addr size : U32) (h : InFlash addr size) (hsize : 0 < size.toNat) :
    (∀ m, Erased (applyOps m (stm32FlashEraseAt addr size).ops) addr size.toNat) ↔ Covered addr size := by
  have herase : ∀ m, applyOps m (stm32FlashEraseAt addr size).ops =
      overlay m (getPage addr) (ones (pages size.toNat * 1024)) := fun m => by
    have hall := h.erase m (Nat.le_refl _)
    rwa [← h.length_erase, List.take_length, h.length_erase] at hall
  simp only [herase]
  constructor
  · intro hall
    by_contra hshort
    have hlast := hall (fun _ => 0) (size.toNat - 1) (by omega)
    have hoffset := h.offset_cell (i := size.toNat - 1) (by omega)
    rw [Covered] at hshort
    rw [overlay_of_le _ (by rw [hoffset, length_ones]; omega)] at hlast
    exact absurd hlast (by decide)
  · intro hcovered m i hi
    have hin : offset (getPage addr) (addr + BitVec.ofNat 32 i) < (ones (pages size.toNat * 1024)).length := by
      rw [Covered] at hcovered
      rw [h.offset_cell hi, length_ones]
      omega
    rw [overlay_of_lt m hin]
    exact List.getElem_replicate _

/-- The record of the firmware. -/
theorem saveable_dataBlock : Saveable dataBlockStart 12 :=
  { range := by decide, aligned := by decide, words := by decide, covered := by decide }

/-- The record, with the power gone after its first two half-words. -/
theorem flash_torn_record :
    let data : List U8 := [0x12, 0x34, 0x05, 0x32, 0x02, 0x01, 0x56, 0x78, 0x00, 0xE0, 0x01, 0x00]
    let cut := applyOps (fun _ => 0) ((setDataToFlahAt dataBlockStart data 12 fun _ => 0).take 3)
    Saveable dataBlockStart 12 ∧ data.length = (12 : U32).toNat ∧
      getDataFromFlashAt dataBlockStart 12 cut = [0x12, 0x34, 0x05, 0x32] ++ ones 8 := by
  have hlen : [0x12, 0x34, 0x05, 0x32, 0x02, 0x01, 0x56, 0x78, 0x00, 0xE0, 0x01, (0x00 : U8)].length =
    (12 : U32).toNat := rfl
  exact ⟨saveable_dataBlock, hlen, (flash_torn dataBlockStart 12 _ _ saveable_dataBlock hlen 3).2.1 (by decide)⟩

/-- Eight bytes across the end of a page: the second page is not erased. -/
theorem flash_erase_covers_crossing :
    InFlash 0x080003FC 8 ∧ ¬ ∀ m, Erased (applyOps m (stm32FlashEraseAt 0x080003FC 8).ops) 0x080003FC 8 := by
  have hin : InFlash 0x080003FC 8 := ⟨by decide⟩
  refine ⟨hin, fun hall => ?_⟩
  have hcovered : Covered 0x080003FC 8 := (flash_erase_covers_iff 0x080003FC 8 hin (by decide)).mp hall
  exact absurd hcovered (by decide)

/-! ## The flash memory under the firmware -/

/-- The records that observations say were saved. -/
def saved (out : List Obs) : List FlashPage :=
  out.filterMap fun
    | .flashWrite image => some image
    | _ => none

/-- A memory after the driver has saved some records in it. -/
def onDevice (m : FlashMem) (images : List FlashPage) : FlashMem :=
  images.foldl (fun m image => applyOps m (setDataToFlahAt dataBlockStart image.toList 12 m)) m

/-- The memory holds this record. -/
def Reads (m : FlashMem) (page : FlashPage) : Prop := getDataFromFlashAt dataBlockStart 12 m = page.toList

/-- Two memories that differ in the page of the record at most. -/
def SameElsewhere (m m' : FlashMem) : Prop := ∀ x, 1024 ≤ offset dataBlockStart x → m' x = m x

/-- One save. -/
theorem reads_save (m : FlashMem) (image : FlashPage) :
    Reads (applyOps m (setDataToFlahAt dataBlockStart image.toList 12 m)) image ∧
      SameElsewhere m (applyOps m (setDataToFlahAt dataBlockStart image.toList 12 m)) := by
  have hlen : image.toList.length = (12 : U32).toNat := image.length_toList
  have hops := saveable_dataBlock.cut hlen m 6
  have hcount : (setDataToFlahAt dataBlockStart image.toList 12 m).length = pages 12 + 6 := by
    rw [saveable_dataBlock.ops hlen, List.length_append, length_halves, hlen,
      saveable_dataBlock.toInFlash.length_erase]
    rfl
  have hall : (setDataToFlahAt dataBlockStart image.toList 12 m).take (pages 12 + 6) =
      setDataToFlahAt dataBlockStart image.toList 12 m := by rw [← hcount, List.take_length]
  rw [show (12 : U32).toNat = 12 from rfl, hall, List.take_of_length_le (by rw [hlen]; decide)] at hops
  constructor
  · have hread := getDataFromFlashAt_overlay saveable_dataBlock.toInFlash (Nat.le_of_eq hlen)
      (saveable_dataBlock.erased m)
    rw [Reads, hops]
    rw [hlen, Nat.sub_self] at hread
    exact hread.trans (List.append_nil _)
  · intro x hx
    have hframe := saveable_dataBlock.frame hlen m (pages 12 + 6) (x := x) hx
    rwa [hall] at hframe

/-- Any number of saves, from a memory that holds a record. -/
theorem reads_saves {m : FlashMem} {page : FlashPage} (h : Reads m page) (images : List FlashPage) :
    Reads (onDevice m images) (images.getLast?.getD page) ∧ SameElsewhere m (onDevice m images) := by
  induction images using List.reverseRecOn with
  | nil => exact ⟨h, fun _ _ => rfl⟩
  | append_singleton images image ih =>
    rw [List.getLast?_concat, onDevice, List.foldl_append]
    obtain ⟨hreads, hsame⟩ := reads_save (onDevice m images) image
    exact ⟨hreads, fun x hx => (hsame x hx).trans (ih.2 x hx)⟩

/-- A command after which the flash page of the model is the last record it says it saved. -/
def Records (c : FwCmd) : Prop := ∀ s, (c s).1.flash = (saved (c s).2).getLast?.getD s.flash

/-- An observation other than a write of the flash. -/
def NoSave : Obs → Prop
  | .flashWrite _ => False
  | _ => True

/-- Code that keeps the flash page and saves nothing records what it saves. -/
theorem records_of_none {c : FwCmd} (hkeeps : Cmd.Keeps Firmware.flash c) (hemits : Cmd.Emits NoSave c) :
    Records c := by
  intro s
  have hnone : saved (c s).2 = [] := by
    refine List.filterMap_eq_nil_iff.mpr fun o ho => ?_
    cases o with
    | flashWrite image => exact (hemits s _ ho).elim
    | _ => rfl
  rw [hnone]
  exact hkeeps s

/-- The save records what it writes. -/
theorem records_saveFlash : Records saveFlash := by
  intro s
  unfold saveFlash
  split
  · rw [setDataToFlah_eq]
    rfl
  · rfl

/-- Every action of an iteration records what it writes. -/
theorem records_uartIteration (id : U32) (pin : U8) (heap : Heap) :
    (uartIteration id pin heap).All Records := by
  have hpin : ∀ p level, NoSave (.pin p level) := fun _ _ => trivial
  have huart1 : ∀ bytes, NoSave (.uart1Tx bytes) := fun _ => trivial
  have huart2 : ∀ bytes, NoSave (.uart2Tx bytes) := fun _ => trivial
  have hmodify : ∀ f : Firmware → Firmware, (∀ s, (f s).flash = s.flash) → Records (Cmd.modify f) :=
    fun f hf => records_of_none hf (Cmd.emits_modify f)
  have hemit : ∀ f : Firmware → Obs, (∀ s, NoSave (f s)) → Records (Cmd.emit fun s => [f s]) :=
    fun f hf => records_of_none (fun _ => rfl) (Cmd.emits_emit hf)
  have hback : Records writeBack := records_of_none (fun _ => rfl) (emits_writeBack fun _ => trivial)
  have hpoll : Records (pollUart1 id heap) := by
    refine records_of_none (fun s => ?_) (kinds_pollUart1 (fun _ _ => trivial) (fun _ _ => trivial)
      (kinds_analyzeMasterData hpin huart1) id heap)
    obtain ⟨addr, hvital⟩ := vital_pollUart1 id heap s
    exact congrArg Vital.flash hvital
  have hreplies : uart2Replies.All Records :=
    all_replyActions (hmodify _ fun _ => rfl) (hmodify _ fun _ => rfl) (fun _ => hmodify _ fun _ => rfl) hback
      (records_of_none (fun _ => rfl) fun _ => emits_singleton trivial)
      (fun _ _ => hemit _ fun _ => trivial) (hmodify _ fun _ => rfl)
  have hsend : sendEvent.All Records :=
    all_sendActions (fun _ => hemit _ fun _ => trivial)
      (records_of_none (keeps_onTest fun _ _ _ _ => rfl) (kinds_onTest huart2))
      (records_of_none (keeps_offTest fun _ _ _ _ => rfl) (kinds_offTest huart2))
      (hmodify _ fun _ => rfl) hback
  have htick : (tick1s id).All Records :=
    ⟨⟨hmodify _ fun _ => rfl, ⟨⟨hemit _ fun _ => trivial, hsend⟩, trivial⟩,
      records_of_none (keeps_lights fun _ _ => rfl) (kinds_lights hpin),
      records_of_none (keeps_startRegister (fun _ _ => rfl) id) (kinds_startRegister hpin huart1 id),
      records_of_none (keeps_monitorConnect fun _ _ _ => rfl) kinds_monitorConnect,
      records_of_none (keeps_sendThreeTimes (fun _ _ _ _ => rfl) fun _ _ _ => rfl)
        (kinds_sendThreeTimes huart2 trivial), trivial⟩, trivial⟩
  exact ⟨hmodify _ fun _ => rfl,
    records_of_none (keeps_checkIo (fun _ _ _ _ => rfl) (fun _ _ => rfl) pin) (kinds_checkIo huart2 pin),
    hpoll, hreplies, records_saveFlash,
    records_of_none (keeps_tick100ms fun _ _ _ _ => rfl) (kinds_tick100ms hpin), htick,
    records_of_none (keeps_tick5s fun _ _ => rfl) kinds_tick5s,
    records_of_none (keeps_tick10s id) (kinds_tick10s hpin huart1 id), trivial⟩

/-- The other threads write no flash. -/
theorem records_peerStep (p : Peer) : Records (peerStep p) := by
  have hkeeps : Cmd.Keeps Firmware.flash (peerStep p) := fun s => by
    have hcore := congrArg Firmware.flash (core_peerStep p s)
    exact hcore
  exact records_of_none hkeeps (kinds_peerStep (fun _ => trivial) (fun _ => trivial) (fun _ => trivial) p)

/-- The records saved in two parts. -/
theorem saved_append (xs ys : List Obs) : saved (xs ++ ys) = saved xs ++ saved ys := List.filterMap_append

/-- **One step** of the threads. -/
theorem records_step (chip : Chip) {t : Threads} (h : t.rest.All Records) (i : ThreadInput) :
    (threads chip i t).1.rest.All Records ∧
      (threads chip i t).1.fw.flash = (saved (threads chip i t).2).getLast?.getD t.fw.flash := by
  cases i with
  | peer p => exact ⟨h, records_peerStep p t.fw⟩
  | start pin heap =>
    rcases threads_start chip pin heap t with ⟨-, hstart⟩ | hstart
    · rw [hstart]
      exact ⟨records_uartIteration _ pin heap, rfl⟩
    · rw [hstart]
      exact ⟨h, rfl⟩
  | action =>
    obtain ⟨hstep, hrest⟩ := h.next t.fw
    refine ⟨hrest, ?_⟩
    show (t.rest.next t.fw).1.1.flash = (saved (t.rest.next t.fw).1.2).getLast?.getD t.fw.flash
    rcases hstep with hstep | ⟨c, hc, hstep⟩
    · rw [hstep]
      rfl
    · rw [hstep]
      exact hc t.fw

/-- What a run says it saved last is in the flash page of the model. -/
theorem records_run (chip : Chip) {t : Threads} (h : t.rest.All Records) (inputs : List ThreadInput) :
    (run (threads chip) t inputs).rest.All Records ∧
      (run (threads chip) t inputs).fw.flash =
        (saved (emitted (threads chip) t inputs)).getLast?.getD t.fw.flash := by
  induction inputs generalizing t with
  | nil => exact ⟨h, rfl⟩
  | cons i inputs ih =>
    obtain ⟨hrest, hflash⟩ := records_step chip h i
    obtain ⟨hend, hlast⟩ := ih hrest
    refine ⟨hend, ?_⟩
    rw [run_cons, hlast, hflash, emitted_cons, saved_append, List.getLast?_append]
    cases (saved (emitted (threads chip) (threads chip i t).1 inputs)).getLast? with
    | none => rfl
    | some image => rfl

/-- **The record under every run.** The threads run from power-on, in any order, over a flash memory that holds the
record they were started with, and the driver carries out their saves. The record in the memory is at every
time the one that the model has, and no other page of the memory is ever changed: the program itself
lies there.
SOURCE: Uart.c:228-232, 383-391, module.c:222-231, drv_flash_f1.c:49-246 -/
theorem flash_run (chip : Chip) (flash : FlashPage) (beyond : Vector U8 10) (m : FlashMem) (h : Reads m flash)
    (inputs : List ThreadInput) :
    let m' := onDevice m (saved (emitted (threads chip) ⟨boot flash beyond, .skip⟩ inputs))
    Reads m' (run (threads chip) ⟨boot flash beyond, .skip⟩ inputs).fw.flash ∧ SameElsewhere m m' := by
  intro m'
  have hrecords := records_run chip (t := ⟨boot flash beyond, .skip⟩) trivial inputs
  rw [hrecords.2]
  exact reads_saves h _

/-- Power-on over an erased memory, and one iteration. -/
theorem flash_run_erased :
    Reads (fun _ => 0xFF) (Vector.replicate 12 0xFF) ∧
      let inputs : List ThreadInput := .start 1 Heap.ample :: List.replicate 20 .action
      let t : Threads := ⟨boot (Vector.replicate 12 0xFF) (Vector.replicate 10 0), .skip⟩
      Reads (onDevice (fun _ => 0xFF) (saved (emitted (threads ⟨0, 0, 0⟩) t inputs)))
        (run (threads ⟨0, 0, 0⟩) t inputs).fw.flash := by
  have hreads : Reads (fun _ => 0xFF) (Vector.replicate 12 0xFF) := by
    rw [Reads]
    decide +kernel
  exact ⟨hreads, (flash_run ⟨0, 0, 0⟩ _ (Vector.replicate 10 0) _ hreads _).1⟩

end InfraredModule.Analysis
