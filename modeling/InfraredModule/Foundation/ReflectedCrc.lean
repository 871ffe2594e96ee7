import Mathlib.Algebra.BigOperators.Fin
import Mathlib.Algebra.BigOperators.Intervals
import Mathlib.Algebra.Field.ZMod
import Mathlib.Tactic.Ring

/-!
# Reflected cyclic redundancy checks

A reflected check register of width `w` holds the remainder with its lowest bit
first in line: one shift moves the register down a place and adds the feedback word
when a set bit falls out. Everything here is about an arbitrary width and feedback
word, so it serves any check of this family.

* `shift_xor`: a shift is linear over exclusive or, so a register fed a message and
  an error pattern is the sum of the two registers (`feedBits_xor`).
* `iterate_shift_xor_ofBits`: adding a whole word to the register and then shifting is
  the same as feeding the word's bits one by one, lowest first.
* `tableByte_eq_feedByte`: eight shifts at once, with those of the lowest byte from a table.
* `shift_injective`: with a set top bit in the feedback word no shift forgets anything.
* the three detection rules: an odd number of set bits (`parity_feedBits`), two set bits
  (`feedBits_two_ne_zero`) and a window no longer than the register
  (`feedBits_window_ne_zero`) never leave the zero register.
-/

set_option autoImplicit false

namespace InfraredModule.Foundation.ReflectedCrc

variable {w : ℕ}

/-- One shift of the register: the lowest bit falls out, and the feedback word is added
when that bit was set. -/
def shift (poly s : BitVec w) : BitVec w :=
  if s.getLsbD 0 then (s >>> 1) ^^^ poly else s >>> 1

/-- A bit as the lowest of a register. -/
def bitWord (b : Bool) : BitVec w := if b then 1#w else 0#w

/-- Feed one message bit: add it at the low end and shift. -/
def feed (poly s : BitVec w) (b : Bool) : BitVec w := shift poly (s ^^^ bitWord b)

/-- A register after a sequence of bits. -/
def feedBits (poly s : BitVec w) (bits : List Bool) : BitVec w := bits.foldl (feed poly) s

/-- The bits of a word, lowest first: the order in which they stand on the line. -/
def lineBits {n : ℕ} (x : BitVec n) : List Bool := List.ofFn fun i : Fin n => x.getLsbD i

/-- The bits of some bytes, in the order they are sent. -/
def lineBitsOf (bytes : List (BitVec 8)) : List Bool := bytes.flatMap lineBits

/-- Feed one byte the way a register loop does: add it whole, then shift eight times. -/
def feedByte (poly s : BitVec w) (b : BitVec 8) : BitVec w :=
  (shift poly)^[8] (s ^^^ b.setWidth w)

/-! ## Linearity -/

/-- A register of zeros stays one. -/
@[simp] theorem shift_zero (poly : BitVec w) : shift poly 0#w = 0#w := by
  simp [shift]

/-- A shift is linear. -/
theorem shift_xor (poly s t : BitVec w) :
    shift poly (s ^^^ t) = shift poly s ^^^ shift poly t := by
  unfold shift
  simp only [BitVec.getLsbD_xor, BitVec.ushiftRight_xor_distrib]
  apply BitVec.eq_of_getLsbD_eq
  intro i _
  -- the feedback word is added by neither, one or both of the two registers
  cases s.getLsbD 0 <;> cases t.getLsbD 0 <;>
    simp only [Bool.xor_false, Bool.xor_true, Bool.not_false, Bool.not_true,
      Bool.false_eq_true, if_true, if_false, BitVec.getLsbD_xor] <;>
    cases (s >>> 1).getLsbD i <;> cases (t >>> 1).getLsbD i <;> cases poly.getLsbD i <;> rfl

/-- The word of a sum of bits. -/
theorem bitWord_xor (a b : Bool) : (bitWord (a ^^ b) : BitVec w) = bitWord a ^^^ bitWord b := by
  cases a <;> cases b <;> simp [bitWord]

/-- A step is linear in the register and in the bit. -/
theorem feed_xor (poly s t : BitVec w) (a b : Bool) :
    feed poly (s ^^^ t) (a ^^ b) = feed poly s a ^^^ feed poly t b := by
  rw [feed, feed, feed, ← shift_xor, bitWord_xor]
  congr 1
  rw [BitVec.xor_assoc, BitVec.xor_assoc, ← BitVec.xor_assoc t, BitVec.xor_comm t,
    BitVec.xor_assoc]

/-- No bit, no change. -/
@[simp] theorem feedBits_nil (poly s : BitVec w) : feedBits poly s [] = s := rfl

/-- The first bit, then the others. -/
@[simp] theorem feedBits_cons (poly s : BitVec w) (b : Bool) (bits : List Bool) :
    feedBits poly s (b :: bits) = feedBits poly (feed poly s b) bits := rfl

/-- One sequence of bits after another. -/
theorem feedBits_append (poly s : BitVec w) (xs ys : List Bool) :
    feedBits poly s (xs ++ ys) = feedBits poly (feedBits poly s xs) ys :=
  List.foldl_append

/-- The register of a corrupted message is the register of the message plus the register
of the error pattern. -/
theorem feedBits_xor (poly s t : BitVec w) (xs ys : List Bool) (h : xs.length = ys.length) :
    feedBits poly (s ^^^ t) (List.zipWith (· ^^ ·) xs ys) =
      feedBits poly s xs ^^^ feedBits poly t ys := by
  induction xs generalizing s t ys with
  | nil =>
    have : ys = [] := List.length_eq_zero_iff.mp h.symm
    simp [this]
  | cons a xs ih =>
    cases ys with
    | nil => simp at h
    | cons b ys =>
      simp only [List.zipWith_cons_cons, feedBits_cons, feed_xor]
      exact ih _ _ _ (by simpa using h)

/-! ## Words and bits -/

/-- The word whose low bits are a given list, lowest first. -/
def ofBits (bits : List Bool) : BitVec w := (BitVec.ofBoolListLE bits).setWidth w

/-- The bits of the register are those of the list. -/
theorem getLsbD_ofBits (bits : List Bool) (i : ℕ) :
    (ofBits bits : BitVec w).getLsbD i = (decide (i < w) && bits.getD i false) := by
  simp [ofBits]

/-- The first bit of a list is the lowest. -/
theorem ofBits_cons (b : Bool) (bits : List Bool) :
    (ofBits (b :: bits) : BitVec w) = bitWord b ^^^ (ofBits bits <<< 1) := by
  apply BitVec.eq_of_getLsbD_eq
  intro i hi
  rw [getLsbD_ofBits, BitVec.getLsbD_xor, BitVec.getLsbD_shiftLeft, getLsbD_ofBits]
  cases i with
  | zero => cases b <;> simp [bitWord, hi]
  | succ i =>
    have hi' : i < w := by omega
    cases b <;> simp [bitWord, hi, hi']

/-- A word with a clear top place moves up and down without loss. -/
theorem shift_shiftLeft_ofBits (poly : BitVec w) (bits : List Bool) (h : bits.length < w) :
    shift poly (ofBits bits <<< 1) = ofBits bits := by
  have hlow : ((ofBits bits : BitVec w) <<< 1).getLsbD 0 = false := by simp
  rw [shift, hlow]
  apply BitVec.eq_of_getLsbD_eq
  intro i hi
  simp only [Bool.false_eq_true, if_false, BitVec.getLsbD_ushiftRight, BitVec.getLsbD_shiftLeft,
    getLsbD_ofBits]
  by_cases hi' : 1 + i < w
  · simp [hi, hi']
  · have hout : bits[i]? = none := List.getElem?_eq_none (by omega)
    simp [hi', hout]

/-- Adding a word of at most `w` bits and shifting them all out feeds them one by one. -/
theorem iterate_shift_xor_ofBits (poly s : BitVec w) (bits : List Bool) (h : bits.length ≤ w) :
    (shift poly)^[bits.length] (s ^^^ ofBits bits) = feedBits poly s bits := by
  induction bits generalizing s with
  | nil =>
    have : (ofBits [] : BitVec w) = 0#w := by simp [ofBits, BitVec.ofBoolListLE]
    simp [this]
  | cons b bits ih =>
    simp only [List.length_cons] at h
    rw [List.length_cons, Function.iterate_succ_apply, ofBits_cons, ← BitVec.xor_assoc, shift_xor,
      shift_shiftLeft_ofBits poly bits (by omega), ih _ (by omega), feedBits_cons]
    rfl

/-- A word has as many bits as its width. -/
@[simp] theorem length_lineBits {n : ℕ} (x : BitVec n) : (lineBits x).length = n := by
  simp [lineBits]

/-- The bits of a word in the order they are sent are its bits from the lowest on. -/
theorem getD_lineBits {n : ℕ} (x : BitVec n) (i : ℕ) : (lineBits x).getD i false = x.getLsbD i := by
  by_cases hn : i < n
  · simp [lineBits, hn]
  · simp [lineBits, hn, BitVec.getLsbD_of_ge x i (by omega)]

/-- The bits of a word give it back. -/
theorem ofBits_lineBits {n : ℕ} (x : BitVec n) : (ofBits (lineBits x) : BitVec w) = x.setWidth w := by
  apply BitVec.eq_of_getLsbD_eq
  intro i hi
  rw [getLsbD_ofBits, BitVec.getLsbD_setWidth, getD_lineBits]

/-- A byte added whole and shifted eight times is eight bits fed in line order. -/
theorem feedByte_eq (poly s : BitVec w) (b : BitVec 8) (hw : 8 ≤ w) :
    feedByte poly s b = feedBits poly s (lineBits b) := by
  rw [← iterate_shift_xor_ofBits poly s (lineBits b) (by simpa using hw), length_lineBits,
    ofBits_lineBits]
  rfl

/-- A register loop over bytes feeds their bits in line order. -/
theorem foldl_feedByte (poly s : BitVec w) (bytes : List (BitVec 8)) (hw : 8 ≤ w) :
    bytes.foldl (feedByte poly) s = feedBits poly s (lineBitsOf bytes) := by
  induction bytes generalizing s with
  | nil => rfl
  | cons b bytes ih =>
    rw [List.foldl_cons, ih, feedByte_eq poly s b hw, lineBitsOf, lineBitsOf, List.flatMap_cons,
      feedBits_append]

/-- Each byte has eight bits. -/
theorem length_lineBitsOf (bytes : List (BitVec 8)) : (lineBitsOf bytes).length = 8 * bytes.length := by
  induction bytes with
  | nil => rfl
  | cons b bytes ih =>
    rw [lineBitsOf, List.flatMap_cons, List.length_append, length_lineBits, List.length_cons]
    rw [lineBitsOf] at ih
    omega

/-- Bit `j` on the line is bit `j % 8` of byte `j / 8`. -/
theorem getElem?_lineBitsOf (bytes : List (BitVec 8)) (j : ℕ) :
    (lineBitsOf bytes)[j]? = bytes[j / 8]?.map fun b => b.getLsbD (j % 8) := by
  induction bytes generalizing j with
  | nil => simp [lineBitsOf]
  | cons b bytes ih =>
    rw [lineBitsOf, List.flatMap_cons]
    by_cases hj : j < 8
    · rw [List.getElem?_append_left (by simpa using hj), Nat.div_eq_of_lt hj, Nat.mod_eq_of_lt hj]
      rw [lineBits, List.getElem?_ofFn, dif_pos hj]
      rfl
    · rw [List.getElem?_append_right (by simpa using hj), length_lineBits]
      have := ih (j - 8)
      rw [lineBitsOf] at this
      rw [this, show j / 8 = (j - 8) / 8 + 1 by omega, show (j - 8) % 8 = j % 8 by omega,
        List.getElem?_cons_succ]

/-- The bits of a sum of words. -/
theorem lineBits_xor {n : ℕ} (x y : BitVec n) :
    lineBits (x ^^^ y) = List.zipWith (· ^^ ·) (lineBits x) (lineBits y) := by
  apply List.ext_getElem
  · simp
  · intro i h₁ h₂
    simp [lineBits]

/-- The bits of a sum of byte strings. -/
theorem lineBitsOf_zipWith (xs ys : List (BitVec 8)) (h : xs.length = ys.length) :
    lineBitsOf (List.zipWith (· ^^^ ·) xs ys) =
      List.zipWith (· ^^ ·) (lineBitsOf xs) (lineBitsOf ys) := by
  induction xs generalizing ys with
  | nil => simp [lineBitsOf]
  | cons x xs ih =>
    cases ys with
    | nil => simp at h
    | cons y ys =>
      have htail := ih ys (by simpa using h)
      simp only [lineBitsOf] at htail ⊢
      rw [List.zipWith_cons_cons, List.flatMap_cons, List.flatMap_cons, List.flatMap_cons, htail,
        lineBits_xor, List.zipWith_append (by simp)]

/-! ## Byte steps from a table -/

/-- A register whose lowest places are clear only moves down. -/
theorem iterate_shift_of_clear (poly : BitVec w) {n : ℕ} {s : BitVec w}
    (h : ∀ i < n, s.getLsbD i = false) : (shift poly)^[n] s = s >>> n := by
  induction n generalizing s with
  | zero => simp
  | succ n ih =>
    have hshift : shift poly s = s >>> 1 := by
      rw [shift, h 0 (Nat.succ_pos n)]
      rfl
    have hclear : ∀ i < n, (s >>> 1).getLsbD i = false := fun i hi => by
      rw [BitVec.getLsbD_ushiftRight]
      exact h (1 + i) (by omega)
    rw [Function.iterate_succ_apply, hshift, ih hclear, ← BitVec.shiftRight_add, Nat.add_comm]

/-- Any number of shifts is linear. -/
theorem iterate_shift_xor (poly s t : BitVec w) (n : ℕ) :
    (shift poly)^[n] (s ^^^ t) = (shift poly)^[n] s ^^^ (shift poly)^[n] t := by
  induction n generalizing s t with
  | zero => rfl
  | succ n ih => rw [Function.iterate_succ_apply, shift_xor, ih]; rfl

/-- **Eight shifts at once.** The upper part of the register moves down, the lowest byte brings in
its own eight shifts. -/
theorem iterate_shift_eight (poly s : BitVec w) :
    (shift poly)^[8] s = (s >>> 8) ^^^ (shift poly)^[8] ((s.setWidth 8).setWidth w) := by
  have hclear : ∀ i < 8, (s ^^^ (s.setWidth 8).setWidth w).getLsbD i = false := fun i hi => by
    rw [BitVec.getLsbD_xor, BitVec.getLsbD_setWidth, BitVec.getLsbD_setWidth]
    by_cases hw : i < w
    · simp [hi, hw]
    · simp [hw, BitVec.getLsbD_of_ge s i (by omega)]
  have hhigh : (s ^^^ (s.setWidth 8).setWidth w) >>> 8 = s >>> 8 := by
    apply BitVec.eq_of_getLsbD_eq
    intro i hi
    simp
  have hsplit : s = (s ^^^ (s.setWidth 8).setWidth w) ^^^ (s.setWidth 8).setWidth w := by
    rw [BitVec.xor_assoc, BitVec.xor_self, BitVec.xor_zero]
  calc (shift poly)^[8] s
      = (shift poly)^[8] (s ^^^ (s.setWidth 8).setWidth w) ^^^
          (shift poly)^[8] ((s.setWidth 8).setWidth w) := by
        rw [← iterate_shift_xor, ← hsplit]
    _ = (s >>> 8) ^^^ (shift poly)^[8] ((s.setWidth 8).setWidth w) := by
        rw [iterate_shift_of_clear poly hclear, hhigh]

/-- A byte step that looks the eight shifts of the lowest byte up in a table. -/
def tableByte (table : BitVec 8 → BitVec w) (s : BitVec w) (b : BitVec 8) : BitVec w :=
  (s >>> 8) ^^^ table (s.setWidth 8 ^^^ b)

/-- With the right table the two byte steps agree. -/
theorem tableByte_eq_feedByte {poly : BitVec w} {table : BitVec 8 → BitVec w}
    (htable : ∀ i, table i = (shift poly)^[8] (i.setWidth w)) (hw : 8 ≤ w) :
    tableByte table = feedByte poly := by
  funext s b
  have hbyte : (b.setWidth w).setWidth 8 = b := by
    apply BitVec.eq_of_getLsbD_eq
    intro i hi
    simp [hi, show i < w by omega]
  have hhigh : b.setWidth w >>> 8 = 0#w := by
    apply BitVec.eq_of_getLsbD_eq
    intro i hi
    simp
  have hlow : (s ^^^ b.setWidth w).setWidth 8 = s.setWidth 8 ^^^ b := by
    rw [BitVec.setWidth_xor, hbyte]
  rw [tableByte, feedByte, iterate_shift_eight poly (s ^^^ b.setWidth w), htable, hlow,
    BitVec.ushiftRight_xor_distrib, hhigh, BitVec.xor_zero]

/-! ## No shift forgets anything -/

/-- With a set top bit in the feedback word only the zero register shifts to zero. -/
theorem eq_zero_of_shift_eq_zero {poly s : BitVec w} (hp : poly.getLsbD (w - 1) = true)
    (h : shift poly s = 0#w) : s = 0#w := by
  have hw : 0 < w := by
    rcases Nat.eq_zero_or_pos w with rfl | hw
    · simp at hp
    · exact hw
  unfold shift at h
  split at h
  · -- the top place of the moved register is clear, so the feedback word stays visible there
    have htop := congrArg (fun x => BitVec.getLsbD x (w - 1)) h
    have hout : s.getLsbD (1 + (w - 1)) = false := BitVec.getLsbD_of_ge s _ (by omega)
    simp [hp, hout] at htop
  · rename_i hlow
    apply BitVec.eq_of_getLsbD_eq
    intro i hi
    cases i with
    | zero => simpa using hlow
    | succ i =>
      have hi' := congrArg (fun x => BitVec.getLsbD x i) h
      simpa [Nat.add_comm 1 i] using hi'

/-- With the highest bit of the polynomial set no two registers shift to the same. -/
theorem shift_injective {poly : BitVec w} (hp : poly.getLsbD (w - 1) = true) :
    Function.Injective (shift poly) := by
  intro s t h
  have hzero : shift poly (s ^^^ t) = 0#w := by rw [shift_xor, h, BitVec.xor_self]
  exact BitVec.xor_eq_zero_iff.mp (eq_zero_of_shift_eq_zero hp hzero)

/-- Any number of shifts keeps a register of zeros. -/
theorem iterate_shift_zero (poly : BitVec w) (n : ℕ) : (shift poly)^[n] 0#w = 0#w := by
  induction n with
  | zero => rfl
  | succ n ih => rw [Function.iterate_succ_apply, shift_zero, ih]

/-- Shifts lose nothing when the highest bit of the polynomial is set. -/
theorem iterate_shift_eq_zero_iff {poly : BitVec w} (hp : poly.getLsbD (w - 1) = true) (n : ℕ)
    (s : BitVec w) : (shift poly)^[n] s = 0#w ↔ s = 0#w := by
  constructor
  · intro h
    rw [← iterate_shift_zero poly n] at h
    exact (shift_injective hp).iterate n h
  · rintro rfl
    exact iterate_shift_zero poly n

/-- Zeros only shift the register. -/
theorem feedBits_replicate_false (poly s : BitVec w) (n : ℕ) :
    feedBits poly s (List.replicate n false) = (shift poly)^[n] s := by
  induction n generalizing s with
  | zero => rfl
  | succ n ih =>
    rw [List.replicate_succ, feedBits_cons, ih, Function.iterate_succ_apply]
    simp [feed, bitWord]

/-! ## What a nonzero pattern leaves in the register -/

/-- A pattern confined to a window no longer than the register does not leave zero. -/
theorem feedBits_window_ne_zero {poly : BitVec w} (hp : poly.getLsbD (w - 1) = true) (i m : ℕ)
    (window : List Bool) (hlen : window.length ≤ w) (hset : true ∈ window) :
    feedBits poly 0#w (List.replicate i false ++ window ++ List.replicate m false) ≠ 0#w := by
  intro h
  rw [feedBits_append, feedBits_append, feedBits_replicate_false, feedBits_replicate_false,
    iterate_shift_zero, iterate_shift_eq_zero_iff hp,
    ← iterate_shift_xor_ofBits poly 0#w window hlen, iterate_shift_eq_zero_iff hp,
    BitVec.zero_xor] at h
  obtain ⟨j, hj, hjset⟩ := List.mem_iff_getElem.mp hset
  have hbit : (ofBits window : BitVec w).getLsbD j = false := by rw [h, BitVec.getLsbD_zero]
  have hjw : j < w := by omega
  rw [getLsbD_ofBits] at hbit
  simp [hjw, hj, hjset] at hbit

/-- Two set bits `k + 1` places apart leave zero only if the register `1` returns to itself
in that many shifts. -/
theorem feedBits_two_ne_zero {poly : BitVec w} (hp : poly.getLsbD (w - 1) = true) (i k m : ℕ)
    (hk : (shift poly)^[k + 1] 1#w ≠ 1#w) :
    feedBits poly 0#w (List.replicate i false ++ true :: List.replicate k false ++
      true :: List.replicate m false) ≠ 0#w := by
  intro h
  have hfeed : feedBits poly 0#w (List.replicate i false ++ true :: List.replicate k false ++
      true :: List.replicate m false) =
      (shift poly)^[m] (shift poly ((shift poly)^[k + 1] 1#w ^^^ 1#w)) := by
    rw [feedBits_append, feedBits_append, feedBits_replicate_false, iterate_shift_zero,
      feedBits_cons, feedBits_replicate_false, feedBits_cons, feedBits_replicate_false]
    simp [feed, bitWord]
  rw [hfeed, iterate_shift_eq_zero_iff hp] at h
  exact hk (BitVec.xor_eq_zero_iff.mp (eq_zero_of_shift_eq_zero hp h))

/-- Whether the register `1` is met among `n` registers from `s` on. -/
def meetsOne (poly : BitVec w) : ℕ → BitVec w → Bool
  | 0, _ => false
  | n + 1, s => decide (s = 1#w) || meetsOne poly n (shift poly s)

/-- A search that does not meet `1` excludes every return within its length. -/
theorem iterate_shift_ne_one {poly : BitVec w} {n : ℕ} {s : BitVec w}
    (h : meetsOne poly n s = false) {k : ℕ} (hk : k < n) : (shift poly)^[k] s ≠ 1#w := by
  induction n generalizing s k with
  | zero => omega
  | succ n ih =>
    simp only [meetsOne, Bool.or_eq_false_iff, decide_eq_false_iff_not] at h
    cases k with
    | zero => exact h.1
    | succ k => exact ih h.2 (by omega)

/-! ## Parity -/

/-- A bit as a number modulo two. -/
def bitVal (b : Bool) : ZMod 2 := if b then 1 else 0

/-- The sum of bits is addition modulo two. -/
theorem bitVal_xor (a b : Bool) : bitVal (a ^^ b) = bitVal a + bitVal b := by
  cases a <;> cases b <;> decide

/-- Whether the number of bits that are set is odd. -/
def parity (x : BitVec w) : ZMod 2 := ∑ i ∈ Finset.range w, bitVal (x.getLsbD i)

/-- The parity of a sum. -/
theorem parity_xor (x y : BitVec w) : parity (x ^^^ y) = parity x + parity y := by
  simp only [parity, BitVec.getLsbD_xor, bitVal_xor, Finset.sum_add_distrib]

/-- The parity of a register of zeros. -/
@[simp] theorem parity_zero : parity (0#w) = 0 := by
  simp [parity, bitVal]

/-- A shift to the right drops the lowest bit. -/
theorem parity_ushiftRight_one (x : BitVec w) :
    parity (x >>> 1) + bitVal (x.getLsbD 0) = parity x := by
  have htop : bitVal (x.getLsbD w) = 0 := by simp [bitVal]
  have hsum := Finset.sum_range_succ' (fun i => bitVal (x.getLsbD i)) w
  rw [Finset.sum_range_succ, htop, add_zero] at hsum
  simp only [parity, BitVec.getLsbD_ushiftRight, Nat.add_comm 1]
  exact hsum.symm

/-- A feedback word of odd parity keeps the parity of the register through a shift. -/
theorem parity_shift {poly : BitVec w} (hp : parity poly = 1) (s : BitVec w) :
    parity (shift poly s) = parity s := by
  have hmove := parity_ushiftRight_one s
  unfold shift
  split
  · rename_i hlow
    rw [hlow] at hmove
    rw [parity_xor, hp, ← hmove]
    rfl
  · rename_i hlow
    rw [Bool.not_eq_true] at hlow
    rw [← hmove, hlow]
    simp [bitVal]

/-- The parity of a single bit. -/
theorem parity_bitWord (hw : 0 < w) (b : Bool) : parity (bitWord b : BitVec w) = bitVal b := by
  cases b with
  | false => simp [bitWord, bitVal]
  | true =>
    simp only [parity, bitWord, if_true, BitVec.getLsbD_one, hw, decide_true, Bool.true_and]
    rw [Finset.sum_eq_single_of_mem 0 (Finset.mem_range.mpr hw)]
    · rfl
    · intro i _ hi
      simp [bitVal, hi]

/-- **The parity rule.** With a feedback word of odd parity, the register carries the parity
of all the bits fed to it. -/
theorem parity_feedBits {poly : BitVec w} (hp : parity poly = 1) (hw : 0 < w) (s : BitVec w)
    (bits : List Bool) :
    parity (feedBits poly s bits) = parity s + (bits.count true : ZMod 2) := by
  induction bits generalizing s with
  | nil => simp
  | cons b bits ih =>
    rw [feedBits_cons, ih, feed, parity_shift hp, parity_xor, parity_bitWord hw]
    cases b <;> simp [bitVal]
    ring

/-! ## The detected patterns -/

/-- The patterns a check of width `w` is meant to catch: an odd number of set bits, exactly
two of them, or all of them within `w` consecutive places. -/
def Detectable (w : ℕ) (bits : List Bool) : Prop :=
  Odd (bits.count true) ∨ bits.count true = 2 ∨
    ∃ i, ∀ j, bits[j]? = some true → i ≤ j ∧ j < i + w

/-- A list without a set bit is one of zeros. -/
theorem eq_replicate_false {bits : List Bool} (h : true ∉ bits) :
    bits = List.replicate bits.length false := by
  refine List.eq_replicate_iff.mpr ⟨rfl, fun b hb => ?_⟩
  cases b with
  | false => rfl
  | true => exact absurd hb h

/-- A list with a set bit has a first one. -/
theorem exists_first_set {bits : List Bool} (h : true ∈ bits) :
    ∃ i rest, bits = List.replicate i false ++ true :: rest := by
  obtain ⟨front, rest, rfl, hfront⟩ := List.eq_append_cons_of_mem h
  exact ⟨front.length, rest, by rw [← eq_replicate_false hfront]⟩

/-- A pattern with two set bits is determined by three runs of clear ones. -/
theorem exists_two_set {bits : List Bool} (h : bits.count true = 2) :
    ∃ i k m, bits = List.replicate i false ++ true :: List.replicate k false ++
      true :: List.replicate m false := by
  obtain ⟨i, rest, rfl⟩ := exists_first_set (List.count_pos_iff.mp (by omega : 0 < bits.count true))
  have hrest : rest.count true = 1 := by simpa [List.count_replicate] using h
  obtain ⟨k, last, rfl⟩ := exists_first_set (List.count_pos_iff.mp (by omega : 0 < rest.count true))
  have hlast : true ∉ last :=
    List.count_eq_zero.mp (by simpa [List.count_replicate] using hrest)
  refine ⟨i, k, last.length, ?_⟩
  rw [← eq_replicate_false hlast]
  simp

/-- A pattern whose set bits lie within `n` consecutive places is clear around a window of at
most `n` places. -/
theorem exists_window {bits : List Bool} {i n : ℕ}
    (h : ∀ j, bits[j]? = some true → i ≤ j ∧ j < i + n) :
    ∃ a window m, bits = List.replicate a false ++ window ++ List.replicate m false ∧
      window.length ≤ n := by
  have hfront : true ∉ bits.take i := by
    intro hmem
    obtain ⟨j, hj, hset⟩ := List.mem_iff_getElem.mp hmem
    rw [List.length_take] at hj
    have := h j (by rw [List.getElem?_eq_getElem (by omega)]; simpa using hset)
    omega
  have hback : true ∉ (bits.drop i).drop n := by
    intro hmem
    obtain ⟨j, hj, hset⟩ := List.mem_iff_getElem.mp hmem
    simp only [List.length_drop] at hj
    have := h (i + n + j) (by
      rw [List.getElem?_eq_getElem (by omega)]
      simpa [List.getElem_drop, Nat.add_assoc] using hset)
    omega
  refine ⟨(bits.take i).length, (bits.drop i).take n, ((bits.drop i).drop n).length, ?_, ?_⟩
  · rw [← eq_replicate_false hfront, ← eq_replicate_false hback, List.append_assoc,
      List.take_append_drop, List.take_append_drop]
  · exact List.length_take_le _ _

/-- Two messages of one length that differ in at most `w` neighbouring bits leave different
registers. -/
theorem feedBits_lineBitsOf_ne {poly : BitVec w} (hp : poly.getLsbD (w - 1) = true) (s : BitVec w)
    {xs ys : List (BitVec 8)} (hlen : xs.length = ys.length) (hne : xs ≠ ys) {k n : ℕ}
    (hn : 8 * n ≤ w) (hwin : ∀ j, xs[j]? ≠ ys[j]? → k ≤ j ∧ j < k + n) :
    feedBits poly s (lineBitsOf xs) ≠ feedBits poly s (lineBitsOf ys) := by
  let diff := List.zipWith (· ^^^ ·) xs ys
  -- the differences lie in the bits of the window
  have hbit : ∀ j, (lineBitsOf diff)[j]? = some true → 8 * k ≤ j ∧ j < 8 * k + 8 * n := by
    intro j hj
    have hbyte : xs[j / 8]? ≠ ys[j / 8]? := by
      intro heq
      rw [getElem?_lineBitsOf, List.getElem?_zipWith, heq] at hj
      cases hy : ys[j / 8]? with
      | none => simp [hy] at hj
      | some b => simp [hy] at hj
    have := hwin (j / 8) hbyte
    omega
  have hset : true ∈ lineBitsOf diff := by
    by_contra hclear
    apply hne
    apply List.ext_getElem hlen
    intro i hx hy
    apply BitVec.eq_of_getLsbD_eq
    intro b hb
    have hplace : (lineBitsOf diff)[8 * i + b]? = some (xs[i].getLsbD b ^^ ys[i].getLsbD b) := by
      rw [getElem?_lineBitsOf, List.getElem?_zipWith, show (8 * i + b) / 8 = i by omega,
        show (8 * i + b) % 8 = b by omega, List.getElem?_eq_getElem hx, List.getElem?_eq_getElem hy]
      simp
    have hmem := List.mem_of_getElem? hplace
    cases hval : xs[i].getLsbD b ^^ ys[i].getLsbD b with
    | false => simpa using hval
    | true => exact absurd (hval ▸ hmem) hclear
  intro heq
  -- by linearity the difference alone would leave a clear register
  have hzero : feedBits poly 0#w (lineBitsOf diff) = 0#w := by
    have hlines : (lineBitsOf xs).length = (lineBitsOf ys).length := by
      rw [length_lineBitsOf, length_lineBitsOf, hlen]
    have hsum := feedBits_xor poly s s _ _ hlines
    rwa [heq, BitVec.xor_self, BitVec.xor_self, ← lineBitsOf_zipWith xs ys hlen] at hsum
  obtain ⟨a, window, m, hshape, hwindow⟩ := exists_window hbit
  rw [hshape] at hset hzero
  exact feedBits_window_ne_zero hp a m window (by omega) (by simpa using hset) hzero

/-- **Detection.** A feedback word with a set top bit and odd parity catches every nonzero
pattern of the three kinds, over messages shorter than the return time of the register. -/
theorem feedBits_ne_zero_of_detectable {poly : BitVec w} (hp : poly.getLsbD (w - 1) = true)
    (hodd : parity poly = 1) (hw : 0 < w) {bits : List Bool}
    (horder : ∀ k, k + 1 < bits.length → (shift poly)^[k + 1] 1#w ≠ 1#w)
    (hset : true ∈ bits) (hd : Detectable w bits) : feedBits poly 0#w bits ≠ 0#w := by
  rcases hd with hcount | hcount | ⟨i, hwin⟩
  · intro h
    have hpar := parity_feedBits hodd hw 0#w bits
    rw [h, parity_zero, zero_add] at hpar
    have heven : Even (bits.count true) :=
      (ZMod.natCast_eq_zero_iff_even).mp hpar.symm
    exact (Nat.not_even_iff_odd.mpr hcount) heven
  · obtain ⟨i, k, m, rfl⟩ := exists_two_set hcount
    refine feedBits_two_ne_zero hp i k m (horder k ?_)
    simp only [List.length_append, List.length_cons, List.length_replicate]
    omega
  · obtain ⟨a, window, m, rfl, hlen⟩ := exists_window hwin
    refine feedBits_window_ne_zero hp a m window hlen ?_
    simpa using hset

end InfraredModule.Foundation.ReflectedCrc
