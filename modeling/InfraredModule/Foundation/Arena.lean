import Mathlib.Data.List.Chain
import Mathlib.Data.List.Perm.Basic
import Mathlib.Tactic.Common

/-!
# A stretch of memory divided into blocks

Blocks lie one behind the other, each in use or free. A request takes the first free block that
is large enough, and leaves what it does not need as a free block of its own; a block that is
given back is joined with the free blocks beside it. `Plugged` says that no two free blocks are
neighbours. `release_allocate`: giving back the block just taken restores the blocks as they were.
-/

set_option autoImplicit false

namespace InfraredModule.Foundation.Arena

/-- A piece of the region, its record included. -/
structure Block where
  size : ℕ
  used : Bool
  deriving DecidableEq, Repr

/-- The bytes of the blocks, used or free. -/
def total : List Block → ℕ
  | [] => 0
  | b :: bs => b.size + total bs

/-- The memory of the blocks in use. -/
def charged : List Block → ℕ
  | [] => 0
  | b :: bs => (if b.used then b.size else 0) + charged bs

/-- Address and size of the blocks in use, when the first block lies at `a`. -/
def taken : ℕ → List Block → List (ℕ × ℕ)
  | _, [] => []
  | a, b :: bs => if b.used then (a, b.size) :: taken (a + b.size) bs else taken (a + b.size) bs

/-- Where the first free block lies; behind the last block if there is none. -/
def lowestFree : ℕ → List Block → ℕ
  | a, [] => a
  | a, b :: bs => if b.used then lowestFree (a + b.size) bs else a

/-- No two neighbours are free. -/
def Plugged (bs : List Block) : Prop := bs.IsChain fun b c => b.used = true ∨ c.used = true

/-- A block in front of others, joined with the first of them when both are free. -/
def join (b : Block) : List Block → List Block
  | [] => [b]
  | c :: bs => if b.used || c.used then b :: c :: bs else ⟨b.size + c.size, false⟩ :: bs

/-- Every run of free neighbours becomes one block. -/
def coalesce : List Block → List Block
  | [] => []
  | b :: bs => join b (coalesce bs)

/-! ## Blocks before and behind -/

/-- The bytes before a place and those from it on. -/
theorem total_append (bs cs : List Block) : total (bs ++ cs) = total bs + total cs := by
  induction bs with
  | nil => simp [total]
  | cons b bs ih => simp only [List.cons_append, total, ih, Nat.add_assoc]

/-- Blocks of a multiple of `n` make a region of a multiple of `n`. -/
theorem dvd_total {n : ℕ} {bs : List Block} (h : ∀ b ∈ bs, n ∣ b.size) : n ∣ total bs := by
  induction bs with
  | nil => exact Nat.dvd_zero n
  | cons b bs ih =>
    rw [List.forall_mem_cons] at h
    exact Nat.dvd_add h.1 (ih h.2)

/-- What is in use before a place and from it on. -/
theorem charged_append (bs cs : List Block) : charged (bs ++ cs) = charged bs + charged cs := by
  induction bs with
  | nil => simp [charged]
  | cons b bs ih => simp only [List.cons_append, charged, ih, Nat.add_assoc]

/-- The second part begins where the first ends. -/
theorem taken_append (a : ℕ) (bs cs : List Block) :
    taken a (bs ++ cs) = taken a bs ++ taken (a + total bs) cs := by
  induction bs generalizing a with
  | nil => rfl
  | cons b bs ih =>
    simp only [List.cons_append, taken, total, ih, Nat.add_assoc]
    split <;> rfl

/-- What is in use is part of the whole. -/
theorem charged_le_total (bs : List Block) : charged bs ≤ total bs := by
  induction bs with
  | nil => exact Nat.le_refl 0
  | cons b bs ih =>
    simp only [charged, total]
    split <;> omega

/-- The lowest free block is not before the beginning. -/
theorem le_lowestFree (a : ℕ) (bs : List Block) : a ≤ lowestFree a bs := by
  induction bs generalizing a with
  | nil => exact Nat.le_refl a
  | cons b bs ih =>
    simp only [lowestFree]
    split
    · exact Nat.le_trans (Nat.le_add_right a b.size) (ih _)
    · exact Nat.le_refl a

/-- Behind blocks that are all in use, the first free block is that of what follows. -/
theorem lowestFree_append_used {bs : List Block} (h : ∀ b ∈ bs, b.used = true) (a : ℕ)
    (cs : List Block) : lowestFree a (bs ++ cs) = lowestFree (a + total bs) cs := by
  induction bs generalizing a with
  | nil => rfl
  | cons b bs ih =>
    have hhead : b.used = true := h b List.mem_cons_self
    have htail : ∀ c ∈ bs, c.used = true := fun c hc => h c (List.mem_cons_of_mem b hc)
    simp only [List.cons_append, lowestFree, hhead, if_true, total]
    rw [ih htail, Nat.add_assoc]

/-- A free block in front decides. -/
theorem lowestFree_append_free {bs : List Block} (h : ¬ ∀ b ∈ bs, b.used = true) (a : ℕ)
    (cs : List Block) : lowestFree a (bs ++ cs) = lowestFree a bs := by
  induction bs generalizing a with
  | nil => exact absurd (fun b hb => absurd hb List.not_mem_nil) h
  | cons b bs ih =>
    simp only [List.cons_append, lowestFree]
    split
    case isFalse => rfl
    case isTrue hused =>
      apply ih
      intro hall
      exact h (List.forall_mem_cons.mpr ⟨hused, hall⟩)

/-- Where not all blocks are in use, the lowest free one begins before the end. -/
theorem lowestFree_lt {bs : List Block} (hsize : ∀ b ∈ bs, 0 < b.size)
    (h : ¬ ∀ b ∈ bs, b.used = true) (a : ℕ) : lowestFree a bs < a + total bs := by
  induction bs generalizing a with
  | nil => exact absurd (fun b hb => absurd hb List.not_mem_nil) h
  | cons b bs ih =>
    have hb := hsize b List.mem_cons_self
    simp only [lowestFree, total]
    split
    case isFalse => omega
    case isTrue hused =>
      have htail : ¬ ∀ c ∈ bs, c.used = true := fun hall =>
        h (List.forall_mem_cons.mpr ⟨hused, hall⟩)
      have hlt := ih (fun c hc => hsize c (List.mem_cons_of_mem b hc)) htail (a + b.size)
      omega

/-- A free block is the first one, or lies behind it. -/
theorem lowestFree_le {b : Block} (h : b.used = false) (a : ℕ) (pre post : List Block) :
    lowestFree a (pre ++ b :: post) ≤ a + total pre := by
  induction pre generalizing a with
  | nil => simp [lowestFree, total, h]
  | cons c pre ih =>
    simp only [List.cons_append, lowestFree, total]
    split
    · rw [← Nat.add_assoc]
      exact ih _
    · exact Nat.le_add_right a _

/-- The blocks in use in front of the first free one, and what follows them. -/
theorem lowestFree_split (a : ℕ) (bs : List Block) :
    ∃ pre post, bs = pre ++ post ∧ (∀ b ∈ pre, b.used = true) ∧ lowestFree a bs = a + total pre ∧
      (post = [] ∨ ∃ b cs, post = b :: cs ∧ b.used = false) := by
  induction bs generalizing a with
  | nil => exact ⟨[], [], rfl, by simp, rfl, .inl rfl⟩
  | cons b bs ih =>
    cases hb : b.used with
    | true =>
      obtain ⟨pre, post, rfl, hused, hlowest, hpost⟩ := ih (a + b.size)
      refine ⟨b :: pre, post, rfl, List.forall_mem_cons.mpr ⟨hb, hused⟩, ?_, hpost⟩
      rw [lowestFree, if_pos hb, hlowest, total, Nat.add_assoc]
    | false =>
      exact ⟨[], b :: bs, rfl, by simp, by simp [lowestFree, hb, total], .inr ⟨b, bs, rfl, hb⟩⟩

/-- A block that is given back is the first free one, or lies behind it. -/
theorem lowestFree_given_back (a n : ℕ) (pre post : List Block) :
    lowestFree a (pre ++ ⟨n, false⟩ :: post) =
      min (a + total pre) (lowestFree a (pre ++ ⟨n, true⟩ :: post)) := by
  induction pre generalizing a with
  | nil =>
    have hle : a ≤ lowestFree (a + n) post :=
      Nat.le_trans (Nat.le_add_right a n) (le_lowestFree _ post)
    simp [lowestFree, total, Nat.min_eq_left hle]
  | cons b pre ih =>
    simp only [List.cons_append, lowestFree, total]
    split
    · rw [ih, Nat.add_assoc]
    · exact (Nat.min_eq_right (Nat.le_add_right a _)).symm

/-! ## The blocks in use do not overlap -/

/-- A block in use lies within the region. -/
theorem taken_within {a : ℕ} {bs : List Block} {t : ℕ × ℕ} (h : t ∈ taken a bs) :
    a ≤ t.1 ∧ t.1 + t.2 ≤ a + total bs := by
  induction bs generalizing a with
  | nil => cases h
  | cons b bs ih =>
    simp only [taken] at h
    simp only [total]
    split at h
    · rcases List.mem_cons.mp h with rfl | h
      · exact ⟨Nat.le_refl a, by simp only; omega⟩
      · have := ih h
        omega
    · have := ih h
      omega

/-- Of two blocks in use the first ends before the second begins. -/
theorem taken_pairwise (a : ℕ) (bs : List Block) :
    (taken a bs).Pairwise fun s t => s.1 + s.2 ≤ t.1 := by
  induction bs generalizing a with
  | nil => exact List.Pairwise.nil
  | cons b bs ih =>
    simp only [taken]
    split
    · exact List.Pairwise.cons (fun t ht => (taken_within ht).1) (ih _)
    · exact ih _

/-- Where the blocks begin. -/
def starts : ℕ → List Block → List ℕ
  | _, [] => []
  | a, b :: bs => a :: starts (a + b.size) bs

/-- No block begins before the region. -/
theorem le_of_mem_starts {a o : ℕ} {bs : List Block} (h : o ∈ starts a bs) : a ≤ o := by
  induction bs generalizing a with
  | nil => cases h
  | cons b bs ih =>
    rcases List.mem_cons.mp h with rfl | h
    · exact Nat.le_refl o
    · exact Nat.le_trans (Nat.le_add_right a b.size) (ih h)

/-- No block begins at its end or beyond. -/
theorem lt_of_mem_starts {a o : ℕ} {bs : List Block} (hpos : ∀ b ∈ bs, 0 < b.size)
    (h : o ∈ starts a bs) : o < a + total bs := by
  induction bs generalizing a with
  | nil => cases h
  | cons b bs ih =>
    rw [List.forall_mem_cons] at hpos
    rw [total]
    rcases List.mem_cons.mp h with rfl | h
    · omega
    · have hlt := ih hpos.2 h
      omega

/-- No block begins inside a block in use. -/
theorem starts_outside {a o : ℕ} {bs : List Block} {t : ℕ × ℕ} (ho : o ∈ starts a bs)
    (ht : t ∈ taken a bs) : o ≤ t.1 ∨ t.1 + t.2 ≤ o := by
  induction bs generalizing a with
  | nil => cases ho
  | cons b bs ih =>
    have hcases : t = (a, b.size) ∨ t ∈ taken (a + b.size) bs := by
      simp only [taken] at ht
      split at ht
      · exact List.mem_cons.mp ht
      · exact .inr ht
    rcases List.mem_cons.mp ho with rfl | ho
    · exact .inl (taken_within ht).1
    · rcases hcases with rfl | ht
      · exact .inr (le_of_mem_starts ho)
      · exact ih ho ht

/-- A block is in use at a place exactly when the blocks before it fill the region up to there. -/
theorem mem_taken_iff {a x n : ℕ} {bs : List Block} :
    (x, n) ∈ taken a bs ↔ ∃ pre post, bs = pre ++ ⟨n, true⟩ :: post ∧ x = a + total pre := by
  induction bs generalizing a with
  | nil => simp [taken]
  | cons b bs ih =>
    constructor
    · intro h
      simp only [taken] at h
      split at h
      case isTrue hused =>
        rcases List.mem_cons.mp h with heq | h
        · obtain ⟨rfl, rfl⟩ := Prod.mk.inj heq
          exact ⟨[], bs, by rw [← hused]; rfl, rfl⟩
        · obtain ⟨pre, post, rfl, rfl⟩ := ih.mp h
          exact ⟨b :: pre, post, rfl, by rw [total, Nat.add_assoc]⟩
      case isFalse =>
        obtain ⟨pre, post, rfl, rfl⟩ := ih.mp h
        exact ⟨b :: pre, post, rfl, by rw [total, Nat.add_assoc]⟩
    · rintro ⟨pre, post, heq, rfl⟩
      rw [heq, taken_append, List.mem_append]
      right
      simp [taken]

/-! ## Joining neighbours -/

/-- Joining changes nothing that is in use. -/
theorem charged_join (b : Block) (bs : List Block) : charged (join b bs) = charged (b :: bs) := by
  cases bs with
  | nil => rfl
  | cons c bs =>
    simp only [join]
    split
    case isTrue => rfl
    case isFalse h =>
      obtain ⟨hb, hc⟩ : b.used = false ∧ c.used = false := by simpa using h
      simp [charged, hb, hc]

/-- The blocks in use stay where they are. -/
theorem taken_join (a : ℕ) (b : Block) (bs : List Block) : taken a (join b bs) = taken a (b :: bs) := by
  cases bs with
  | nil => rfl
  | cons c bs =>
    simp only [join]
    split
    case isTrue => rfl
    case isFalse h =>
      obtain ⟨hb, hc⟩ : b.used = false ∧ c.used = false := by simpa using h
      simp [taken, hb, hc, Nat.add_assoc]

/-- The lowest free block still begins at the same place. -/
theorem lowestFree_join (a : ℕ) (b : Block) (bs : List Block) :
    lowestFree a (join b bs) = lowestFree a (b :: bs) := by
  cases bs with
  | nil => rfl
  | cons c bs =>
    simp only [join]
    split
    case isTrue => rfl
    case isFalse h =>
      obtain ⟨hb, -⟩ : b.used = false ∧ c.used = false := by simpa using h
      simp [lowestFree, hb]

/-- Coalescing changes nothing that is in use. -/
theorem charged_coalesce (bs : List Block) : charged (coalesce bs) = charged bs := by
  induction bs with
  | nil => rfl
  | cons b bs ih => rw [coalesce, charged_join, charged, ih, charged]

/-- The blocks in use stay where they are. -/
theorem taken_coalesce (a : ℕ) (bs : List Block) : taken a (coalesce bs) = taken a bs := by
  induction bs generalizing a with
  | nil => rfl
  | cons b bs ih => rw [coalesce, taken_join, taken, ih, taken]

/-- The lowest free block still begins at the same place. -/
theorem lowestFree_coalesce (a : ℕ) (bs : List Block) :
    lowestFree a (coalesce bs) = lowestFree a bs := by
  induction bs generalizing a with
  | nil => rfl
  | cons b bs ih => rw [coalesce, lowestFree_join, lowestFree, ih, lowestFree]

/-- A block joined to a list without free neighbours leaves none. -/
theorem plugged_join (b : Block) {bs : List Block} (h : Plugged bs) : Plugged (join b bs) := by
  cases bs with
  | nil => exact List.isChain_singleton b
  | cons c bs =>
    simp only [join]
    split
    case isTrue hused =>
      refine List.isChain_cons_cons.mpr ⟨?_, h⟩
      simpa using hused
    case isFalse hfree =>
      obtain ⟨-, hc⟩ : b.used = false ∧ c.used = false := by simpa using hfree
      -- what follows a free block is in use, so it may also follow the joined one
      cases bs with
      | nil => exact List.isChain_singleton _
      | cons d bs =>
        obtain ⟨hcd, hrest⟩ := List.isChain_cons_cons.mp h
        exact List.isChain_cons_cons.mpr ⟨.inr (hcd.resolve_left (by simp [hc])), hrest⟩

/-- After coalescing no two free blocks are neighbours. -/
theorem plugged_coalesce (bs : List Block) : Plugged (coalesce bs) := by
  induction bs with
  | nil => exact List.isChain_nil
  | cons b bs ih => exact plugged_join b ih

/-- Where no two free blocks are neighbours there is nothing to do. -/
theorem coalesce_of_plugged {bs : List Block} (h : Plugged bs) : coalesce bs = bs := by
  induction bs with
  | nil => rfl
  | cons b bs ih =>
    rw [coalesce, ih (List.IsChain.tail h)]
    cases bs with
    | nil => rfl
    | cons c bs =>
      have hused : (b.used || c.used) = true := by
        simpa using (List.isChain_cons_cons.mp h).1
      rw [join, if_pos hused]

/-- Joining two free neighbours does not change what coalescing leads to. -/
theorem coalesce_merge (pre : List Block) (m n : ℕ) (post : List Block) :
    coalesce (pre ++ ⟨m, false⟩ :: ⟨n, false⟩ :: post) = coalesce (pre ++ ⟨m + n, false⟩ :: post) := by
  induction pre with
  | nil =>
    simp only [List.nil_append, coalesce]
    cases coalesce post with
    | nil => simp [join]
    | cons c bs => cases hc : c.used <;> simp [join, hc, Nat.add_assoc]
  | cons b pre ih => rw [List.cons_append, List.cons_append, coalesce, coalesce, ih]

/-- With nothing in use there is one block. -/
theorem eq_singleton_of_taken_nil {a : ℕ} {bs : List Block} (hplugged : Plugged bs)
    (h : taken a bs = []) (hne : bs ≠ []) : bs = [⟨total bs, false⟩] := by
  cases bs with
  | nil => exact absurd rfl hne
  | cons b bs =>
    have hb : b.used = false := by
      by_contra hb
      rw [taken, if_pos (eq_true_of_ne_false hb)] at h
      exact List.cons_ne_nil _ _ h
    have htaken : taken (a + b.size) bs = [] := by simpa [taken, hb] using h
    cases bs with
    | nil => simp [total, ← hb]
    | cons c bs =>
      -- a neighbour of a free block is in use
      have hc : c.used = true :=
        (List.isChain_cons_cons.mp hplugged).1.resolve_left (by simp [hb])
      simp [taken, hc] at htaken

/-! ## Requests

A block begins with `hdr` bytes that are not handed out. A request for `need` bytes looks at the
blocks below `limit`, and leaves a block of its own only where at least `least` bytes remain for
it. -/

/-- The first free block that is large enough, among those that lie below the limit. -/
def firstFit (hdr limit need : ℕ) : ℕ → List Block → Option ℕ
  | _, [] => none
  | a, b :: bs =>
    if a < limit then
      if b.used = false ∧ hdr + need ≤ b.size then some a
      else firstFit hdr limit need (a + b.size) bs
    else none

/-- A block is divided when what is left is a block as well. -/
def carve (hdr least need : ℕ) (b : Block) : List Block :=
  if hdr + need + (hdr + least) ≤ b.size then
    [⟨hdr + need, true⟩, ⟨b.size - (hdr + need), false⟩]
  else [⟨b.size, true⟩]

/-- Put others in the place of the block at `x`. -/
def replaceAt (x : ℕ) (f : Block → List Block) : ℕ → List Block → List Block
  | _, [] => []
  | a, b :: bs => if a = x then f b ++ bs else b :: replaceAt x f (a + b.size) bs

/-- The first block that is large enough comes into use; what it does not need is cut off. -/
def allocate (hdr least limit need : ℕ) (bs : List Block) : Option (ℕ × List Block) :=
  (firstFit hdr limit need 0 bs).map fun x => (x, replaceAt x (carve hdr least need) 0 bs)

/-- The block becomes free and is joined with its free neighbours. -/
def release (x : ℕ) (bs : List Block) : List Block :=
  coalesce (replaceAt x (fun b => [⟨b.size, false⟩]) 0 bs)

/-- A replacement finds the block that begins at its place. -/
theorem replaceAt_append (f : Block → List Block) (a : ℕ) {pre : List Block} (b : Block)
    (post : List Block) (hsize : ∀ c ∈ pre, 0 < c.size) :
    replaceAt (a + total pre) f a (pre ++ b :: post) = pre ++ f b ++ post := by
  induction pre generalizing a with
  | nil => simp [replaceAt, total]
  | cons c pre ih =>
    have hc := hsize c List.mem_cons_self
    have hne : a ≠ a + total (c :: pre) := by rw [total]; omega
    rw [List.cons_append, replaceAt, if_neg hne, total, ← Nat.add_assoc,
      ih _ fun d hd => hsize d (List.mem_cons_of_mem c hd)]
    simp

/-- Blocks that begin at the limit or behind it are not looked at. -/
theorem firstFit_beyond {hdr limit need a : ℕ} (h : limit ≤ a) (bs : List Block) :
    firstFit hdr limit need a bs = none := by
  cases bs with
  | nil => rfl
  | cons b bs => rw [firstFit, if_neg (Nat.not_lt.mpr h)]

/-- Blocks in use are passed over. -/
theorem firstFit_append_used {hdr limit need : ℕ} {bs : List Block} (h : ∀ b ∈ bs, b.used = true)
    (a : ℕ) (cs : List Block) :
    firstFit hdr limit need a (bs ++ cs) = firstFit hdr limit need (a + total bs) cs := by
  induction bs generalizing a with
  | nil => rfl
  | cons b bs ih =>
    have hb : b.used = true := h b List.mem_cons_self
    have htail : ∀ c ∈ bs, c.used = true := fun c hc => h c (List.mem_cons_of_mem b hc)
    simp only [List.cons_append, firstFit, hb, total, ← Nat.add_assoc]
    split
    case isTrue => simpa using ih htail (a + b.size)
    case isFalse hbeyond => exact (firstFit_beyond (by omega) cs).symm

/-- What the search finds: a free block, large enough, that begins before the limit. -/
theorem firstFit_spec {hdr limit need a x : ℕ} {bs : List Block}
    (h : firstFit hdr limit need a bs = some x) :
    ∃ pre b post, bs = pre ++ b :: post ∧ x = a + total pre ∧ x < limit ∧ b.used = false ∧
      hdr + need ≤ b.size := by
  induction bs generalizing a with
  | nil => cases h
  | cons b bs ih =>
    rw [firstFit] at h
    split at h
    case isFalse => cases h
    case isTrue hlimit =>
      split at h
      case isTrue hfit =>
        obtain rfl := Option.some.inj h
        exact ⟨[], b, bs, rfl, rfl, hlimit, hfit⟩
      case isFalse =>
        obtain ⟨pre, c, post, rfl, rfl, hfit⟩ := ih h
        exact ⟨b :: pre, c, post, rfl, by rw [total, Nat.add_assoc], hfit⟩

/-- A request fails when every free block is too small or lies beyond the limit. -/
theorem firstFit_eq_none_iff {hdr limit need a : ℕ} {bs : List Block} :
    firstFit hdr limit need a bs = none ↔
      ∀ pre b post, bs = pre ++ b :: post → b.used = false → hdr + need ≤ b.size →
        limit ≤ a + total pre := by
  induction bs generalizing a with
  | nil => simp [firstFit]
  | cons b bs ih =>
    constructor
    · intro h pre c post heq hfree hfit
      rw [firstFit] at h
      split at h
      case isFalse hbeyond => omega
      case isTrue =>
        split at h
        case isTrue => cases h
        case isFalse hsmall =>
          cases pre with
          | nil =>
            -- the block itself fits, and was passed over
            obtain ⟨rfl, -⟩ := List.cons.inj heq
            exact absurd ⟨hfree, hfit⟩ hsmall
          | cons d pre =>
            obtain ⟨rfl, htail⟩ := List.cons.inj heq
            have hle := ih.mp h pre c post htail hfree hfit
            rw [total]
            omega
    · intro h
      rw [firstFit]
      split
      case isFalse => rfl
      case isTrue hlimit =>
        split
        case isTrue hfit =>
          -- a fitting block here would lie behind the limit
          have hle := h [] b bs rfl hfit.1 hfit.2
          exact absurd hle (by simp [total]; omega)
        case isFalse =>
          apply ih.mpr
          intro pre c post heq hfree hfit
          have hle := h (b :: pre) c post (by rw [heq]; rfl) hfree hfit
          rw [total] at hle
          omega

/-! ## Sound divisions -/

/-- What the operations keep: all sizes are multiples of `grain` and at least `floor`, and no two
neighbours are free. -/
structure Sound (grain floor : ℕ) (bs : List Block) : Prop where
  grain : ∀ b ∈ bs, grain ∣ b.size
  floor : ∀ b ∈ bs, floor ≤ b.size
  plugged : Plugged bs

/-- What holds of all sizes, and of sums of such sizes, holds of the sizes of joined blocks. -/
theorem forall_size_coalesce {P : ℕ → Prop} (hadd : ∀ m n, P m → P n → P (m + n)) {bs : List Block}
    (h : ∀ b ∈ bs, P b.size) : ∀ b ∈ coalesce bs, P b.size := by
  induction bs with
  | nil => exact h
  | cons b bs ih =>
    have hb := h b List.mem_cons_self
    have htail := ih fun c hc => h c (List.mem_cons_of_mem b hc)
    rw [coalesce]
    cases hrest : coalesce bs with
    | nil => simpa [join] using hb
    | cons c cs =>
      rw [hrest, List.forall_mem_cons] at htail
      rw [join]
      split
      · exact List.forall_mem_cons.mpr ⟨hb, List.forall_mem_cons.mpr htail⟩
      · exact List.forall_mem_cons.mpr ⟨hadd _ _ hb htail.1, htail.2⟩

/-- Coalescing makes blocks of sound sizes a sound list. -/
theorem Sound.coalesce {grain floor : ℕ} {bs : List Block} (hgrain : ∀ b ∈ bs, grain ∣ b.size)
    (hfloor : ∀ b ∈ bs, floor ≤ b.size) : Sound grain floor (coalesce bs) where
  grain := forall_size_coalesce (fun _ _ => Nat.dvd_add) hgrain
  floor := forall_size_coalesce (fun _ _ hm _ => Nat.le_add_right_of_le hm) hfloor
  plugged := plugged_coalesce bs

/-- No block of a sound list is empty. -/
theorem Sound.pos {grain floor : ℕ} {bs : List Block} (h : Sound grain floor bs) (hfloor : 0 < floor) :
    ∀ b ∈ bs, 0 < b.size := fun b hb => Nat.lt_of_lt_of_le hfloor (h.floor b hb)

section Carve

variable {hdr least need : ℕ} {b : Block} (hfit : hdr + need ≤ b.size)

include hfit in
/-- A cut block has the bytes it had. -/
theorem total_carve : total (carve hdr least need b) = b.size := by
  rw [carve]
  split
  · simp only [total]
    omega
  · rfl

/-- The block handed out has the size asked for, or that of the whole block it was cut from. -/
def carved (hdr least need : ℕ) (b : Block) : ℕ :=
  if hdr + need + (hdr + least) ≤ b.size then hdr + need else b.size

include hfit in
/-- What stays of a block is enough for the request. -/
theorem le_carved : hdr + need ≤ carved hdr least need b := by
  rw [carved]
  split
  · exact Nat.le_refl _
  · exact hfit

/-- Of the pieces only the first is in use. -/
theorem taken_carve (a : ℕ) : taken a (carve hdr least need b) = [(a, carved hdr least need b)] := by
  rw [carve, carved]
  split <;> rfl

/-- And it is charged with its own size. -/
theorem charged_carve : charged (carve hdr least need b) = carved hdr least need b := by
  rw [carve, carved]
  split <;> rfl

end Carve

/-- A cut block leaves no free neighbours: behind it nothing was free. -/
theorem plugged_carve {hdr least need : ℕ} {pre post : List Block} {b : Block}
    (h : Plugged (pre ++ b :: post)) (hfree : b.used = false) :
    Plugged (pre ++ carve hdr least need b ++ post) := by
  obtain ⟨hpre, hpost⟩ := List.isChain_split.mp h
  have huse : ∀ n, Plugged (pre ++ [⟨n, true⟩]) := by
    intro n
    refine List.isChain_append.mpr ⟨(List.isChain_append.mp hpre).1, List.isChain_singleton _, ?_⟩
    simp
  rw [List.append_assoc, carve]
  split
  case isTrue =>
    refine List.isChain_split.mpr ⟨huse _, List.isChain_cons_cons.mpr ⟨.inl rfl, ?_⟩⟩
    cases post with
    | nil => exact List.isChain_singleton _
    | cons c post =>
      obtain ⟨hbc, hrest⟩ := List.isChain_cons_cons.mp hpost
      exact List.isChain_cons_cons.mpr ⟨.inr (hbc.resolve_left (by simp [hfree])), hrest⟩
  case isFalse =>
    refine List.isChain_split.mpr ⟨huse _, ?_⟩
    cases post with
    | nil => exact List.isChain_singleton _
    | cons c post =>
      exact List.isChain_cons_cons.mpr ⟨.inl rfl, (List.isChain_cons_cons.mp hpost).2⟩

/-! ## The operations -/

section Operations

variable {grain floor hdr least limit need : ℕ} {bs : List Block}

/-- A request that succeeds cuts its block from a free one that is large enough. -/
theorem allocate_spec (hsound : Sound grain floor bs) (hfloor : 0 < floor) {x : ℕ} {cs : List Block}
    (h : allocate hdr least limit need bs = some (x, cs)) :
    ∃ pre b post, bs = pre ++ b :: post ∧ x = total pre ∧ x < limit ∧ b.used = false ∧
      hdr + need ≤ b.size ∧ cs = pre ++ carve hdr least need b ++ post := by
  obtain ⟨y, hy, heq⟩ := Option.map_eq_some_iff.mp h
  obtain ⟨rfl, rfl⟩ := Prod.mk.inj heq
  obtain ⟨pre, b, post, rfl, rfl, hlimit, hfree, hfit⟩ := firstFit_spec hy
  have hpos : ∀ c ∈ pre, 0 < c.size := fun c hc =>
    hsound.pos hfloor c (List.mem_append_left _ hc)
  rw [replaceAt_append _ _ _ _ hpos]
  rw [Nat.zero_add] at hlimit ⊢
  exact ⟨pre, b, post, rfl, rfl, hlimit, hfree, hfit, rfl⟩

/-- A release at the beginning of a block gives back that block. -/
theorem release_append (x : ℕ) {pre post : List Block} {b : Block} (hpos : ∀ c ∈ pre, 0 < c.size)
    (hx : x = total pre) :
    release x (pre ++ b :: post) = coalesce (pre ++ ⟨b.size, false⟩ :: post) := by
  have hreplace := replaceAt_append (fun b => [⟨b.size, false⟩]) 0 b post hpos
  rw [Nat.zero_add] at hreplace
  rw [release, hx, hreplace]
  simp

/-- Giving back the block just taken restores the blocks as they were. -/
theorem release_allocate (hsound : Sound grain floor bs) (hfloor : 0 < floor) {x : ℕ} {cs : List Block}
    (h : allocate hdr least limit need bs = some (x, cs)) : release x cs = bs := by
  obtain ⟨pre, b, post, rfl, rfl, -, hfree, hfit, rfl⟩ := allocate_spec hsound hfloor h
  have hpos : ∀ c ∈ pre, 0 < c.size := fun c hc =>
    hsound.pos hfloor c (List.mem_append_left _ hc)
  have hb : b = ⟨b.size, false⟩ := by rw [← hfree]
  have hwhole : coalesce (pre ++ ⟨b.size, false⟩ :: post) = pre ++ b :: post := by
    rw [← hb]
    exact coalesce_of_plugged hsound.plugged
  rw [List.append_assoc, carve]
  split
  case isTrue =>
    -- the rest that was cut off is free, and joins again
    rw [List.cons_append, release_append _ hpos rfl]
    change coalesce (pre ++ ⟨hdr + need, false⟩ :: ⟨b.size - (hdr + need), false⟩ :: post) = _
    rw [coalesce_merge, Nat.add_sub_cancel' hfit, hwhole]
  case isFalse =>
    rw [List.cons_append, release_append _ hpos rfl]
    exact hwhole

/-- An allocation keeps the list sound. -/
theorem Sound.allocate (hsound : Sound grain floor bs) (hfloor : 0 < floor) (hhdr : grain ∣ hdr)
    (hneed : grain ∣ need) (hleast : floor ≤ hdr + least) (hsize : floor ≤ hdr + need) {x : ℕ}
    {cs : List Block} (h : allocate hdr least limit need bs = some (x, cs)) : Sound grain floor cs := by
  obtain ⟨pre, b, post, rfl, rfl, -, hfree, hfit, rfl⟩ := allocate_spec hsound hfloor h
  have hmid : ∀ c ∈ carve hdr least need b, grain ∣ c.size ∧ floor ≤ c.size := by
    have hb : b ∈ pre ++ b :: post := List.mem_append_right _ List.mem_cons_self
    have hhead := Nat.dvd_add hhdr hneed
    rw [carve]
    split
    case isTrue hcut =>
      have hrest := Nat.dvd_sub (hsound.grain b hb) hhead
      simp only [List.forall_mem_cons, List.not_mem_nil, false_implies, implies_true, and_true]
      exact ⟨⟨hhead, hsize⟩, hrest, by omega⟩
    case isFalse =>
      simp only [List.forall_mem_cons, List.not_mem_nil, false_implies, implies_true, and_true]
      exact ⟨hsound.grain b hb, hsound.floor b hb⟩
  have hall : ∀ c ∈ pre ++ carve hdr least need b ++ post, grain ∣ c.size ∧ floor ≤ c.size := by
    intro c hc
    rcases List.mem_append.mp hc with hc | hc
    · rcases List.mem_append.mp hc with hc | hc
      · have hmem := List.mem_append_left (b :: post) hc
        exact ⟨hsound.grain c hmem, hsound.floor c hmem⟩
      · exact hmid c hc
    · have hmem := List.mem_append_right pre (List.mem_cons_of_mem b hc)
      exact ⟨hsound.grain c hmem, hsound.floor c hmem⟩
  exact ⟨fun c hc => (hall c hc).1, fun c hc => (hall c hc).2, plugged_carve hsound.plugged hfree⟩

/-- A request adds one block to those in use and leaves the others alone. -/
theorem taken_allocate (hsound : Sound grain floor bs) (hfloor : 0 < floor) {x : ℕ} {cs : List Block}
    (h : Arena.allocate hdr least limit need bs = some (x, cs)) :
    ∃ n, hdr + need ≤ n ∧ (taken 0 cs).Perm ((x, n) :: taken 0 bs) := by
  obtain ⟨pre, b, post, rfl, rfl, -, hfree, hfit, rfl⟩ := allocate_spec hsound hfloor h
  refine ⟨carved hdr least need b, le_carved hfit, ?_⟩
  rw [taken_append, taken_append, taken_append, total_append, total_carve hfit, taken_carve]
  simp only [taken, hfree, Bool.false_eq_true, if_false, Nat.zero_add, List.append_assoc]
  exact List.perm_middle

/-- Giving back a block takes it from those in use and leaves the others alone. -/
theorem taken_release (hsound : Sound grain floor bs) (hfloor : 0 < floor) {x n : ℕ}
    (h : (x, n) ∈ taken 0 bs) : (taken 0 bs).Perm ((x, n) :: taken 0 (release x bs)) := by
  obtain ⟨pre, post, rfl, hx⟩ := mem_taken_iff.mp h
  have hpos : ∀ c ∈ pre, 0 < c.size := fun c hc =>
    hsound.pos hfloor c (List.mem_append_left _ hc)
  rw [Nat.zero_add] at hx
  rw [release_append x hpos hx, taken_coalesce, taken_append, taken_append, hx]
  simp only [taken, if_true, Bool.false_eq_true, if_false, Nat.zero_add]
  exact List.perm_middle

/-- A release keeps the list sound. -/
theorem Sound.release (hsound : Sound grain floor bs) (hfloor : 0 < floor) {x n : ℕ}
    (h : (x, n) ∈ taken 0 bs) : Sound grain floor (release x bs) := by
  obtain ⟨pre, post, rfl, hx⟩ := mem_taken_iff.mp h
  have hpos : ∀ c ∈ pre, 0 < c.size := fun c hc =>
    hsound.pos hfloor c (List.mem_append_left _ hc)
  rw [Nat.zero_add] at hx
  rw [release_append x hpos hx]
  have hsizes : ∀ P : ℕ → Prop, (∀ c ∈ pre ++ (⟨n, true⟩ : Block) :: post, P c.size) →
      ∀ c ∈ pre ++ (⟨n, false⟩ : Block) :: post, P c.size := by
    intro P hall
    rw [List.forall_mem_append, List.forall_mem_cons] at hall ⊢
    exact hall
  exact Sound.coalesce (hsizes _ hsound.grain) (hsizes _ hsound.floor)

/-- A release takes its block from what is in use. -/
theorem charged_release (hsound : Sound grain floor bs) (hfloor : 0 < floor) {x n : ℕ}
    (h : (x, n) ∈ taken 0 bs) : charged bs = n + charged (Arena.release x bs) := by
  obtain ⟨pre, post, rfl, hx⟩ := mem_taken_iff.mp h
  have hpos : ∀ c ∈ pre, 0 < c.size := fun c hc =>
    hsound.pos hfloor c (List.mem_append_left _ hc)
  rw [Nat.zero_add] at hx
  rw [release_append x hpos hx, charged_coalesce]
  simp only [charged_append, charged, if_true, Bool.false_eq_true, if_false]
  omega

end Operations

end InfraredModule.Foundation.Arena
