import Mathlib.Algebra.Group.Nat.Defs
import Mathlib.Data.List.GetD
import Mathlib.Tactic.Common

/-!
# Blocks in a memory with modular addresses

A memory is a function of a machine address. `overlay m base data` is the memory `m` with the items of
`data` from `base` on. Where an address lies with respect to a block is its `offset`, a number that needs
no case for the end of the address space.
-/

set_option autoImplicit false

namespace InfraredModule.Foundation

variable {w : ℕ} {α : Type}

/-- How far an address lies behind a base. -/
def offset (base x : BitVec w) : ℕ := (x - base).toNat

/-- Memory with a block of data laid over it, from an address on. -/
def overlay (m : BitVec w → α) (base : BitVec w) (data : List α) : BitVec w → α := fun x =>
  data.getD (offset base x) (m x)

/-- An offset is less than the size of the address space. -/
theorem offset_lt (base x : BitVec w) : offset base x < 2 ^ w := (x - base).isLt

/-- The offset of the `i`-th cell is `i`. -/
@[simp] theorem offset_add_ofNat (base : BitVec w) {i : ℕ} (h : i < 2 ^ w) :
    offset base (base + BitVec.ofNat w i) = i := by
  rw [offset, BitVec.add_comm, BitVec.add_sub_cancel, BitVec.toNat_ofNat, Nat.mod_eq_of_lt h]

/-- An address is its base and its offset. -/
theorem add_offset (base x : BitVec w) : base + BitVec.ofNat w (offset base x) = x := by
  rw [offset, BitVec.ofNat_toNat, BitVec.setWidth_eq, BitVec.add_comm, BitVec.sub_add_cancel]

/-- The offset from a base further on. -/
theorem offset_add_base (base x : BitVec w) {n : ℕ} (hn : n ≤ 2 ^ w) :
    offset (base + BitVec.ofNat w n) x =
      if n ≤ offset base x then offset base x - n else offset base x + 2 ^ w - n := by
  have hlt := offset_lt base x
  have hmoved : ∀ o, o < 2 ^ w → BitVec.ofNat w (n + o) = BitVec.ofNat w (offset base x) →
      offset (base + BitVec.ofNat w n) x = o := fun o ho heq => by
    have hx : x = base + BitVec.ofNat w n + BitVec.ofNat w o := by
      rw [BitVec.add_assoc, ← BitVec.ofNat_add, heq, add_offset]
    rw [hx, offset_add_ofNat _ ho]
  split
  case isTrue hle => exact hmoved _ (by omega) (by rw [Nat.add_sub_cancel' hle])
  case isFalse hgt =>
    refine hmoved _ (by omega) ?_
    rw [show n + (offset base x + 2 ^ w - n) = offset base x + 2 ^ w by omega]
    apply BitVec.eq_of_toNat_eq
    rw [BitVec.toNat_ofNat, BitVec.toNat_ofNat, Nat.add_mod_right]

/-- Inside the block its data is read. -/
theorem overlay_of_lt (m : BitVec w → α) {base x : BitVec w} {data : List α} (h : offset base x < data.length) :
    overlay m base data x = data.get ⟨offset base x, h⟩ := by
  rw [overlay, List.getD_eq_getElem _ _ h]
  rfl

/-- Outside it what was there before. -/
theorem overlay_of_le (m : BitVec w → α) {base x : BitVec w} {data : List α} (h : data.length ≤ offset base x) :
    overlay m base data x = m x := List.getD_eq_default _ _ h

/-- A block behind a block. -/
theorem overlay_append (m : BitVec w → α) (base : BitVec w) (xs ys : List α)
    (h : xs.length + ys.length ≤ 2 ^ w) :
    overlay (overlay m base xs) (base + BitVec.ofNat w xs.length) ys = overlay m base (xs ++ ys) := by
  funext x
  have hlt := offset_lt base x
  simp only [overlay]
  rw [offset_add_base base x (by omega)]
  split
  case isTrue hle =>
    rw [List.getD_append_right _ _ _ _ hle, List.getD_eq_default xs _ hle]
  case isFalse hlt' =>
    rw [List.getD_append _ _ _ _ (by omega), List.getD_eq_default ys _ (by omega),
      List.getD_eq_getElem _ _ (by omega)]

end InfraredModule.Foundation
