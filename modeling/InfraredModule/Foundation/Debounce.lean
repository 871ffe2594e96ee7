import Mathlib.Data.List.DropRight
import Mathlib.Tactic.Common

/-!
# Debouncing a two-valued signal

The ideal debouncer of length `n`: it holds a level and takes over the other one when it is
read after having been read `n` times in a row. `accepts_recent` says what a takeover means
for the readings before it.
-/

set_option autoImplicit false

namespace InfraredModule.Foundation

/-- The level held, and for how many readings in a row the other one has been read. -/
structure Debounce where
  level : Bool
  other : ℕ
  deriving DecidableEq, Repr

namespace Debounce

variable (n : ℕ)

/-- A reading is taken over: it differs from the level, and enough that differ have come before it. -/
def Accepts (d : Debounce) (l : Bool) : Prop := l ≠ d.level ∧ n ≤ d.other

instance (d : Debounce) (l : Bool) : Decidable (Accepts n d l) := inferInstanceAs (Decidable (_ ∧ _))

/-- One reading: the level confirmed, or taken over, or counted against. -/
def next (d : Debounce) (l : Bool) : Debounce :=
  if l = d.level then ⟨d.level, 0⟩ else if n ≤ d.other then ⟨l, 0⟩ else ⟨d.level, d.other + 1⟩

/-- The debouncer after some readings. -/
def after (start : Bool) (levels : List Bool) : Debounce := levels.foldl (next n) ⟨start, 0⟩

variable {n}

/-- The last reading comes after the others. -/
theorem after_concat (start : Bool) (levels : List Bool) (l : Bool) :
    after n start (levels ++ [l]) = next n (after n start levels) l := by
  rw [after, List.foldl_append]
  rfl

/-- A reading that is taken over becomes the level. -/
theorem next_of_accepts {d : Debounce} {l : Bool} (h : Accepts n d l) : next n d l = ⟨l, 0⟩ := by
  rw [next, if_neg h.1, if_pos h.2]

/-- Any other leaves the level as it is. -/
theorem next_level_of_not_accepts {d : Debounce} {l : Bool} (h : ¬ Accepts n d l) :
    (next n d l).level = d.level := by
  unfold next
  split
  · rfl
  · rename_i hne
    rw [if_neg fun hle => h ⟨hne, hle⟩]

/-- The readings counted are the last ones, and none of them is the level held. -/
theorem recent (start : Bool) (levels : List Bool) :
    (after n start levels).other ≤ n ∧ (after n start levels).other ≤ levels.length ∧
      ∀ l ∈ levels.rtake (after n start levels).other, l ≠ (after n start levels).level := by
  induction levels using List.reverseRecOn with
  | nil => simp [after]
  | append_singleton levels l ih =>
    obtain ⟨hbound, hlength, hother⟩ := ih
    rw [after_concat]
    generalize after n start levels = d at hbound hlength hother ⊢
    unfold next
    split
    · simp
    · rename_i hne
      split
      · simp
      · rename_i hlow
        refine ⟨Nat.lt_of_not_le hlow, by simpa using hlength, ?_⟩
        rw [List.rtake_concat_succ]
        intro x hx
        rcases List.mem_append.mp hx with hx | hx
        · exact hother x hx
        · rw [List.mem_singleton.mp hx]
          exact hne

/-- **A takeover is well founded.** The level taken over was read `n` times in a row before. -/
theorem accepts_recent {start : Bool} {levels : List Bool} {l : Bool}
    (h : Accepts n (after n start levels) l) :
    n ≤ levels.length ∧ ∀ x ∈ levels.rtake n, x = l := by
  obtain ⟨hne, hle⟩ := h
  obtain ⟨hbound, hlength, hother⟩ := recent (n := n) start levels
  have hcount : (after n start levels).other = n := Nat.le_antisymm hbound hle
  rw [hcount] at hlength hother
  refine ⟨hlength, fun x hx => ?_⟩
  have hx := hother x hx
  revert hx hne
  cases x <;> cases l <;> cases (after n start levels).level <;> simp

end Debounce

end InfraredModule.Foundation
