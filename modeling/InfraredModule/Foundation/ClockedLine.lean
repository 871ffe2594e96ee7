import Mathlib.Data.List.Basic
import Mathlib.Tactic.Common

/-!
# A clocked serial line

A sender drives four wires: a select that is active when low, a clock, the data, and a mode that
says what kind of word is sent. The receiver takes the data at every rising edge of the clock while
it is selected and hands on a word when it has all its bits; deselecting it drops a word begun.
`receive_sendWord` is the round trip: the receiver gets the bits of the word, in the order they were
sent, with the mode the line had.
-/

set_option autoImplicit false

namespace InfraredModule.Foundation.ClockedLine

/-- The four wires of the line. -/
inductive Wire where
  | select
  | clock
  | data
  | mode
  deriving DecidableEq, Repr

/-- A wire is driven to a level. -/
abbrev Drive := Wire × Bool

/-- What a receiver keeps: the levels of the wires, and the bits it has taken. -/
structure Receiver where
  select : Bool
  clock : Bool
  data : Bool
  mode : Bool
  /-- The bits of the word begun, in the order they came. -/
  bits : List Bool
  deriving DecidableEq, Repr

/-- The words of `width` bits that one change of a wire completes, each with the mode. -/
def Receiver.step (width : ℕ) (r : Receiver) : Drive → Receiver × List (Bool × List Bool)
  | (.select, v) => ({ r with select := v, bits := if v then [] else r.bits }, [])
  | (.data, v) => ({ r with data := v }, [])
  | (.mode, v) => ({ r with mode := v }, [])
  | (.clock, v) =>
    if v = true ∧ r.clock = false ∧ r.select = false then
      if r.bits.length + 1 = width then
        ({ r with clock := v, bits := [] }, [(r.mode, r.bits ++ [r.data])])
      else ({ r with clock := v, bits := r.bits ++ [r.data] }, [])
    else ({ r with clock := v }, [])

/-- The words a receiver hears, each with the mode it came in. -/
def Receiver.run (width : ℕ) : Receiver → List Drive → Receiver × List (Bool × List Bool)
  | r, [] => (r, [])
  | r, d :: ds =>
    let rest := Receiver.run width (r.step width d).1 ds
    (rest.1, (r.step width d).2 ++ rest.2)

/-- A receiver hears one stretch after the other. -/
theorem Receiver.run_append (width : ℕ) (r : Receiver) (ds es : List Drive) :
    r.run width (ds ++ es) =
      (((r.run width ds).1.run width es).1, (r.run width ds).2 ++ ((r.run width ds).1.run width es).2) := by
  induction ds generalizing r with
  | nil => rfl
  | cons d ds ih => simp only [List.cons_append, Receiver.run, ih, List.append_assoc]

/-! ## Words -/

/-- The clock falls, the data is set, the clock rises. -/
def sendBit (b : Bool) : List Drive := [(.clock, false), (.data, b), (.clock, true)]

/-- A word: select, the bits, deselect. -/
def sendWord (bits : List Bool) : List Drive :=
  (.select, false) :: bits.flatMap sendBit ++ [(.select, true)]

/-- A bit that does not complete the word. -/
theorem run_sendBit_more {width : ℕ} {r : Receiver} (hselect : r.select = false)
    (hmore : r.bits.length + 1 ≠ width) (b : Bool) :
    r.run width (sendBit b) = ({ r with clock := true, data := b, bits := r.bits ++ [b] }, []) := by
  simp [sendBit, Receiver.run, Receiver.step, hselect, hmore]

/-- The last bit of a word completes it. -/
theorem run_sendBit_last {width : ℕ} {r : Receiver} (hselect : r.select = false)
    (hlast : r.bits.length + 1 = width) (b : Bool) :
    r.run width (sendBit b) =
      ({ r with clock := true, data := b, bits := [] }, [(r.mode, r.bits ++ [b])]) := by
  simp [sendBit, Receiver.run, Receiver.step, hselect, hlast]

/-- The bits up to the end of the word, by induction on those still to come. -/
theorem run_sendBits {width : ℕ} {r : Receiver} (hselect : r.select = false) {bits : List Bool}
    (hne : bits ≠ []) (hwidth : r.bits.length + bits.length = width) :
    ∃ v, r.run width (bits.flatMap sendBit) =
      ({ r with clock := true, data := v, bits := [] }, [(r.mode, r.bits ++ bits)]) := by
  induction bits generalizing r with
  | nil => exact absurd rfl hne
  | cons b bits ih =>
    rw [List.flatMap_cons, Receiver.run_append]
    cases bits with
    | nil =>
      rw [run_sendBit_last hselect (by simpa using hwidth)]
      exact ⟨b, by simp [Receiver.run]⟩
    | cons c bits =>
      have hmore : r.bits.length + 1 ≠ width := by
        simp only [List.length_cons] at hwidth
        omega
      rw [run_sendBit_more hselect hmore]
      obtain ⟨v, hrest⟩ := ih (r := { r with clock := true, data := b, bits := r.bits ++ [b] }) hselect
        (List.cons_ne_nil c bits) (by simp only [List.length_append, List.length_cons, List.length_nil] at hwidth ⊢; omega)
      rw [hrest]
      exact ⟨v, by simp⟩

/-- **The round trip of a word.** Whatever the levels of the wires were, a receiver that has no word
begun gets the word and has none begun afterwards. -/
theorem receive_sendWord {width : ℕ} {r : Receiver} (hbegun : r.bits = []) {bits : List Bool} (hne : bits ≠ [])
    (hwidth : bits.length = width) :
    ∃ r', r.run width (sendWord bits) = (r', [(r.mode, bits)]) ∧ r'.bits = [] ∧ r'.mode = r.mode := by
  have hcount : r.bits.length + bits.length = width := by rw [hbegun]; simpa using hwidth
  obtain ⟨v, hbits⟩ := run_sendBits (r := { r with select := false }) rfl hne hcount
  have hselect : (r.step width (.select, false)) = ({ r with select := false }, []) := by
    simp [Receiver.step]
  rw [sendWord, List.cons_append, Receiver.run, hselect, Receiver.run_append, hbits]
  refine ⟨{ r with select := true, clock := true, data := v, bits := [] }, ?_, rfl, rfl⟩
  simp [Receiver.run, Receiver.step, hbegun]

/-- A word between two settings of the mode. -/
theorem receive_mode {width : ℕ} {r : Receiver} (hbegun : r.bits = []) {bits : List Bool} (hne : bits ≠ [])
    (hwidth : bits.length = width) (m m' : Bool) :
    ∃ r', r.run width ((.mode, m) :: sendWord bits ++ [(.mode, m')]) = (r', [(m, bits)]) ∧ r'.bits = [] ∧
      r'.mode = m' := by
  have hset : (r.step width (.mode, m)) = ({ r with mode := m }, []) := rfl
  obtain ⟨r', hword, hbegun', -⟩ :=
    receive_sendWord (r := { r with mode := m }) hbegun hne hwidth
  rw [List.cons_append, Receiver.run, hset, Receiver.run_append, hword]
  exact ⟨{ r' with mode := m' }, rfl, hbegun', rfl⟩

end InfraredModule.Foundation.ClockedLine
