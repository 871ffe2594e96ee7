import InfraredModule.Foundation.Program

/-!
# Runs of one system as runs of another

A system whose inputs are finer than those of another: an input of the first is worth none,
one or several inputs of the second, and which ones may depend on the inputs before it. A
`Translation` reads the fine inputs with a memory of its own and writes the coarse ones.
`Translation.simulates` is the rule: if one step of the fine system is matched by the steps it
is translated to, so is every run, in the state it ends in and in all that it emits.
-/

set_option autoImplicit false

namespace InfraredModule.Foundation

variable {σ τ ο ι κ γ : Type}

/-- Everything that a run emits, in order. -/
def emitted (prog : ι → Cmd σ ο) : σ → List ι → List ο
  | _, [] => []
  | s, i :: inputs => (prog i s).2 ++ emitted prog (prog i s).1 inputs

/-- No input, no output. -/
@[simp] theorem emitted_nil (prog : ι → Cmd σ ο) (s : σ) : emitted prog s [] = [] := rfl

/-- The output of the first input comes first. -/
@[simp] theorem emitted_cons (prog : ι → Cmd σ ο) (s : σ) (i : ι) (inputs : List ι) :
    emitted prog s (i :: inputs) = (prog i s).2 ++ emitted prog (prog i s).1 inputs := rfl

/-- The second part of a run starts where the first has led. -/
theorem emitted_append (prog : ι → Cmd σ ο) (s : σ) (xs ys : List ι) :
    emitted prog s (xs ++ ys) = emitted prog s xs ++ emitted prog (run prog s xs) ys := by
  induction xs generalizing s with
  | nil => rfl
  | cons i xs ih => rw [List.cons_append, emitted_cons, emitted_cons, ih, List.append_assoc, run_cons]

/-- An input read with a memory: the memory after it, and the inputs it is worth. -/
abbrev Translation (γ ι κ : Type) : Type := γ → ι → γ × List κ

namespace Translation

/-- The memory after some inputs. -/
def memory (tr : Translation γ ι κ) (g : γ) (inputs : List ι) : γ :=
  inputs.foldl (fun g i => (tr g i).1) g

/-- All that they are worth. -/
def inputs (tr : Translation γ ι κ) : γ → List ι → List κ
  | _, [] => []
  | g, i :: rest => (tr g i).2 ++ inputs tr (tr g i).1 rest

/-- **Simulation.** What relates the two systems after one step relates them after every run, and they
emit the same. -/
theorem simulates {fine : ι → Cmd σ ο} {coarse : κ → Cmd τ ο} (tr : Translation γ ι κ)
    (R : γ → σ → τ → Prop)
    (hstep : ∀ g s t i, R g s t →
      R (tr g i).1 (fine i s).1 (run coarse t (tr g i).2) ∧ (fine i s).2 = emitted coarse t (tr g i).2)
    {g : γ} {s : σ} {t : τ} (h : R g s t) (rest : List ι) :
    R (tr.memory g rest) (run fine s rest) (run coarse t (tr.inputs g rest)) ∧
      emitted fine s rest = emitted coarse t (tr.inputs g rest) := by
  induction rest generalizing g s t with
  | nil => exact ⟨h, rfl⟩
  | cons i rest ih =>
    obtain ⟨hnext, hsame⟩ := hstep g s t i h
    obtain ⟨hlast, hrest⟩ := ih hnext
    rw [run_cons, inputs, run_append, emitted_cons, emitted_append, hsame, hrest]
    exact ⟨hlast, rfl⟩

end Translation

end InfraredModule.Foundation
