import InfraredModule.Foundation.Program

/-!
# History variables

A value that a program does not know of, kept beside its state: every observation brings it up to
date from the state the observation is made in. A statement carries it through its atomic steps
(`Stmt.next_noted`), so an outline of the noted statement may relate what was observed before to
what the memory holds now.
-/

set_option autoImplicit false

namespace InfraredModule.Foundation

variable {σ ο γ : Type}

/-- The value after the observations of one command. -/
def noteAll (note : γ → σ → ο → γ) (s : σ) (g : γ) (obs : List ο) : γ :=
  obs.foldl (fun g o => note g s o) g

/-- Observations that mean nothing to the variable leave it alone. -/
theorem noteAll_ignored {note : γ → σ → ο → γ} {s : σ} {obs : List ο}
    (h : ∀ o ∈ obs, ∀ g, note g s o = g) (g : γ) : noteAll note s g obs = g := by
  induction obs with
  | nil => rfl
  | cons o obs ih =>
    show noteAll note s (note g s o) obs = g
    rw [h o List.mem_cons_self g]
    exact ih fun o' ho' => h o' (List.mem_cons_of_mem o ho')

/-- A command with the variable beside its state. -/
def Cmd.noted (note : γ → σ → ο → γ) (c : Cmd σ ο) : Cmd (σ × γ) ο := fun x =>
  (((c x.1).1, noteAll note x.1 x.2 (c x.1).2), (c x.1).2)

namespace Stmt

/-- A statement with the variable beside its state. -/
def noted (note : γ → σ → ο → γ) : Stmt σ ο → Stmt (σ × γ) ο
  | skip => skip
  | act c => act (c.noted note)
  | seq p q => seq (p.noted note) (q.noted note)
  | ite b p q => ite (fun x => b x.1) (p.noted note) (q.noted note)

/-- A statement that is not done is not done with the variable either. -/
theorem noted_ne_skip {note : γ → σ → ο → γ} {p : Stmt σ ο} (hp : p ≠ skip) :
    p.noted note ≠ skip := by
  cases p with
  | skip => exact absurd rfl hp
  | _ =>
    intro h
    cases h

/-- The variable does not change what a statement does. -/
theorem next_noted (note : γ → σ → ο → γ) (p : Stmt σ ο) (s : σ) (g : γ) :
    (p.noted note).next (s, g) =
      ((((p.next s).1.1, noteAll note s g (p.next s).1.2), (p.next s).1.2),
        (p.next s).2.noted note) := by
  induction p with
  | skip => rfl
  | act c => rfl
  | seq p q ihp _ =>
    rcases eq_or_ne p skip with rfl | hp
    · rfl
    · rw [noted, next_seq (noted_ne_skip hp), next_seq hp, ihp]
      rfl
  | ite b p q _ _ =>
    simp only [noted, next]
    split <;> rfl

/-- What holds of the atomic steps holds of them with the variable. -/
theorem all_noted {note : γ → σ → ο → γ} {P : Cmd (σ × γ) ο → Prop} {p : Stmt σ ο}
    (h : p.All fun c => P (c.noted note)) : (p.noted note).All P := by
  induction p with
  | skip => trivial
  | act c => exact h
  | seq p q ihp ihq => exact ⟨ihp h.1, ihq h.2⟩
  | ite b p q ihp ihq => exact ⟨ihp h.1, ihq h.2⟩

end Stmt

end InfraredModule.Foundation
