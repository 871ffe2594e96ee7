import Mathlib.Data.List.Induction
import Mathlib.Tactic.Common

/-!
# Commands, statements and their runs

A command changes a state and emits observations (`Cmd`). A statement (`Stmt`) is built
from commands by sequence and choice, and has two meanings:

* `Stmt.exec`: the statement run without interruption, itself a command;
* `Stmt.next`: one atomic step of it, after which other threads may act.

`Stmt.exec_next` and `Stmt.runAlone_eq_exec` connect the two. For a statement among other
threads `Stmt.Outline` is a proof outline: an assertion at every control point, stable
under what the others do; `Stmt.Outline.next` carries it through one atomic step. In a
`Stmt.Watched` outline what is asked of an observation may depend on the state it is made in.

A system is a family of commands, one for each input (`run`). `along_of_invariant` is the
rule every result about all runs goes through: an invariant of the history and the state,
kept by every step that meets a condition, gives its consequence at every step.
-/

set_option autoImplicit false

namespace InfraredModule.Foundation

variable {σ ο ι β : Type}

/-- A command: from a state to the next state and the observations made on the way. -/
abbrev Cmd (σ ο : Type) := σ → σ × List ο

namespace Cmd

/-- Nothing is changed and nothing observed. -/
def skip : Cmd σ ο := fun s => (s, [])

/-- A change of the state that nobody sees. -/
def modify (f : σ → σ) : Cmd σ ο := fun s => (f s, [])

/-- Observations that change nothing. -/
def emit (f : σ → List ο) : Cmd σ ο := fun s => (s, f s)

/-- One command after the other, the second on what the first leaves. -/
def andThen (c d : Cmd σ ο) : Cmd σ ο := fun s =>
  ((d (c s).1).1, (c s).2 ++ (d (c s).1).2)

/-- A command that leaves a view of the state as it was. -/
def Keeps (f : σ → β) (c : Cmd σ ο) : Prop := ∀ s, f (c s).1 = f s

/-- A command all of whose observations are good. -/
def Emits (good : ο → Prop) (c : Cmd σ ο) : Prop := ∀ s, ∀ o ∈ (c s).2, good o

/-- What `skip` does. -/
@[simp] theorem skip_apply (s : σ) : (skip : Cmd σ ο) s = (s, []) := rfl

/-- What `modify` does. -/
@[simp] theorem modify_apply (f : σ → σ) (s : σ) : (modify f : Cmd σ ο) s = (f s, []) := rfl

/-- What `emit` does. -/
@[simp] theorem emit_apply (f : σ → List ο) (s : σ) : emit f s = (s, f s) := rfl

/-- What a sequence does. -/
@[simp] theorem andThen_apply (c d : Cmd σ ο) (s : σ) :
    andThen c d s = ((d (c s).1).1, (c s).2 ++ (d (c s).1).2) := rfl

/-- A sequence keeps what both parts keep. -/
theorem Keeps.andThen {f : σ → β} {c d : Cmd σ ο} (hc : Keeps f c) (hd : Keeps f d) :
    Keeps f (c.andThen d) := by
  intro s
  rw [andThen_apply, hd, hc]

/-- A command that looks at the state to choose what to do. -/
theorem Keeps.choose {f : σ → β} {c : Cmd σ ο} (h : ∀ s, ∃ d, c s = d s ∧ Keeps f d) :
    Keeps f c := by
  intro s
  obtain ⟨d, hd, hkeep⟩ := h s
  rw [hd, hkeep]

/-- A change of the state emits nothing, so nothing that is not good. -/
theorem emits_modify {good : ο → Prop} (f : σ → σ) : Emits good (modify f) :=
  fun _ _ ho => absurd ho List.not_mem_nil

/-- One observation, good in every state. -/
theorem emits_emit {good : ο → Prop} {f : σ → ο} (h : ∀ s, good (f s)) :
    Emits good (emit fun s => [f s]) := by
  intro s o ho
  rw [List.mem_singleton.mp ho]
  exact h s

/-- The observations of a sequence are those of its parts. -/
theorem Emits.andThen {good : ο → Prop} {c d : Cmd σ ο} (hc : Emits good c) (hd : Emits good d) :
    Emits good (c.andThen d) := by
  intro s o ho
  rcases List.mem_append.mp ho with h | h
  · exact hc s o h
  · exact hd _ o h

/-- A command that in each state does what some command with good observations does. -/
theorem Emits.choose {good : ο → Prop} {c : Cmd σ ο} (h : ∀ s, ∃ d, c s = d s ∧ Emits good d) :
    Emits good c := by
  intro s
  obtain ⟨d, hd, hemits⟩ := h s
  rw [hd]
  exact hemits s

end Cmd

/-- Statements over atomic commands. -/
inductive Stmt (σ ο : Type) where
  | skip
  | act (c : Cmd σ ο)
  | seq (p q : Stmt σ ο)
  | ite (b : σ → Bool) (p q : Stmt σ ο)

namespace Stmt

/-- Do a statement only when a test holds. -/
def when (b : σ → Bool) (p : Stmt σ ο) : Stmt σ ο := ite b p skip

/-- Statements one after the other. -/
def block : List (Stmt σ ο) → Stmt σ ο
  | [] => skip
  | p :: ps => seq p (block ps)

/-- A statement run without interruption. -/
def exec : Stmt σ ο → Cmd σ ο
  | skip => Cmd.skip
  | act c => c
  | seq p q => p.exec.andThen q.exec
  | ite b p q => fun s => if b s then p.exec s else q.exec s

/-- One atomic step: what it does, and the statement that remains. A test is a step of its
own, so others may act between a test and what depends on it. -/
def next : Stmt σ ο → σ → (σ × List ο) × Stmt σ ο
  | skip, s => ((s, []), skip)
  | act c, s => (c s, skip)
  | seq skip q, s => ((s, []), q)
  | seq p q, s => ((p.next s).1, seq (p.next s).2 q)
  | ite b p q, s => ((s, []), if b s then p else q)

/-- What is executed of `skip`. -/
@[simp] theorem exec_skip (s : σ) : (skip : Stmt σ ο).exec s = (s, []) := rfl

/-- What is executed of an atomic step. -/
@[simp] theorem exec_act (c : Cmd σ ο) : (act c).exec = c := rfl

/-- What is executed of a sequence. -/
@[simp] theorem exec_seq (p q : Stmt σ ο) : (seq p q).exec = p.exec.andThen q.exec := rfl

/-- What is executed of a choice. -/
@[simp] theorem exec_ite (b : σ → Bool) (p q : Stmt σ ο) (s : σ) :
    (ite b p q).exec s = if b s then p.exec s else q.exec s := rfl

/-- What is executed of a choice with nothing on its other side. -/
@[simp] theorem exec_when (b : σ → Bool) (p : Stmt σ ο) (s : σ) :
    (when b p).exec s = if b s then p.exec s else (s, []) := rfl

/-- No statements. -/
@[simp] theorem block_nil : (block [] : Stmt σ ο) = skip := rfl

/-- The first statement, then the others. -/
@[simp] theorem block_cons (p : Stmt σ ο) (ps : List (Stmt σ ο)) :
    block (p :: ps) = seq p (block ps) := rfl

/-- The first step of a sequence is that of its first part. -/
theorem next_seq {p : Stmt σ ο} (hp : p ≠ skip) (q : Stmt σ ο) (s : σ) :
    (seq p q).next s = ((p.next s).1, seq (p.next s).2 q) := by
  cases p with
  | skip => exact absurd rfl hp
  | _ => rfl

/-! ## The atomic steps of a statement make up its execution -/

/-- After one atomic step, executing what remains completes the execution. -/
theorem exec_next (p : Stmt σ ο) (s : σ) :
    p.exec s = (((p.next s).2.exec (p.next s).1.1).1,
      (p.next s).1.2 ++ ((p.next s).2.exec (p.next s).1.1).2) := by
  induction p generalizing s with
  | skip => rfl
  | act c => simp [next]
  | seq p q ihp _ =>
    rcases eq_or_ne p skip with rfl | hp
    · simp [next]
    · rw [next_seq hp, exec_seq, exec_seq, Cmd.andThen_apply, Cmd.andThen_apply, ihp s]
      simp only [List.append_assoc]
  | ite b p q _ _ =>
    simp only [next, exec_ite]
    split <;> simp

/-- A bound on the atomic steps a statement takes. -/
def work : Stmt σ ο → ℕ
  | skip => 0
  | act _ => 1
  | seq p q => p.work + q.work + 1
  | ite _ p q => max p.work q.work + 1

/-- A statement without work is done. -/
theorem eq_skip_of_work_eq_zero {p : Stmt σ ο} (h : p.work = 0) : p = skip := by
  cases p with
  | skip => rfl
  | _ => simp [work] at h

/-- Every step leaves less work. -/
theorem work_next_lt (p : Stmt σ ο) (s : σ) (h : p.work ≠ 0) : (p.next s).2.work < p.work := by
  induction p generalizing s with
  | skip => exact absurd rfl h
  | act c => simp [next, work]
  | seq p q ihp _ =>
    rcases eq_or_ne p skip with rfl | hp
    · simp [next, work]
    · have := ihp s fun hz => hp (eq_skip_of_work_eq_zero hz)
      rw [next_seq hp]
      simp only [work]
      omega
  | ite b p q _ _ =>
    simp only [next]
    split <;> simp only [work] <;> omega

/-- Take `n` atomic steps with nobody else acting. -/
def runAlone (p : Stmt σ ο) : ℕ → σ → (σ × List ο) × Stmt σ ο
  | 0, s => ((s, []), p)
  | n + 1, s =>
    let t := (p.next s).2.runAlone n (p.next s).1.1
    ((t.1.1, (p.next s).1.2 ++ t.1.2), t.2)

/-- **The two meanings agree.** Left alone, a statement finishes, and what it has done is its
execution. -/
theorem runAlone_eq_exec (p : Stmt σ ο) (s : σ) :
    p.runAlone p.work s = (p.exec s, skip) := by
  suffices h : ∀ n (p : Stmt σ ο) s, p.work ≤ n → p.runAlone n s = (p.exec s, skip) from
    h p.work p s (Nat.le_refl _)
  intro n
  induction n with
  | zero =>
    intro p s hp
    rw [eq_skip_of_work_eq_zero (Nat.le_zero.mp hp)]
    rfl
  | succ n ih =>
    intro p s hp
    have hnext : (p.next s).2.work ≤ n := by
      by_cases hz : p.work = 0
      · rw [eq_skip_of_work_eq_zero hz]
        simp [next, work]
      · have := work_next_lt p s hz
        omega
    simp only [runAlone, ih _ _ hnext]
    rw [exec_next p s]

/-! ## What every action keeps and emits -/

/-- Every atomic command of a statement has a property. -/
def All (P : Cmd σ ο → Prop) : Stmt σ ο → Prop
  | skip => True
  | act c => P c
  | seq p q => p.All P ∧ q.All P
  | ite _ p q => p.All P ∧ q.All P

/-- An atomic step changes nothing or runs one of the commands, and what remains is made of them. -/
theorem All.next {P : Cmd σ ο → Prop} {p : Stmt σ ο} (h : p.All P) (s : σ) :
    ((p.next s).1 = (s, []) ∨ ∃ c, P c ∧ (p.next s).1 = c s) ∧ (p.next s).2.All P := by
  induction p with
  | skip => exact ⟨.inl rfl, trivial⟩
  | act c => exact ⟨.inr ⟨c, h, rfl⟩, trivial⟩
  | seq p q ihp _ =>
    rcases eq_or_ne p skip with rfl | hp
    · exact ⟨.inl rfl, h.2⟩
    · obtain ⟨hstep, hrest⟩ := ihp h.1
      rw [next_seq hp]
      exact ⟨hstep, hrest, h.2⟩
  | ite b p q _ _ =>
    refine ⟨.inl rfl, ?_⟩
    simp only [Stmt.next]
    split
    · exact h.1
    · exact h.2

/-- A view kept by every atomic command is kept by the execution. -/
theorem keeps_exec {f : σ → β} {p : Stmt σ ο} (h : p.All (Cmd.Keeps f)) : Cmd.Keeps f p.exec := by
  induction p with
  | skip => exact fun _ => rfl
  | act c => exact h
  | seq p q ihp ihq => exact (ihp h.1).andThen (ihq h.2)
  | ite b p q ihp ihq =>
    intro s
    rw [exec_ite]
    split
    · exact ihp h.1 s
    · exact ihq h.2 s

/-- A statement all of whose commands make good observations makes good ones. -/
theorem emits_exec {good : ο → Prop} {p : Stmt σ ο} (h : p.All (Cmd.Emits good)) :
    Cmd.Emits good p.exec := by
  induction p with
  | skip => exact fun s o ho => absurd ho (List.not_mem_nil)
  | act c => exact h
  | seq p q ihp ihq => exact (ihp h.1).andThen (ihq h.2)
  | ite b p q ihp ihq =>
    intro s o ho
    rw [exec_ite] at ho
    split at ho
    · exact ihp h.1 s o ho
    · exact ihq h.2 s o ho

/-! ## Proof outlines under interference -/

/-- An assertion no step of the others can break. -/
def Stable (env : σ → σ → Prop) (P : σ → Prop) : Prop := ∀ s t, env s t → P s → P t

/-- A proof outline: a stable assertion at every control point, and every observation made
from a state where its assertion holds is good. -/
inductive Outline (env : σ → σ → Prop) (good : ο → Prop) :
    (σ → Prop) → Stmt σ ο → (σ → Prop) → Prop where
  | skip {P Q : σ → Prop} (stable : Stable env P) (post : ∀ s, P s → Q s) : Outline env good P skip Q
  | act {P Q : σ → Prop} {c : Cmd σ ο} (stable : Stable env P) (stable' : Stable env Q)
      (post : ∀ s, P s → Q (c s).1) (obs : ∀ s, P s → ∀ o ∈ (c s).2, good o) :
      Outline env good P (act c) Q
  | seq {P M Q : σ → Prop} {p q : Stmt σ ο} (first : Outline env good P p M)
      (second : Outline env good M q Q) : Outline env good P (seq p q) Q
  | ite {P P₁ P₂ Q : σ → Prop} {b : σ → Bool} {p q : Stmt σ ο} (stable : Stable env P)
      (yes : ∀ s, P s → b s = true → P₁ s) (no : ∀ s, P s → b s = false → P₂ s)
      (left : Outline env good P₁ p Q) (right : Outline env good P₂ q Q) :
      Outline env good P (ite b p q) Q

namespace Outline

variable {env : σ → σ → Prop} {good : ο → Prop} {P Q : σ → Prop} {p : Stmt σ ο}

/-- The precondition of an outline is stable. -/
theorem stable (h : Outline env good P p Q) : Stable env P := by
  induction h with
  | skip stable _ => exact stable
  | act stable _ _ _ => exact stable
  | seq _ _ ih _ => exact ih
  | ite stable _ _ _ _ _ _ => exact stable

/-- One atomic step from a state that meets its assertion makes only good observations and
leaves an outline of what remains. -/
theorem next (h : Outline env good P p Q) {s : σ} (hs : P s) :
    (∀ o ∈ (p.next s).1.2, good o) ∧
      ∃ P', Outline env good P' (p.next s).2 Q ∧ P' (p.next s).1.1 := by
  induction h with
  | skip stable post => exact ⟨by simp [Stmt.next], _, .skip stable post, hs⟩
  | act stable stable' post obs =>
    exact ⟨obs s hs, _, .skip stable' (fun _ h => h), post s hs⟩
  | @seq P M Q p q first second ih _ =>
    rcases eq_or_ne p .skip with rfl | hp
    · obtain ⟨-, post⟩ := first
      exact ⟨by simp [Stmt.next], M, second, post s hs⟩
    · obtain ⟨hobs, P', hout, hP'⟩ := ih hs
      rw [next_seq hp]
      exact ⟨hobs, P', .seq hout second, hP'⟩
  | @ite P P₁ P₂ Q b p q stable yes no left right _ _ =>
    refine ⟨by simp [Stmt.next], ?_⟩
    simp only [Stmt.next]
    cases hb : b s with
    | true => exact ⟨P₁, left, yes s hs hb⟩
    | false => exact ⟨P₂, right, no s hs hb⟩

/-- An execution that nobody interrupts meets the outline. -/
theorem exec (h : Outline env good P p Q) {s : σ} (hs : P s) :
    Q (p.exec s).1 ∧ ∀ o ∈ (p.exec s).2, good o := by
  induction h generalizing s with
  | skip _ post => exact ⟨post s hs, fun o ho => absurd ho List.not_mem_nil⟩
  | act _ _ post obs => exact ⟨post s hs, obs s hs⟩
  | seq _ _ ihp ihq =>
    obtain ⟨hmid, hfirst⟩ := ihp hs
    obtain ⟨hend, hsecond⟩ := ihq hmid
    exact ⟨hend, fun o ho => (List.mem_append.mp ho).elim (hfirst o) (hsecond o)⟩
  | @ite P P₁ P₂ Q b p q _ yes no _ _ ihp ihq =>
    rw [exec_ite]
    split
    case isTrue htest => exact ihp (yes s hs htest)
    case isFalse htest => exact ihq (no s hs (Bool.eq_false_iff.mpr htest))

end Outline

/-! ## Outlines that see the state an observation is made in -/

end Stmt

/-- A command whose observations carry the state it starts in. -/
def Cmd.marked (c : Cmd σ ο) : Cmd σ (σ × ο) := fun s => ((c s).1, (c s).2.map (Prod.mk s))

namespace Stmt

/-- A statement whose observations carry the state they were made in. -/
def marked : Stmt σ ο → Stmt σ (σ × ο)
  | skip => skip
  | act c => act c.marked
  | seq p q => seq p.marked q.marked
  | ite b p q => ite b p.marked q.marked

/-- Marking changes only the observations. -/
theorem next_marked (p : Stmt σ ο) (s : σ) :
    p.marked.next s = (((p.next s).1.1, (p.next s).1.2.map (Prod.mk s)), (p.next s).2.marked) := by
  induction p with
  | skip => rfl
  | act c => rfl
  | seq p q ihp _ =>
    rcases eq_or_ne p skip with rfl | hp
    · rfl
    · have hmarked : p.marked ≠ skip := by
        cases p with
        | skip => exact absurd rfl hp
        | _ => exact fun h => by cases h
      rw [marked, next_seq hmarked, next_seq hp, ihp]
      rfl
  | ite b p q _ _ =>
    simp only [marked, next]
    split <;> rfl

/-- An outline that judges every observation together with the state it is made in. -/
def Watched (env : σ → σ → Prop) (good : σ → ο → Prop) (P : σ → Prop) (p : Stmt σ ο)
    (Q : σ → Prop) : Prop :=
  Outline env (fun seen => good seen.1 seen.2) P p.marked Q

namespace Watched

variable {env : σ → σ → Prop} {good : σ → ο → Prop} {P P₁ P₂ M Q : σ → Prop} {p q : Stmt σ ο}

/-- The precondition of a watched statement is stable. -/
theorem stable (h : Watched env good P p Q) : Stable env P := Outline.stable h

/-- Nothing is left to do. -/
theorem done (stable : Stable env P) (post : ∀ s, P s → Q s) : Watched env good P skip Q :=
  Outline.skip stable post

/-- An atomic step, whose observations are judged by the state it finds. -/
theorem act {c : Cmd σ ο} (stable : Stable env P) (stable' : Stable env Q)
    (post : ∀ s, P s → Q (c s).1) (obs : ∀ s, P s → ∀ o ∈ (c s).2, good s o) :
    Watched env good P (.act c) Q := by
  refine Outline.act stable stable' post fun s hs seen hseen => ?_
  obtain ⟨o, ho, rfl⟩ := List.mem_map.mp hseen
  exact obs s hs o ho

/-- One watched statement after the other. -/
theorem seq (first : Watched env good P p M) (second : Watched env good M q Q) :
    Watched env good P (.seq p q) Q :=
  Outline.seq first second

/-- A choice between watched statements. -/
theorem ite {b : σ → Bool} (stable : Stable env P) (yes : ∀ s, P s → b s = true → P₁ s)
    (no : ∀ s, P s → b s = false → P₂ s) (left : Watched env good P₁ p Q)
    (right : Watched env good P₂ q Q) : Watched env good P (.ite b p q) Q :=
  Outline.ite stable yes no left right

/-- Two branches from the same assertion. -/
theorem branch {b : σ → Bool} (left : Watched env good P p Q) (right : Watched env good P q Q) :
    Watched env good P (.ite b p q) Q :=
  ite left.stable (fun _ hs _ => hs) (fun _ hs _ => hs) left right

/-- An assertion that every action keeps is an outline by itself. -/
theorem of_all (stable : Stable env P)
    (h : p.All fun c => ∀ s, P s → P (c s).1 ∧ ∀ o ∈ (c s).2, good s o) :
    Watched env good P p P := by
  induction p with
  | skip => exact .done stable fun _ hs => hs
  | act c => exact .act stable stable (fun s hs => (h s hs).1) fun s hs => (h s hs).2
  | seq p q ihp ihq => exact .seq (ihp h.1) (ihq h.2)
  | ite b p q ihp ihq =>
    exact .ite stable (fun _ hs _ => hs) (fun _ hs _ => hs) (ihp h.1) (ihq h.2)

/-- When the statement has ended its postcondition holds. -/
theorem post (h : Watched env good P skip Q) {s : σ} (hs : P s) : Q s := by
  obtain ⟨-, post⟩ := h
  exact post s hs

/-- One step of a watched statement: its observations are good, and the rest is watched. -/
theorem next (h : Watched env good P p Q) {s : σ} (hs : P s) :
    (∀ o ∈ (p.next s).1.2, good s o) ∧
      ∃ P', Watched env good P' (p.next s).2 Q ∧ P' (p.next s).1.1 := by
  have hnext := Outline.next h hs
  rw [next_marked] at hnext
  exact ⟨fun o ho => hnext.1 (s, o) (List.mem_map_of_mem ho), hnext.2⟩

end Watched

end Stmt

/-! ## Runs of a system -/

/-- The state after a sequence of inputs. -/
def run (prog : ι → Cmd σ ο) (s : σ) (inputs : List ι) : σ :=
  inputs.foldl (fun s i => (prog i s).1) s

/-- Without inputs nothing happens. -/
@[simp] theorem run_nil (prog : ι → Cmd σ ο) (s : σ) : run prog s [] = s := rfl

/-- The first input, then the others. -/
@[simp] theorem run_cons (prog : ι → Cmd σ ο) (s : σ) (i : ι) (inputs : List ι) :
    run prog s (i :: inputs) = run prog (prog i s).1 inputs := rfl

/-- A run in two parts. -/
theorem run_append (prog : ι → Cmd σ ο) (s : σ) (xs ys : List ι) :
    run prog s (xs ++ ys) = run prog (run prog s xs) ys :=
  List.foldl_append

/-- A property of every step of a run: of the inputs before it, the state it starts in and its
own input. -/
def Along (prog : ι → Cmd σ ο) (s : σ) (inputs : List ι) (Q : List ι → σ → ι → Prop) : Prop :=
  ∀ before i after, inputs = before ++ i :: after → Q before (run prog s before) i

/-- What holds at every step holds at every step of a beginning. -/
theorem Along.of_append {prog : ι → Cmd σ ο} {s : σ} {xs ys : List ι}
    {Q : List ι → σ → ι → Prop} (h : Along prog s (xs ++ ys) Q) : Along prog s xs Q := by
  intro before i after hxs
  exact h before i (after ++ ys) (by rw [hxs, List.append_assoc, List.cons_append])

/-- The last step, and the others before it. -/
theorem along_concat {prog : ι → Cmd σ ο} {s : σ} {inputs : List ι} {i : ι}
    {Q : List ι → σ → ι → Prop} :
    Along prog s (inputs ++ [i]) Q ↔ Along prog s inputs Q ∧ Q inputs (run prog s inputs) i := by
  constructor
  · exact fun h => ⟨h.of_append, h inputs i [] rfl⟩
  · rintro ⟨h, hlast⟩ before j after hin
    rcases List.eq_nil_or_concat after with rfl | ⟨after, k, rfl⟩
    · obtain ⟨rfl, hij⟩ := List.append_inj' hin rfl
      cases hij
      exact hlast
    · rw [List.concat_eq_append, ← List.cons_append, ← List.append_assoc] at hin
      exact h before j after (List.append_inj' hin rfl).1

/-- Without steps everything holds at every step. -/
@[simp] theorem along_nil (prog : ι → Cmd σ ο) (s : σ) (Q : List ι → σ → ι → Prop) :
    Along prog s [] Q := by
  intro before i after h
  exact absurd h.symm (List.append_ne_nil_of_right_ne_nil _ (List.cons_ne_nil _ _))

/-- The first step, and the others with it in their history. -/
@[simp] theorem along_cons (prog : ι → Cmd σ ο) (s : σ) (i : ι) (inputs : List ι)
    (Q : List ι → σ → ι → Prop) :
    Along prog s (i :: inputs) Q ↔
      Q [] s i ∧ Along prog (prog i s).1 inputs fun before => Q (i :: before) := by
  constructor
  · intro h
    refine ⟨h [] i inputs rfl, fun before j after hin => ?_⟩
    exact h (i :: before) j after (by rw [hin, List.cons_append])
  · rintro ⟨hfirst, hrest⟩ before j after hin
    cases before with
    | nil =>
      cases hin
      exact hfirst
    | cons k before =>
      cases hin
      exact hrest before j after rfl

/-- What can be decided at every step can be decided along a run. -/
def decidableAlong (prog : ι → Cmd σ ο) :
    (inputs : List ι) → (s : σ) → (Q : List ι → σ → ι → Prop) →
      (∀ before t i, Decidable (Q before t i)) → Decidable (Along prog s inputs Q)
  | [], s, Q, _ => isTrue (along_nil prog s Q)
  | i :: inputs, s, Q, test =>
    have := test [] s i
    have := decidableAlong prog inputs (prog i s).1 (fun before => Q (i :: before))
      fun before t j => test (i :: before) t j
    decidable_of_iff _ (along_cons prog s i inputs Q).symm

instance {prog : ι → Cmd σ ο} {inputs : List ι} {s : σ} {Q : List ι → σ → ι → Prop}
    [test : ∀ before t i, Decidable (Q before t i)] : Decidable (Along prog s inputs Q) :=
  decidableAlong prog inputs s Q test

/-- An invariant of the history and the state, kept by every step that meets a condition, holds
at the end of every run whose steps all meet it. -/
theorem run_invariant {prog : ι → Cmd σ ο} {s : σ} (I : List ι → σ → Prop)
    (C : List ι → σ → ι → Prop) (init : I [] s)
    (step : ∀ before i, I before (run prog s before) → C before (run prog s before) i →
      I (before ++ [i]) (prog i (run prog s before)).1)
    {inputs : List ι} (hC : Along prog s inputs C) : I inputs (run prog s inputs) := by
  induction inputs using List.reverseRecOn with
  | nil => exact init
  | append_singleton inputs i ih =>
    rw [run_append]
    exact step inputs i (ih hC.of_append) (hC inputs i [] rfl)

/-- **The rule for runs.** What an invariant gives at a step that meets the condition holds at
every step of a run whose steps all meet it. -/
theorem along_of_invariant {prog : ι → Cmd σ ο} {s : σ} (I : List ι → σ → Prop)
    (C Q : List ι → σ → ι → Prop) (init : I [] s)
    (step : ∀ before i, I before (run prog s before) → C before (run prog s before) i →
      I (before ++ [i]) (prog i (run prog s before)).1)
    (consequence : ∀ before i, I before (run prog s before) → C before (run prog s before) i →
      Q before (run prog s before) i)
    {inputs : List ι} (hC : Along prog s inputs C) : Along prog s inputs Q := by
  intro before i after hin
  subst hin
  exact consequence before i (run_invariant I C init step hC.of_append) (hC before i after rfl)

/-! ## Quantities counted along a run -/

/-- A quantity counted along a run: `count` updates it from the state a step starts in and the
step's input. -/
def tally (prog : ι → Cmd σ ο) (count : β → σ → ι → β) (s : σ) (b : β) (inputs : List ι) : β :=
  (inputs.foldl (fun p i => ((prog i p.1).1, count p.2 p.1 i)) (s, b)).2

/-- The count after one more input. -/
theorem tally_concat (prog : ι → Cmd σ ο) (count : β → σ → ι → β) (s : σ) (b : β)
    (inputs : List ι) (i : ι) :
    tally prog count s b (inputs ++ [i]) =
      count (tally prog count s b inputs) (run prog s inputs) i := by
  have hstate : ∀ (p : σ × β), (inputs.foldl (fun p i => ((prog i p.1).1, count p.2 p.1 i)) p).1 =
      run prog p.1 inputs := by
    induction inputs with
    | nil => exact fun _ => rfl
    | cons j inputs ih =>
      intro p
      rw [List.foldl_cons, ih, run_cons]
  rw [tally, List.foldl_append, List.foldl_cons, List.foldl_nil, hstate (s, b)]
  rfl

/-- How many steps of a run meet a test. -/
def occurrences (prog : ι → Cmd σ ο) (test : σ → ι → Bool) (s : σ) (inputs : List ι) : ℕ :=
  tally prog (fun n t i => n + if test t i then 1 else 0) s 0 inputs

section Occurrences

variable (prog : ι → Cmd σ ο) (test : σ → ι → Bool) (s : σ)

/-- The occurrences with one more input. -/
theorem occurrences_concat (inputs : List ι) (i : ι) :
    occurrences prog test s (inputs ++ [i]) =
      occurrences prog test s inputs + if test (run prog s inputs) i then 1 else 0 :=
  tally_concat _ _ _ _ _ _

/-- A longer run has no fewer occurrences. -/
theorem occurrences_le_append (xs ys : List ι) :
    occurrences prog test s xs ≤ occurrences prog test s (xs ++ ys) := by
  induction ys using List.reverseRecOn with
  | nil => exact Nat.le_of_eq (by rw [List.append_nil])
  | append_singleton ys i ih =>
    rw [← List.append_assoc, occurrences_concat]
    omega

/-- The step that meets the test after exactly `k` others have. -/
theorem exists_occurrence {k : ℕ} {inputs : List ι} (h : k < occurrences prog test s inputs) :
    ∃ before i after, inputs = before ++ i :: after ∧ test (run prog s before) i = true ∧
      occurrences prog test s before = k := by
  induction inputs using List.reverseRecOn with
  | nil => exact absurd h (Nat.not_lt_zero k)
  | append_singleton inputs i ih =>
    by_cases hbefore : k < occurrences prog test s inputs
    · obtain ⟨before, j, after, hin, htest, hcount⟩ := ih hbefore
      exact ⟨before, j, after ++ [i], by rw [hin, List.append_assoc, List.cons_append], htest, hcount⟩
    · rw [occurrences_concat] at h
      cases htest : test (run prog s inputs) i with
      | false =>
        rw [htest] at h
        exact absurd h hbefore
      | true =>
        rw [htest, if_pos rfl] at h
        exact ⟨inputs, i, [], rfl, htest, by omega⟩

end Occurrences

end InfraredModule.Foundation
