import InfraredModule.Foundation.Program
import Mathlib.Data.Option.NAry

/-!
# Loops

Two shapes of loop over commands. `Cmd.each` runs a body once for every element of a list, the
`for` loop over a range. `Loop.run` is the open loop: each round acts on the state and either goes
on with new variables or leaves, and only so many rounds are granted. It yields a command when the
loop ends within them and nothing otherwise, so that ending is something to prove.

* `Loop.run_eq_each`: variables that follow a known sequence up to the round that leaves.
* `Loop.run_total`: an invariant of the variables and a variant that every round lowers; the loop
  ends, and what holds of every round and passes through sequence holds of the whole.
-/

set_option autoImplicit false

namespace InfraredModule.Foundation

variable {α σ ο β : Type}

namespace Cmd

/-- A body run for every element of a list, in order. -/
def each (body : α → Cmd σ ο) : List α → Cmd σ ο
  | [] => skip
  | a :: l => (body a).andThen (each body l)

/-- No element, no command. -/
@[simp] theorem each_nil (body : α → Cmd σ ο) : each body [] = skip := rfl

/-- The first element's command, then the others'. -/
@[simp] theorem each_cons (body : α → Cmd σ ο) (a : α) (l : List α) :
    each body (a :: l) = (body a).andThen (each body l) := rfl

/-- Nothing to do at the end. -/
@[simp] theorem andThen_skip (c : Cmd σ ο) : c.andThen skip = c := by
  funext s
  simp

/-- Only the bodies at the elements count. -/
theorem each_congr {f g : α → Cmd σ ο} {l : List α} (h : ∀ a ∈ l, f a = g a) : each f l = each g l := by
  induction l with
  | nil => rfl
  | cons a l ih =>
    rw [each_cons, each_cons, h a List.mem_cons_self, ih fun b hb => h b (List.mem_cons_of_mem a hb)]

/-- A list in two parts is gone through part by part. -/
theorem each_append (body : α → Cmd σ ο) (l l' : List α) :
    each body (l ++ l') = (each body l).andThen (each body l') := by
  induction l with
  | nil =>
    funext s
    simp
  | cons a l ih =>
    rw [List.cons_append, each_cons, ih, each_cons]
    funext s
    simp only [andThen_apply, List.append_assoc]

/-- What holds of the body at every element, and passes through sequence, holds of the loop. -/
theorem each_induction {good : Cmd σ ο → Prop} (hskip : good skip)
    (handThen : ∀ c d, good c → good d → good (c.andThen d)) {body : α → Cmd σ ο} {l : List α}
    (h : ∀ a ∈ l, good (body a)) : good (each body l) := by
  induction l with
  | nil => exact hskip
  | cons a l ih =>
    exact handThen _ _ (h a List.mem_cons_self) (ih fun b hb => h b (List.mem_cons_of_mem a hb))

/-- A body that only reads the state. -/
theorem each_of_reads {body : α → Cmd σ ο} {l : List α} (s : σ)
    (h : ∀ a ∈ l, (body a s).1 = s) : each body l s = (s, l.flatMap fun a => (body a s).2) := by
  induction l with
  | nil => rfl
  | cons a l ih =>
    rw [each_cons, andThen_apply, h a List.mem_cons_self,
      ih (fun b hb => h b (List.mem_cons_of_mem a hb)), List.flatMap_cons]

end Cmd

namespace Loop

/-- Commands in sequence, each of which may fail to end. -/
def seq : List (Option (Cmd σ ο)) → Option (Cmd σ ο)
  | [] => some Cmd.skip
  | c :: cs => Option.map₂ Cmd.andThen c (seq cs)

/-- Commands that all end make a sequence that ends. -/
theorem seq_map_some (cs : List (Cmd σ ο)) : seq (cs.map some) = some (Cmd.each id cs) := by
  induction cs with
  | nil => rfl
  | cons c cs ih =>
    rw [List.map_cons, seq, ih]
    rfl

/-- One round of a loop with variables of type `α`: the command it runs, if that ends, and the
variables of the next round, if there is one. -/
abbrev Round (α σ ο : Type) := α → Option (Cmd σ ο) × Option α

/-- The loop from given variables on, with so many rounds granted. -/
def run (round : Round α σ ο) : ℕ → α → Option (Cmd σ ο)
  | 0, _ => none
  | n + 1, a =>
    match (round a).2 with
    | none => (round a).1
    | some a' => Option.map₂ Cmd.andThen (round a).1 (run round n a')

/-- A round that leaves the loop is the last. -/
theorem run_leave {round : Round α σ ο} {a : α} {c : Cmd σ ο} (h : round a = (some c, none)) (n : ℕ) :
    run round (n + 1) a = some c := by
  simp only [run, h]

/-- A round that goes on is followed by the rest of the loop. -/
theorem run_go {round : Round α σ ο} {a a' : α} {c : Cmd σ ο} (h : round a = (some c, some a')) (n : ℕ) :
    run round (n + 1) a = (run round n a').map c.andThen := by
  simp only [run, h]
  cases run round n a' <;> rfl

/-- Variables that follow a sequence and leave at its end. -/
theorem run_eq_each {round : Round α σ ο} {vars : ℕ → α} {acts : ℕ → Cmd σ ο} {last : ℕ}
    (hgo : ∀ k < last, round (vars k) = (some (acts k), some (vars (k + 1))))
    (hleave : round (vars last) = (some (acts last), none)) {n : ℕ} (hn : last < n) :
    run round n (vars 0) = some (Cmd.each acts (List.range (last + 1))) := by
  -- from round `k` on, by induction on the rounds that remain
  have hfrom : ∀ j k m, k + j = last → j < m →
      run round m (vars k) = some (Cmd.each acts (List.range' k (j + 1))) := by
    intro j
    induction j with
    | zero =>
      intro k m hk hm
      obtain ⟨m, rfl⟩ := Nat.exists_eq_add_of_le' hm
      have hlast : k = last := by omega
      subst hlast
      rw [run_leave hleave]
      simp [List.range'_succ]
    | succ j ih =>
      intro k m hk hm
      obtain ⟨m, rfl⟩ : ∃ m', m = m' + 1 := ⟨m - 1, by omega⟩
      rw [run_go (hgo k (by omega)), ih (k + 1) m (by omega) (by omega), Option.map_some,
        List.range'_succ (n := j + 1), Cmd.each_cons]
  rw [List.range_eq_range']
  exact hfrom last 0 n (by omega) hn

/-- **Total correctness.** From variables with the invariant the loop ends within more rounds than
the variant, and is good when every round is. -/
theorem run_total {round : Round α σ ο} (inv : α → Prop) (variant : α → ℕ) {good : Cmd σ ο → Prop}
    (handThen : ∀ c d, good c → good d → good (c.andThen d))
    (hround : ∀ a, inv a → ∃ c, (round a).1 = some c ∧ good c ∧
      ∀ a', (round a).2 = some a' → inv a' ∧ variant a' < variant a)
    {a : α} (ha : inv a) {n : ℕ} (hn : variant a < n) :
    ∃ c, run round n a = some c ∧ good c := by
  induction n generalizing a with
  | zero => omega
  | succ n ih =>
    obtain ⟨c, hc, hgood, hnext⟩ := hround a ha
    cases h : (round a).2 with
    | none => exact ⟨c, run_leave (Prod.ext hc h) n, hgood⟩
    | some a' =>
      obtain ⟨hinv, hless⟩ := hnext a' h
      obtain ⟨d, hd, hdgood⟩ := ih hinv (by omega)
      refine ⟨c.andThen d, ?_, handThen c d hgood hdgood⟩
      rw [run_go (Prod.ext hc h), hd, Option.map_some]

/-- What holds of every command of a sequence, and passes through sequence, holds of the whole. -/
theorem seq_induction {good : Cmd σ ο → Prop} (hskip : good Cmd.skip)
    (handThen : ∀ c d, good c → good d → good (c.andThen d)) {cs : List (Option (Cmd σ ο))}
    (h : ∀ c, some c ∈ cs → good c) {c : Cmd σ ο} (hseq : seq cs = some c) : good c := by
  induction cs generalizing c with
  | nil =>
    cases hseq
    exact hskip
  | cons first cs ih =>
    obtain ⟨d, rest, hd, hrest, rfl⟩ := Option.map₂_eq_some_iff.mp hseq
    exact handThen d rest (h d (hd ▸ List.mem_cons_self)) (ih (fun e he => h e (List.mem_cons_of_mem _ he)) hrest)

/-- What holds of every round holds of a loop that ends. -/
theorem run_induction {round : Round α σ ο} {good : Cmd σ ο → Prop}
    (handThen : ∀ c d, good c → good d → good (c.andThen d))
    (hround : ∀ a c, (round a).1 = some c → good c) {n : ℕ} {a : α} {c : Cmd σ ο}
    (hrun : run round n a = some c) : good c := by
  induction n generalizing a c with
  | zero => cases hrun
  | succ n ih =>
    rw [run] at hrun
    split at hrun
    · exact hround a c hrun
    · obtain ⟨d, rest, hd, hrest, rfl⟩ := Option.map₂_eq_some_iff.mp hrun
      exact handThen d rest (hround a d hd) (ih hrest)

end Loop

end InfraredModule.Foundation
