import InfraredModule.Model.Uart
import Mathlib.Data.Nat.Factorization.Basic

/-!
# The period of the software timers

`TimerTask` compares before it counts: the counter runs through `0, 1, …, touchTime`, and the call
that finds it at `touchTime` is the one that raises the flag and starts over. The counter therefore
has `touchTime + 1` values, and so many calls lie between two raised flags (`touches_iff`). The
tasks that call it every 50 ms with `1000/UART_PERIOD` and its like mean `touchTime` calls.
-/

set_option autoImplicit false

namespace InfraredModule.Analysis

open InfraredModule.Model

/-- The timer after `n` successive calls, started at zero. -/
def timerAfter (touchTime : U16) (n : ℕ) : Timer := (timerTask · touchTime)^[n] Timer.zero

/-- Whether call number `k`, counted from one, leaves the flag at `YES`. -/
def touches (touchTime : U16) (k : ℕ) : Bool := (timerAfter touchTime k).touch

/-- A timer after one call more. -/
theorem timerAfter_succ (touchTime : U16) (n : ℕ) :
    timerAfter touchTime (n + 1) = timerTask (timerAfter touchTime n) touchTime :=
  Function.iterate_succ_apply' _ n _

/-- One call of the timer, in numbers: the counter never passes `touchTime`, so it never wraps. -/
theorem timerTask_toNat {t : Timer} {touchTime : U16} (h : t.time.toNat ≤ touchTime.toNat) :
    (timerTask t touchTime).time.toNat = (t.time.toNat + 1) % (touchTime.toNat + 1) ∧
      ((timerTask t touchTime).touch = true ↔ t.time.toNat = touchTime.toNat) := by
  have hmax := touchTime.isLt
  unfold timerTask
  split
  · rename_i hlt
    have hlt' : t.time.toNat < touchTime.toNat := hlt
    refine ⟨?_, ?_⟩
    · rw [BitVec.toNat_add, Nat.mod_eq_of_lt (b := touchTime.toNat + 1) (by omega)]
      exact Nat.mod_eq_of_lt (by show t.time.toNat + 1 < 2 ^ 16; omega)
    · simp only [Bool.false_eq_true, false_iff]
      omega
  · rename_i hge
    have hge' : ¬ t.time.toNat < touchTime.toNat := hge
    have hfull : t.time.toNat = touchTime.toNat := by omega
    refine ⟨?_, ?_⟩
    · rw [hfull, Nat.mod_self]
      rfl
    · simp only [true_iff]
      exact hfull

/-- The counter holds the number of calls since the last raised flag. -/
theorem time_timerAfter (touchTime : U16) (n : ℕ) :
    (timerAfter touchTime n).time.toNat = n % (touchTime.toNat + 1) := by
  induction n with
  | zero => rfl
  | succ n ih =>
    have hle : (timerAfter touchTime n).time.toNat ≤ touchTime.toNat := by
      rw [ih]
      exact Nat.le_of_lt_succ (Nat.mod_lt n (Nat.succ_pos _))
    rw [timerAfter_succ, (timerTask_toNat hle).1, ih, Nat.mod_add_mod]

/-- A timer never counts past its touch time. -/
theorem time_timerAfter_le (touchTime : U16) (n : ℕ) :
    (timerAfter touchTime n).time.toNat ≤ touchTime.toNat := by
  rw [time_timerAfter]
  exact Nat.le_of_lt_succ (Nat.mod_lt n (Nat.succ_pos _))

/-- **The period is one call longer than asked for.**
SOURCE: main.c:87-106 -/
theorem touches_iff (touchTime : U16) (k : ℕ) :
    touches touchTime (k + 1) = true ↔ touchTime.toNat + 1 ∣ k + 1 := by
  rw [touches, timerAfter_succ, (timerTask_toNat (time_timerAfter_le touchTime k)).2,
    time_timerAfter, Nat.dvd_iff_mod_eq_zero]
  exact Nat.succ_mod_succ_eq_zero_iff.symm

/-- Among the first `n` calls exactly those at multiples of `touchTime` raise the flag, and they
are `n / touchTime` in number. -/
def KeepsPeriod (touchTime : U16) (n : ℕ) : Prop :=
  (∀ k ∈ Finset.Ioc 0 n, touches touchTime k = true ↔ touchTime.toNat ∣ k) ∧
    ((Finset.Ioc 0 n).filter fun k => touches touchTime k = true).card = n / touchTime.toNat

/-- **The timers are late.** For every `touchTime` from one on, a timer keeps its period over `n`
calls only while `n` is smaller than the period: the flag asked for at call number `touchTime` is
raised one call later, and each further one falls another call behind.
SOURCE: main.c:87-106, Uart.c:245-250, Oled1309.c:311-314 -/
theorem keepsPeriod_iff (touchTime : U16) (hpos : 1 ≤ touchTime.toNat) (n : ℕ) :
    KeepsPeriod touchTime n ↔ n < touchTime.toNat := by
  constructor
  · intro hkeeps
    by_contra hge
    have hmem : touchTime.toNat ∈ Finset.Ioc 0 n := Finset.mem_Ioc.mpr ⟨hpos, by omega⟩
    have hraised := (hkeeps.1 _ hmem).mpr (dvd_refl _)
    -- call number `touchTime` only brings the counter to `touchTime`
    obtain ⟨k, hk⟩ := Nat.exists_eq_add_of_le' hpos
    rw [hk, touches_iff, hk] at hraised
    have := Nat.le_of_dvd (Nat.succ_pos k) hraised
    omega
  · intro hlt
    have hquiet : ∀ k ∈ Finset.Ioc 0 n, ¬ touches touchTime k = true := by
      intro k hk hraised
      obtain ⟨h0, hn⟩ := Finset.mem_Ioc.mp hk
      obtain ⟨j, rfl⟩ := Nat.exists_eq_add_of_le' h0
      have := Nat.le_of_dvd (Nat.succ_pos j) ((touches_iff touchTime j).mp hraised)
      omega
    refine ⟨fun k hk => ⟨fun hraised => absurd hraised (hquiet k hk), fun hdvd => ?_⟩, ?_⟩
    · obtain ⟨h0, hn⟩ := Finset.mem_Ioc.mp hk
      have := Nat.le_of_dvd h0 hdvd
      omega
    · rw [Finset.filter_false_of_mem hquiet, Finset.card_empty, Nat.div_eq_of_lt hlt]

/-- The timer of the 1 s task keeps its period for nineteen calls. -/
theorem keepsPeriod_second : KeepsPeriod 20 19 :=
  (keepsPeriod_iff 20 (by decide) 19).mpr (by decide)

/-- The twentieth call, one second after the start, does not raise the flag of the 1 s task. -/
theorem not_keepsPeriod_second : ¬ KeepsPeriod 20 20 := by
  intro h
  exact absurd ((h.1 20 (by decide)).mpr (by decide)) (by decide)

/-! ## The timers of the UART thread -/

/-- After `n` rounds the timers of the thread are where `n` calls bring them.
SOURCE: Uart.c:245-250 -/
theorem iterate_timers {s : Firmware} (h1 : s.task.timer1s = Timer.zero)
    (h5 : s.task.timer5s = Timer.zero) (h10 : s.task.timer10s = Timer.zero)
    (h100 : s.task.timer100ms = Timer.zero) (n : ℕ) :
    let t := ((fun u => (timers u).1)^[n] s).task
    t.timer1s = timerAfter 20 n ∧ t.timer5s = timerAfter 100 n ∧
      t.timer10s = timerAfter 200 n ∧ t.timer100ms = timerAfter 2 n := by
  induction n with
  | zero => exact ⟨h1, h5, h10, h100⟩
  | succ n ih =>
    simp only [Function.iterate_succ_apply', timerAfter_succ] at ih ⊢
    obtain ⟨i1, i5, i10, i100⟩ := ih
    rw [← i1, ← i5, ← i10, ← i100]
    exact ⟨rfl, rfl, rfl, rfl⟩

end InfraredModule.Analysis
