import InfraredModule.Foundation.Debounce
import InfraredModule.Analysis.Persistence

/-!
# The input pin

Successive calls of `IoCheckProgram`, with any memory around its two statics at each call. The
code is the ideal debouncer of length 30 as long as the pin stays for one more call at a level
that was just acted on (`follows_run`): the time is cleared by the next call that reads the old
level, not when the new one is accepted, and a flip back at that moment is acted on at once.
`io_run` says that the statics of the firmware go through such calls in every run.
-/

set_option autoImplicit false

namespace InfraredModule.Analysis

open InfraredModule.Foundation InfraredModule.Model

/-- What `rt_pin_read` returns. -/
def pinLevel (level : Bool) : U8 := if level then 1 else 0

/-- A call: the level of the pin and the memory the call finds, in one of the two modes as in every
state of every run (`PageInv.select`). -/
structure IoCall where
  level : Bool
  fw : Firmware
  mode : fw.moduleInfo.select = selectMatch ∨ fw.moduleInfo.select = selectLearn

/-- The call as a step on the two statics. -/
def ioCall (period : U16) (c : IoCall) : Cmd IoCheck Obs := fun io =>
  let r := ioCheckProgram (pinLevel c.level) period { c.fw with io := io }
  (r.1.io, r.2)

/-- The statics before the first call. -/
def ioStart : IoCheck := ⟨1, 0⟩

/-- A command to the air conditioner. -/
def Obs.isCommand : Obs → Bool
  | .uart2Tx _ => true
  | _ => false

/-- An on or off command is sent at this call. -/
def Commands (period : U16) (io : IoCheck) (c : IoCall) : Bool :=
  (ioCall period c io).2.any Obs.isCommand

/-- The level of the last call at which a command was sent, 1 before the first one. -/
def actedOn (period : U16) (calls : List IoCall) : Bool :=
  tally (ioCall period) (fun acted io c => if Commands period io c then c.level else acted) ioStart
    true calls

/-- Commands are sent only at the end of 31 calls in a row that read one level, opposite to the one
last acted on. -/
def Debounced (period : U16) (calls : List IoCall) : Prop :=
  Along (ioCall period) ioStart calls fun before io c =>
    Commands period io c = true →
      30 ≤ before.length ∧ (∀ d ∈ before.rtake 30, d.level = c.level) ∧
        c.level ≠ actedOn period before

instance (period : U16) (calls : List IoCall) : Decidable (Debounced period calls) :=
  inferInstanceAs (Decidable (Along _ _ _ _))

/-- The ideal debouncer after some calls. -/
def ideal (calls : List IoCall) : Debounce := .after 30 true (calls.map IoCall.level)

/-- The call directly after a takeover reads the old level. -/
def QuickReturn (calls : List IoCall) : Prop :=
  ∃ before c d after, calls = before ++ c :: d :: after ∧ (ideal before).Accepts 30 c.level ∧
    d.level ≠ c.level

/-- The ideal debouncer after one call more. -/
theorem ideal_concat (calls : List IoCall) (c : IoCall) :
    ideal (calls ++ [c]) = (ideal calls).next 30 c.level := by
  rw [ideal, List.map_append]
  exact Debounce.after_concat _ _ _

/-- Two levels of the pin differ when they do. -/
theorem pinLevel_ne {l m : Bool} : pinLevel l ≠ pinLevel m ↔ m ≠ l := by
  cases l <;> cases m <;> decide

/-! ## One call -/

section Call

variable {period : U16} {io : IoCheck} {c : IoCall}

/-- The code accepts a level. -/
def Takes (period : U16) (io : IoCheck) (c : IoCall) : Prop :=
  io.lastState ≠ pinLevel c.level ∧ period.toNat * 30 ≤ io.continueTime.toNat

/-- A command leaves the statics. -/
theorem ioCommand_io (state : U8) (s : Firmware) : (ioCommand state s).1.io = s.io := by
  unfold ioCommand
  split_ifs <;> rfl

/-- In each of the two modes a level that is accepted is a command. -/
theorem ioCommand_command (level : Bool) {s : Firmware}
    (h : s.moduleInfo.select = selectMatch ∨ s.moduleInfo.select = selectLearn) :
    (ioCommand (pinLevel level) s).2.any Obs.isCommand = true := by
  have hlearn : ¬ selectLearn = selectMatch := by decide
  unfold ioCommand
  cases level <;> rcases h with h | h <;>
    simp [h, hlearn, pinLevel, sendMatchOnTest, sendMatchOffTest, sendMatchTest, sendlearnOn, sendlearnOff,
      sendLearned, setAirState, Obs.isCommand]

/-- A call at which the code accepts a level takes the level over and sends a command. -/
theorem ioCall_takes (h : Takes period io c) :
    (ioCall period c io).1 = ⟨pinLevel c.level, io.continueTime⟩ ∧ Commands period io c = true := by
  have hcall : ioCheckProgram (pinLevel c.level) period { c.fw with io := io } =
      ioCommand (pinLevel c.level) { c.fw with io := ⟨pinLevel c.level, io.continueTime⟩ } := by
    rw [ioCheckProgram, if_pos h.1, if_neg (Nat.not_lt.mpr h.2)]
  rw [Commands, ioCall, hcall]
  exact ⟨ioCommand_io _ _, ioCommand_command _ c.mode⟩

/-- A call at which the code accepts none sends nothing and counts. -/
theorem ioCall_not_takes (h : ¬ Takes period io c) :
    Commands period io c = false ∧ (ioCall period c io).1 =
      if io.lastState ≠ pinLevel c.level then ⟨io.lastState, io.continueTime + period⟩
      else ⟨io.lastState, 0⟩ := by
  by_cases hlevel : io.lastState ≠ pinLevel c.level
  · have htime : io.continueTime.toNat < period.toNat * 30 := Nat.lt_of_not_le fun hle => h ⟨hlevel, hle⟩
    rw [Commands, ioCall, ioCheckProgram, if_pos hlevel, if_pos htime, if_pos hlevel]
    exact ⟨rfl, rfl⟩
  · rw [Commands, ioCall, ioCheckProgram, if_neg hlevel, if_neg hlevel]
    exact ⟨rfl, rfl⟩

end Call

/-! ## The code follows the ideal debouncer -/

/-- The level acted on, with one call more. -/
theorem actedOn_concat (period : U16) (calls : List IoCall) (c : IoCall) :
    actedOn period (calls ++ [c]) =
      if Commands period (run (ioCall period) ioStart calls) c then c.level else actedOn period calls :=
  tally_concat _ _ _ _ _ _

/-- The last call of `before` was a takeover. -/
def JustTaken (before : List IoCall) : Prop :=
  ∃ earlier c, before = earlier ++ [c] ∧ (ideal earlier).Accepts 30 c.level

/-- The statics after some calls: the level held, and the time the other one has been read, which is
left standing after a takeover. -/
structure Follows (period : U16) (before : List IoCall) (io : IoCheck) : Prop where
  lastState : io.lastState = pinLevel (ideal before).level
  taken : JustTaken before → io.continueTime.toNat = period.toNat * 30
  counting : ¬ JustTaken before → io.continueTime.toNat = period.toNat * (ideal before).other
  acted : actedOn period before = (ideal before).level

/-- The pin does not leave the level that the call before took over. -/
def Stays (before : List IoCall) (c : IoCall) : Prop := JustTaken before → c.level = (ideal before).level

section Follows

variable {period : U16} {before : List IoCall} {io : IoCheck} {c : IoCall}

/-- The ideal debouncer counts up to thirty. -/
theorem ideal_other_le (before : List IoCall) : (ideal before).other ≤ 30 :=
  (Debounce.recent true (before.map IoCall.level)).1

/-- The held level tells whether the pin has moved. -/
theorem Follows.level_ne (h : Follows period before io) :
    io.lastState ≠ pinLevel c.level ↔ c.level ≠ (ideal before).level := by
  rw [h.lastState]
  exact pinLevel_ne

/-- The code accepts a level when the ideal debouncer does, unless the pin has just left a level. -/
theorem Follows.takes_iff (h : Follows period before io) (hperiod : 1 ≤ period.toNat)
    (hstays : Stays before c) : Takes period io c ↔ (ideal before).Accepts 30 c.level := by
  rw [Takes, h.level_ne, Debounce.Accepts]
  by_cases hjust : JustTaken before
  · have hlevel := hstays hjust
    exact ⟨fun hne => absurd hlevel hne.1, fun hne => absurd hlevel hne.1⟩
  · rw [h.counting hjust, Nat.mul_le_mul_left_iff hperiod]

/-- A takeover is a call at which the ideal debouncer accepts. -/
theorem justTaken_concat : JustTaken (before ++ [c]) ↔ (ideal before).Accepts 30 c.level := by
  constructor
  · rintro ⟨earlier, d, hsplit, haccept⟩
    obtain ⟨rfl, hc⟩ := List.append_inj_left' hsplit rfl, List.append_inj_right' hsplit rfl
    rw [List.singleton_inj.mp hc]
    exact haccept
  · exact fun haccept => ⟨before, c, rfl, haccept⟩

/-- **One call.** The code does what the ideal debouncer does. -/
theorem Follows.step (h : Follows period before (run (ioCall period) ioStart before))
    (hperiod : 1 ≤ period.toNat ∧ period.toNat ≤ 2184) (hstays : Stays before c) :
    Follows period (before ++ [c]) (ioCall period c (run (ioCall period) ioStart before)).1 := by
  have hacted := actedOn_concat period before c
  have htakes := h.takes_iff hperiod.1 hstays
  generalize run (ioCall period) ioStart before = io at h hacted htakes ⊢
  by_cases haccept : (ideal before).Accepts 30 c.level
  · -- a takeover: the time stays where it is, at thirty periods
    obtain ⟨hio, hcommand⟩ := ioCall_takes (htakes.mpr haccept)
    have hnext := ideal_concat before c
    rw [Debounce.next_of_accepts haccept] at hnext
    have htime : io.continueTime.toNat = period.toNat * 30 := by
      by_cases hjust : JustTaken before
      · exact h.taken hjust
      · rw [h.counting hjust, Nat.le_antisymm (ideal_other_le before) haccept.2]
    rw [hcommand] at hacted
    exact ⟨by rw [hio, hnext], fun _ => by rw [hio, htime],
      fun hnot => absurd (justTaken_concat.mpr haccept) hnot, by rw [hacted, hnext]; rfl⟩
  · obtain ⟨hcommand, hio⟩ := ioCall_not_takes (mt htakes.mp haccept)
    have hlevel := Debounce.next_level_of_not_accepts haccept
    rw [← ideal_concat] at hlevel
    rw [hcommand] at hacted
    refine ⟨?_, fun hjust => absurd (justTaken_concat.mp hjust) haccept, fun _ => ?_,
      hacted.trans (h.acted.trans hlevel.symm)⟩
    · rw [hio, hlevel, ← h.lastState]
      split <;> rfl
    · by_cases hother : c.level ≠ (ideal before).level
      · have hlow : (ideal before).other < 30 := Nat.lt_of_not_le fun hle => haccept ⟨hother, hle⟩
        have htime := h.counting fun hjust => hother (hstays hjust)
        have hnext : (ideal (before ++ [c])).other = (ideal before).other + 1 := by
          rw [ideal_concat, Debounce.next, if_neg hother, if_neg (Nat.not_le.mpr hlow)]
        -- up to 2184 thirty periods fit in the 16 bits of the time
        have hbound : period.toNat * ((ideal before).other + 1) ≤ 2184 * 30 :=
          Nat.mul_le_mul hperiod.2 hlow
        rw [hio, if_pos (h.level_ne.mpr hother), hnext]
        show (io.continueTime + period).toNat = _
        rw [Nat.mul_succ] at hbound ⊢
        rw [BitVec.toNat_add, htime, Nat.mod_eq_of_lt (by omega)]
      · have hnext : (ideal (before ++ [c])).other = 0 := by
          rw [ideal_concat, Debounce.next, if_pos (not_not.mp hother)]
        rw [hio, if_neg (mt h.level_ne.mp hother), hnext]
        rfl

end Follows

/-- Before the first call the statics follow. -/
theorem follows_start (period : U16) : Follows period [] ioStart where
  lastState := rfl
  taken := fun ⟨earlier, c, hsplit, _⟩ => absurd hsplit (by simp)
  counting := fun _ => rfl
  acted := rfl

/-- **Every run** in which the pin stays at each level just taken over. -/
theorem follows_run {period : U16} (hperiod : 1 ≤ period.toNat ∧ period.toNat ≤ 2184)
    {calls : List IoCall} (h : Along (ioCall period) ioStart calls fun before _ c => Stays before c) :
    Follows period calls (run (ioCall period) ioStart calls) :=
  run_invariant (Follows period) (fun before _ c => Stays before c) (follows_start period)
    (fun _ _ hfollows hstays => hfollows.step hperiod hstays) h

/-- A command is sent when the code accepts a level. -/
theorem commands_iff {period : U16} {io : IoCheck} {c : IoCall} :
    Commands period io c = true ↔ Takes period io c := by
  constructor
  · intro hcommand
    by_contra hnot
    exact absurd ((ioCall_not_takes hnot).1.symm.trans hcommand) (by decide)
  · exact fun htakes => (ioCall_takes htakes).2

/-- No quick return, step by step. -/
theorem not_quickReturn_iff (period : U16) (calls : List IoCall) :
    ¬ QuickReturn calls ↔ Along (ioCall period) ioStart calls fun before _ c => Stays before c := by
  constructor
  · rintro hquick before d after rfl ⟨earlier, c, rfl, haccept⟩
    rw [ideal_concat, Debounce.next_of_accepts haccept]
    by_contra hlevel
    exact hquick ⟨earlier, c, d, after, by simp, haccept, hlevel⟩
  · rintro hstays ⟨before, c, d, after, rfl, haccept, hlevel⟩
    have hstay := hstays (before ++ [c]) d after (by simp) ⟨before, c, rfl, haccept⟩
    rw [ideal_concat, Debounce.next_of_accepts haccept] at hstay
    exact hlevel hstay

/-- A command after a flip back at once: the call before it read the other level. -/
theorem stays_of_debounced {period : U16} (hperiod : 1 ≤ period.toNat ∧ period.toNat ≤ 2184)
    {calls : List IoCall} (h : Debounced period calls) :
    Along (ioCall period) ioStart calls fun before _ c => Stays before c := by
  induction calls using List.reverseRecOn with
  | nil => exact along_nil _ _ _
  | append_singleton calls d ih =>
    obtain ⟨hbefore, hlast⟩ := along_concat.mp h
    have hstays := ih hbefore
    refine along_concat.mpr ⟨hstays, fun hjust => ?_⟩
    have hfollows := follows_run hperiod hstays
    by_contra hlevel
    obtain ⟨-, hsame, -⟩ := hlast (commands_iff.mpr ⟨hfollows.level_ne.mpr hlevel,
      Nat.le_of_eq (hfollows.taken hjust).symm⟩)
    obtain ⟨earlier, c, rfl, haccept⟩ := hjust
    rw [ideal_concat, Debounce.next_of_accepts haccept] at hlevel
    exact hlevel (hsame c (by rw [List.rtake_concat_succ]; simp)).symm

/-- **The input pin.** For every period from 1 to 2184 and all calls: a command is sent only at the
end of 31 calls in a row that read one level, opposite to the one last acted on, exactly when the
pin never leaves a level at the call directly after the one that took it over.
SOURCE: Uart.c:132-186 -/
theorem debounced_iff (period : U16) (hlow : 1 ≤ period.toNat) (hhigh : period.toNat ≤ 2184)
    (calls : List IoCall) : Debounced period calls ↔ ¬ QuickReturn calls := by
  rw [not_quickReturn_iff period]
  constructor
  · exact stays_of_debounced ⟨hlow, hhigh⟩
  · rintro hstays before c after rfl hcommand
    have hfollows := follows_run ⟨hlow, hhigh⟩ hstays.of_append
    have haccept := (hfollows.takes_iff hlow (hstays before c after rfl)).mp (commands_iff.mp hcommand)
    obtain ⟨hlength, hsame⟩ := Debounce.accepts_recent haccept
    rw [List.length_map] at hlength
    refine ⟨hlength, fun d hd => hsame d.level ?_, by rw [hfollows.acted]; exact haccept.1⟩
    rw [List.rtake, List.length_map, ← List.map_drop]
    exact List.mem_map_of_mem hd

/-- A call that finds the memory of an erased page at power-on. -/
def freshCall (level : Bool) : IoCall where
  level := level
  fw := boot (Vector.replicate 12 0xFF) (Vector.replicate 10 0)
  mode := (pageInv_boot _ _).select

/-- As called: the pin goes low and stays low, and one command is sent. -/
theorem debounced_low :
    let calls := List.replicate 40 (freshCall false)
    Debounced uartPeriod calls ∧ ¬ QuickReturn calls ∧
      occurrences (ioCall uartPeriod) (Commands uartPeriod) ioStart calls = 1 := by
  have hdebounced : Debounced uartPeriod (List.replicate 40 (freshCall false)) := by decide +kernel
  exact ⟨hdebounced, (debounced_iff uartPeriod (by decide) (by decide) _).mp hdebounced,
    by decide +kernel⟩

/-- The pin is low for exactly 31 calls. The call after them sends the off command, after a single
reading of the high level. -/
theorem off_at_once :
    let calls := List.replicate 31 (freshCall false) ++ [freshCall true]
    ¬ Debounced uartPeriod calls ∧
      occurrences (ioCall uartPeriod) (Commands uartPeriod) ioStart calls = 2 := by
  decide +kernel

/-! ## The calls of the serial task -/

/-- While the module is not registered an iteration calls `IoCheckProgram`, in the mode the memory is
in.
SOURCE: Uart.c:254-258 -/
theorem checkIo_eq_ioCall (c : IoCall) (hopen : c.fw.moduleInfo.registerState ≠ registerSucess) :
    (checkIo (pinLevel c.level) c.fw).1.io = (ioCall uartPeriod c c.fw.io).1 ∧
      (checkIo (pinLevel c.level) c.fw).2 = (ioCall uartPeriod c c.fw.io).2 := by
  rw [checkIo, if_pos hopen]
  exact ⟨rfl, rfl⟩

/-- The reply branch leaves the statics of the pin. -/
theorem io_uart2Replies : Cmd.Keeps Firmware.io uart2Replies.exec :=
  Stmt.keeps_exec (all_replyActions (fun _ => rfl) (fun _ => rfl) (fun _ _ => rfl) (fun _ => rfl)
    (fun _ => rfl) (fun _ _ _ => rfl) fun _ => rfl)

/-- What follows the save leaves the statics of the pin. -/
theorem io_afterSave (id : U32) : Cmd.Keeps Firmware.io (afterSave id).exec := by
  have hsend : sendEvent.All (Cmd.Keeps Firmware.io) :=
    all_sendActions (fun _ _ => rfl) (keeps_io apart_onTest) (keeps_io apart_offTest) (fun _ => rfl)
      fun _ => rfl
  have htick : (tick1s id).All (Cmd.Keeps Firmware.io) :=
    ⟨⟨fun _ => rfl, ⟨⟨fun _ => rfl, hsend⟩, trivial⟩, keeps_io apart_lights,
      keeps_io (apart_startRegister id), keeps_io apart_monitorConnect, keeps_io apart_sendThreeTimes,
      trivial⟩, trivial⟩
  exact Stmt.keeps_exec ⟨keeps_io apart_tick100ms, htick, keeps_io apart_tick5s,
    keeps_io (apart_tick10s id), trivial⟩

/-- Nothing in an iteration but the call touches the statics. -/
theorem io_iteration (chip : Chip) (pin : U8) (heap : Heap) (s : Firmware) :
    (firmware chip (.iteration pin heap) s).1.io = (checkIo pin (timers s).1).1.io := by
  rw [firmware, exec_uartIteration, beforeSave]
  simp only [Cmd.andThen_apply]
  rw [io_afterSave, keeps_io apart_saveFlash, io_uart2Replies, keeps_io (apart_pollUart1 _ heap)]

/-- **Every run makes such calls.** If the pin is read as 0 or 1, the statics after any run of the
firmware are those after some calls, each with the memory it found. -/
theorem io_run (chip : Chip) (page : FlashPage) (beyond : Vector U8 10) (inputs : List Input)
    (hpin : ∀ pin heap, Input.iteration pin heap ∈ inputs → ∃ level, pin = pinLevel level) :
    ∃ calls : List IoCall,
      (run (firmware chip) (boot page beyond) inputs).io = run (ioCall uartPeriod) ioStart calls := by
  induction inputs using List.reverseRecOn with
  | nil => exact ⟨[], rfl⟩
  | append_singleton inputs i ih =>
    obtain ⟨calls, hcalls⟩ := ih fun pin heap hmem => hpin pin heap (List.mem_append_left _ hmem)
    have hmode := (pageInv_run chip page beyond inputs).select
    rw [run_append]
    generalize run (firmware chip) (boot page beyond) inputs = s at hcalls hmode ⊢
    show ∃ calls, (firmware chip i s).1.io = _
    cases i with
    | peer p =>
      have hkeep : (core (peerStep p s).1).io = (core s).io := by rw [core_peerStep p s]
      exact ⟨calls, hkeep.trans hcalls⟩
    | iteration pin heap =>
      obtain ⟨level, rfl⟩ := hpin pin heap (by simp)
      rw [io_iteration]
      by_cases hopen : (timers s).1.moduleInfo.registerState ≠ registerSucess
      · -- the call finds the memory after the timers
        refine ⟨calls ++ [⟨level, (timers s).1, hmode⟩], ?_⟩
        rw [run_append, ← hcalls]
        exact (checkIo_eq_ioCall ⟨level, (timers s).1, hmode⟩ hopen).1
      · refine ⟨calls, ?_⟩
        rw [checkIo, if_neg hopen, ← hcalls]
        rfl

end InfraredModule.Analysis
