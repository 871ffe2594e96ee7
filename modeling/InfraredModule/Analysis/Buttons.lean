import InfraredModule.Model.Button
import Mathlib.Data.List.DropRight

/-!
# What the buttons report

For each button the history of its pin decides everything the task keeps about it
(`tracks_run`): whether it is armed (two released samples), for how many samples it has been
held, and the type it reports (`typeAfter`). The type is not computed anew while a press is
shorter than a long one, so the type of the last release is reported again at every sample of
a press that follows a single released sample; and the time a press lasts is kept modulo
`2 ^ 16`. `short_iff` and `long_iff` say exactly which histories are hit by the one and by the
other.
-/

set_option autoImplicit false

namespace InfraredModule.Analysis

open InfraredModule.Foundation InfraredModule.Model

/-- What `rt_pin_read` returns at one sample, by pin. -/
abbrev Levels := ℕ → U8

/-! ## The history of a pin -/

section History

variable (i : Fin 3)

/-- The button is down in a sample. -/
def pressed (level : Levels) : Bool := decide (level (buttonRegister i).info.pin = keyOn)

/-- The samples for which the button has been held down. -/
def held (history : List Levels) : ℕ := (history.rtakeWhile (pressed i)).length

/-- Two released samples have been seen. -/
def Armed (history : List Levels) : Prop := 2 ≤ history.countP fun level => !pressed i level

instance (history : List Levels) : Decidable (Armed i history) := inferInstanceAs (Decidable (_ ≤ _))

/-- The time kept for a press of `n` samples is that of a short press. -/
def Click (n : ℕ) : Prop := 60 ≤ 20 * n % 65536 ∧ 20 * n % 65536 < 560

instance (n : ℕ) : Decidable (Click n) := inferInstanceAs (Decidable (_ ∧ _))

/-- The type reported at a released sample. -/
def typeAtRelease (history : List Levels) : PressType :=
  if Armed i history ∧ Click (held i history) then .shortPress else .nullPress

/-- The type the table holds after a history: in a press shorter than a long one it is that of the
release before it. -/
def typeAfter (history : List Levels) : PressType :=
  if Armed i history ∧ 30 ≤ held i history then
    if held i history = 30 then .longPress else .nullPress
  else typeAtRelease i (history.rdropWhile (pressed i)).dropLast

variable {i} {history : List Levels} {level : Levels}

/-- A pressed sample makes the hold longer by one. -/
theorem held_pressed (h : pressed i level = true) :
    held i (history ++ [level]) = held i history + 1 := by
  rw [held, List.rtakeWhile_concat_pos _ _ _ h, List.length_append]
  rfl

/-- A released sample ends the hold. -/
theorem held_released (h : pressed i level = false) : held i (history ++ [level]) = 0 := by
  rw [held, List.rtakeWhile_concat_neg _ _ _ (by simp [h])]
  rfl

/-- A pressed sample does not arm a button. -/
theorem armed_pressed (h : pressed i level = true) :
    Armed i (history ++ [level]) ↔ Armed i history := by
  simp [Armed, List.countP_append, h]

/-- At a released sample the type is the one of the release. -/
theorem typeAfter_released (h : pressed i level = false) :
    typeAfter i (history ++ [level]) = typeAtRelease i history := by
  rw [typeAfter, held_released h, if_neg (by omega), List.rdropWhile_concat_neg _ _ _ (by simp [h]),
    List.dropLast_concat]

/-- A button that is not armed reports nothing. -/
theorem typeAfter_not_armed (h : ¬ Armed i history) : typeAfter i history = .nullPress := by
  have hbefore : ¬ Armed i (history.rdropWhile (pressed i)).dropLast := fun hearlier =>
    h (Nat.le_trans hearlier ((List.dropLast_sublist _).trans
      (List.rdropWhile_prefix (pressed i) history).sublist).countP_le)
  rw [typeAfter, if_neg fun hlong => h hlong.1, typeAtRelease, if_neg fun hclick => hbefore hclick.1]

/-- In a long press the type is reported once, at the thirtieth sample. -/
theorem typeAfter_pressed_long (h : pressed i level = true) (harmed : Armed i history)
    (hlong : 30 ≤ held i history + 1) :
    typeAfter i (history ++ [level]) =
      if held i history + 1 = 30 then .longPress else .nullPress := by
  rw [typeAfter, held_pressed h, if_pos ⟨(armed_pressed h).mpr harmed, hlong⟩]

/-- A press that is not long yet repeats the type of the release before it. -/
theorem typeAfter_pressed_short (h : pressed i level = true) (hshort : held i history + 1 < 30) :
    typeAfter i (history ++ [level]) = typeAfter i history := by
  rw [typeAfter, typeAfter, held_pressed h, if_neg (by omega), if_neg (by omega),
    List.rdropWhile_concat_pos _ _ _ h]

/-- A press whose time is not that of a long one, also after the time has wrapped, repeats the type:
the long press itself, at 600 ms, is not such a moment, and neither is the sample after it. -/
theorem typeAfter_pressed_kept (h : pressed i level = true) (harmed : Armed i history)
    (htime : 20 * (held i history + 1) % 65536 < 600) :
    typeAfter i (history ++ [level]) = typeAfter i history := by
  by_cases hshort : held i history + 1 < 30
  · exact typeAfter_pressed_short h hshort
  · have hfirst : held i history + 1 ≠ 30 := fun heq => absurd (heq ▸ htime) (by decide)
    have hsecond : held i history + 1 ≠ 31 := fun heq => absurd (heq ▸ htime) (by decide)
    rw [typeAfter_pressed_long h harmed (by omega), if_neg (by omega), typeAfter,
      if_pos ⟨harmed, by omega⟩, if_neg (by omega)]

end History

/-! ## The table follows the history -/

/-- What the task keeps about a button after a history. -/
structure Tracks (i : Fin 3) (history : List Levels) (b : Button) : Prop where
  onSet : b.info.onSet = keyOn
  onSetPre : b.onSetPre = keyOn
  pin : b.info.pin = (buttonRegister i).info.pin
  callBack : b.info.callBack = (buttonRegister i).info.callBack
  cooling : b.btnCooling.toNat = min 2 (history.countP fun level => !pressed i level)
  continueTime : b.info.continueTime.toNat =
    if Armed i history then 20 * held i history % 65536 else 0
  pressState : b.info.pressState = decide (Armed i history ∧ 0 < held i history)
  haveRead : b.info.haveRead = decide (Armed i history ∧ 30 ≤ held i history)
  type : b.info.type = typeAfter i history

/-- At start-up the table follows the empty history. -/
theorem tracks_register (i : Fin 3) : Tracks i [] (buttonRegister i) := by
  obtain rfl | rfl | rfl : i = 0 ∨ i = 1 ∨ i = 2 := by omega
  all_goals constructor <;> decide

section Step

variable {i : Fin 3} {history : List Levels} {b : Button} {level : Levels}

/-- The cooling count tells whether the button is armed. -/
theorem Tracks.cooling_iff (h : Tracks i history b) : b.btnCooling ≥ btnCoolTime ↔ Armed i history := by
  have hcount := h.cooling
  rw [ge_iff_le, BitVec.le_def, Armed, hcount, show btnCoolTime.toNat = 2 from rfl]
  omega

/-- The level tells whether the button is down. -/
theorem Tracks.level_iff (h : Tracks i history b) :
    level b.info.pin = b.info.onSet ↔ pressed i level = true := by
  rw [h.pin, h.onSet, pressed, decide_eq_true_iff]

/-- The block before the loop does nothing: the arrays it compares both hold `KEY_ON`. -/
theorem Tracks.coolingReset (h : Tracks i history b) (level : Levels) : coolingReset level b = b := by
  rw [Model.coolingReset, if_neg (by rw [h.onSetPre, h.onSet]; exact fun hne => hne rfl)]

/-- The table follows a released sample. -/
theorem Tracks.released (h : Tracks i history b) (hlevel : pressed i level = false) :
    Tracks i (history ++ [level]) (pressTypeOf (pressTime buttonTaskPeriod level b)) := by
  have hup : ¬ level b.info.pin = b.info.onSet := by rw [h.level_iff, hlevel]; exact Bool.false_ne_true
  have hheld : held i (history ++ [level]) = 0 := held_released hlevel
  have hcount : (history ++ [level]).countP (fun level => !pressed i level) =
      history.countP (fun level => !pressed i level) + 1 := by
    simp [List.countP_append, hlevel]
  have hclick : (b.info.continueTime ≥ shortTime ∧ b.info.continueTime < longTime - bandTime) ↔
      Armed i history ∧ Click (held i history) := by
    rw [ge_iff_le, BitVec.le_def, BitVec.lt_def, h.continueTime, Click,
      show shortTime.toNat = 60 from rfl, show (longTime - bandTime).toNat = 560 from rfl]
    by_cases harmed : Armed i history
    · simp only [harmed, if_true, true_and]
    · simp only [harmed, if_false, false_and, iff_false]
      omega
  rw [pressTime, if_neg hup, pressTypeOf]
  constructor
  case cooling =>
    have hcool := h.cooling
    rw [hcount]
    by_cases harmed : Armed i history
    · have hfull := h.cooling_iff.mpr harmed
      rw [Armed] at harmed
      simp only [Bool.false_eq_true, if_false, if_neg (BitVec.not_lt.mpr hfull)]
      omega
    · have hlow := BitVec.not_le.mp fun hfull => harmed (h.cooling_iff.mp hfull)
      rw [Armed] at harmed
      simp only [Bool.false_eq_true, if_false, if_pos hlow, BitVec.toNat_add]
      rw [hcool]
      simp
      omega
  case continueTime => simp [hheld]
  case pressState => simp [hheld]
  case haveRead => simp [hheld]
  case type =>
    rw [typeAfter_released hlevel, typeAtRelease]
    simp only [Bool.false_eq_true, if_false, hclick]
  all_goals simp [h.onSet, h.onSetPre, h.pin, h.callBack]

/-- The table follows a pressed sample. -/
theorem Tracks.pressed (h : Tracks i history b) (hlevel : pressed i level = true) :
    Tracks i (history ++ [level]) (pressTypeOf (pressTime buttonTaskPeriod level b)) := by
  have hdown : level b.info.pin = b.info.onSet := h.level_iff.mpr hlevel
  have hcount : (history ++ [level]).countP (fun level => !Analysis.pressed i level) =
      history.countP (fun level => !Analysis.pressed i level) := by
    simp [List.countP_append, hlevel]
  have harmed : Armed i (history ++ [level]) ↔ Armed i history := armed_pressed hlevel
  have hheld : held i (history ++ [level]) = held i history + 1 := held_pressed hlevel
  by_cases hready : Armed i history
  · -- armed: the time runs, modulo the width of its field
    have htime : (b.info.continueTime + buttonTaskPeriod.setWidth 16).toNat =
        20 * (held i history + 1) % 65536 := by
      have hkept := h.continueTime
      rw [if_pos hready] at hkept
      rw [BitVec.toNat_add, hkept, show (buttonTaskPeriod.setWidth 16).toNat = 20 from rfl]
      omega
    rw [pressTime, if_pos hdown, if_pos (h.cooling_iff.mpr hready), pressTypeOf, if_pos rfl]
    by_cases hlong : b.info.continueTime + buttonTaskPeriod.setWidth 16 ≥ longTime
    · have hover : 30 ≤ held i history + 1 := by
        rw [ge_iff_le, BitVec.le_def, htime, show longTime.toNat = 600 from rfl] at hlong
        have hle := Nat.mod_le (20 * (held i history + 1)) 65536
        omega
      rw [if_pos hlong]
      constructor
      case type =>
        rw [typeAfter_pressed_long hlevel hready hover, h.haveRead]
        by_cases hfirst : held i history + 1 = 30
        · simp [hfirst, show ¬ 30 ≤ held i history by omega]
        · simp [hfirst, hready, show 30 ≤ held i history by omega]
      case cooling => rw [hcount, h.cooling]
      case continueTime => rw [if_pos (harmed.mpr hready), hheld, htime]
      all_goals simp [h.onSet, h.onSetPre, h.pin, h.callBack, harmed, hready, hheld, hover]
    · rw [if_neg hlong]
      rw [ge_iff_le, BitVec.le_def, htime, show longTime.toNat = 600 from rfl, Nat.not_le] at hlong
      constructor
      case cooling => rw [hcount, h.cooling]
      case continueTime => rw [if_pos (harmed.mpr hready), hheld, htime]
      case type => rw [typeAfter_pressed_kept hlevel hready hlong, h.type]
      case haveRead =>
        have hnot : held i history + 1 ≠ 30 := by omega
        have hsame : 30 ≤ held i history + 1 ↔ 30 ≤ held i history := by omega
        simp only [h.haveRead, harmed, hheld, hsame]
      all_goals simp [h.onSet, h.onSetPre, h.pin, h.callBack, harmed, hready, hheld]
  · -- not armed: the press is not counted, and the row looks released
    have hstate : b.info.pressState = false := by rw [h.pressState]; simp [hready]
    have hzero : b.info.continueTime = 0 :=
      BitVec.eq_of_toNat_eq (by rw [h.continueTime, if_neg hready]; rfl)
    have hnot := mt harmed.mp hready
    rw [pressTime, if_pos hdown, if_neg fun hfull => hready (h.cooling_iff.mp hfull), pressTypeOf,
      if_neg (by rw [hstate]; exact Bool.false_ne_true), hzero]
    constructor
    case cooling => rw [hcount, h.cooling]
    case type => rw [typeAfter_not_armed hnot]; rfl
    all_goals simp [h.onSet, h.onSetPre, h.pin, h.callBack, hnot, hstate]

/-- **One sample.** The row follows the history. -/
theorem Tracks.step (h : Tracks i history b) (level : Levels) :
    Tracks i (history ++ [level]) (pressTypeOf (pressTime buttonTaskPeriod level b)) := by
  cases hlevel : Analysis.pressed i level with
  | false => exact h.released hlevel
  | true => exact h.pressed hlevel

end Step

/-- **Every run.** After any samples each row of the table holds what the history of its pin says. -/
theorem tracks_run (i : Fin 3) (history : List Levels) :
    Tracks i history (run buttonTask buttonRegister history i) := by
  refine run_invariant (fun before (bs : Buttons) => Tracks i before (bs i)) (fun _ _ _ => True)
    (tracks_register i) (fun before level h _ => ?_) (fun _ _ _ _ => trivial)
  have hreset : (if i = 0 then coolingReset level (run buttonTask buttonRegister before i)
      else run buttonTask buttonRegister before i) = run buttonTask buttonRegister before i := by
    rw [h.coolingReset, ite_self]
  show Tracks i (before ++ [level]) (pressTypeOf (pressTime buttonTaskPeriod level (if i = 0 then _ else _)))
  rw [hreset]
  exact h.step level

/-! ## What the callbacks receive -/

/-- The callback of button `i` is called with `type` at this sample. -/
def Receives (i : Fin 3) (type : PressType) (bs : Buttons) (level : Levels) : Bool :=
  (buttonTask level bs).2.any fun call => decide (call ∈ (buttonRegister i).info.callBack.call type)

/-- After any history a callback receives the type that the history gives. -/
theorem receives_run (i : Fin 3) (type : PressType) (history : List Levels) (level : Levels) :
    Receives i type (run buttonTask buttonRegister history) level = true ↔
      typeAfter i (history ++ [level]) = type := by
  have hcalls : (buttonTask level (run buttonTask buttonRegister history)).2 =
      [.enterBtn (typeAfter 0 (history ++ [level])), .upBtn (typeAfter 1 (history ++ [level])),
        .dowmBtn (typeAfter 2 (history ++ [level]))] := by
    have hrow := fun j : Fin 3 => tracks_run j (history ++ [level])
    simp only [run_append, run_cons, run_nil] at hrow
    have hcall : ∀ j : Fin 3, ((buttonTask level (run buttonTask buttonRegister history)).1 j).info.callBack.call
        ((buttonTask level (run buttonTask buttonRegister history)).1 j).info.type =
        (buttonRegister j).info.callBack.call (typeAfter j (history ++ [level])) := fun j => by
      rw [(hrow j).callBack, (hrow j).type]
    show [0, 1, 2].flatMap (fun j => ((buttonTask level _).1 j).info.callBack.call
      ((buttonTask level _).1 j).info.type) = _
    simp only [hcall]
    rfl
  rw [Receives, hcalls]
  obtain rfl | rfl | rfl : i = 0 ∨ i = 1 ∨ i = 2 := by omega
  all_goals simp [buttonRegister, buttonAdd, ButtonCallBack.call]

/-! ## One short press a click -/

/-- A short press is received only at a released sample that follows a pressed one. -/
def ShortOnRelease (i : Fin 3) (levels : List Levels) : Prop :=
  Along buttonTask buttonRegister levels fun before bs level =>
    Receives i .shortPress bs level = true →
      pressed i level = false ∧ before.getLast?.any (pressed i) = true

instance (i : Fin 3) (levels : List Levels) : Decidable (ShortOnRelease i levels) :=
  inferInstanceAs (Decidable (Along _ _ _ _))

/-- A press and the released samples after it bring at most one short press. -/
def OnceACycle (i : Fin 3) (levels : List Levels) : Prop :=
  ∀ before press release after, levels = before ++ press ++ release ++ after →
    (∀ level ∈ press, pressed i level = true) → (∀ level ∈ release, pressed i level = false) →
    occurrences buttonTask (Receives i .shortPress) (run buttonTask buttonRegister before)
      (press ++ release) ≤ 1

/-- A click of an armed button, one released sample, and the button is down again. -/
def QuickRepress (i : Fin 3) (levels : List Levels) : Prop :=
  ∃ before up down after, levels = before ++ up :: down :: after ∧ Armed i before ∧
    Click (held i before) ∧ pressed i up = false ∧ pressed i down = true

section Short

variable {i : Fin 3}

/-- When a release is a short press. -/
theorem typeAtRelease_eq_short {history : List Levels} :
    typeAtRelease i history = .shortPress ↔ Armed i history ∧ Click (held i history) := by
  rw [typeAtRelease]
  split <;> simp_all

/-- A click lasts a sample at least. -/
theorem Click.pos {n : ℕ} (h : Click n) : 0 < n := by
  obtain ⟨hlow, -⟩ := h
  omega

/-- When the button has been held, the last sample was a pressed one. -/
theorem getLast?_pressed_of_held {history : List Levels} (h : 0 < held i history) :
    history.getLast?.any (pressed i) = true := by
  induction history using List.reverseRecOn with
  | nil => exact absurd h (Nat.lt_irrefl 0)
  | append_singleton history level _ =>
    rw [List.getLast?_concat, Option.any_some]
    by_contra hup
    rw [held_released (Bool.not_eq_true _ ▸ hup)] at h
    exact Nat.lt_irrefl 0 h

/-- At a released sample a short press is one: the button was down before. -/
theorem short_at_release {before : List Levels} {level : Levels} (hlevel : pressed i level = false)
    (h : typeAfter i (before ++ [level]) = .shortPress) : before.getLast?.any (pressed i) = true := by
  rw [typeAfter_released hlevel, typeAtRelease_eq_short] at h
  exact getLast?_pressed_of_held h.2.pos

/-- At a pressed sample a short press is an old one: the last release was a click. -/
theorem quickRepress_of_short {before after : List Levels} {level : Levels}
    (hlevel : pressed i level = true) (h : typeAfter i (before ++ [level]) = .shortPress) :
    QuickRepress i (before ++ level :: after) := by
  rw [typeAfter] at h
  split at h
  · split at h <;> exact absurd h (by decide)
  · rw [List.rdropWhile_concat_pos _ _ _ hlevel, typeAtRelease_eq_short] at h
    obtain ⟨harmed, hclick⟩ := h
    rcases List.eq_nil_or_concat (before.rdropWhile (pressed i)) with hnil | ⟨clicked, up, hup⟩
    · rw [hnil] at harmed
      exact absurd harmed (by simp [Armed])
    · rw [List.concat_eq_append] at hup
      rw [hup, List.dropLast_concat] at harmed hclick
      have hreleased : pressed i up = false := by
        have hlast := List.rdropWhile_last_not (pressed i) before (by rw [hup]; simp)
        simpa [hup] using hlast
      -- everything after `up`, as far as this sample, is down
      have hsplit : before = (clicked ++ [up]) ++ before.rtakeWhile (pressed i) := by
        rw [← hup, List.rdropWhile_append_rtakeWhile]
      cases hrest : before.rtakeWhile (pressed i) with
      | nil =>
        rw [hrest, List.append_nil] at hsplit
        exact ⟨clicked, up, level, after, by rw [hsplit, List.append_assoc]; rfl, harmed, hclick,
          hreleased, hlevel⟩
      | cons down rest =>
        have hdown : pressed i down = true :=
          List.mem_rtakeWhile_imp (l := before) (by rw [hrest]; exact List.mem_cons_self)
        rw [hrest] at hsplit
        exact ⟨clicked, up, down, rest ++ level :: after, by rw [hsplit]; simp, harmed, hclick,
          hreleased, hdown⟩

/-- After a released sample of a cycle everything is released. -/
theorem released_of_cycle {press release passed rest : List Levels} {level : Levels}
    (hpress : ∀ level ∈ press, pressed i level = true)
    (hrelease : ∀ level ∈ release, pressed i level = false)
    (hsplit : press ++ release = passed ++ level :: rest) (hlevel : pressed i level = false) :
    ∀ later ∈ level :: rest, pressed i later = false := by
  rcases List.append_eq_append_iff.mp hsplit with ⟨mid, -, htail⟩ | ⟨mid, hhead, htail⟩
  · intro later hlater
    exact hrelease later (by rw [htail]; exact List.mem_append_right mid hlater)
  · cases mid with
    | nil =>
      rw [List.nil_append] at htail
      rw [htail]
      exact hrelease
    | cons first mid =>
      obtain ⟨rfl, -⟩ := List.cons.inj htail
      have hdown := hpress level (by rw [hhead]; simp)
      exact absurd (hdown.symm.trans hlevel) (by decide)

/-- Received only at releases, short presses come at most once a cycle. -/
theorem onceACycle_of_shortOnRelease {levels : List Levels} (h : ShortOnRelease i levels) :
    OnceACycle i levels := by
  intro before press release after hlevels hpress hrelease
  have hat : ∀ passed level rest, press ++ release = passed ++ level :: rest →
      Receives i .shortPress (run buttonTask (run buttonTask buttonRegister before) passed) level = true →
      pressed i level = false ∧ (before ++ passed).getLast?.any (pressed i) = true := by
    intro passed level rest hsplit hshort
    rw [← run_append] at hshort
    refine h (before ++ passed) level (rest ++ after) ?_ hshort
    rw [hlevels, List.append_assoc before, hsplit]
    simp
  by_contra htwice
  -- a second one, and the first one before it
  obtain ⟨passed, second, rest, hsecond, htest₂, hcount⟩ :=
    exists_occurrence _ _ _ (Nat.lt_of_not_le htwice)
  obtain ⟨earlier, first, between, hfirst, htest₁, -⟩ :=
    exists_occurrence _ _ _ (show 0 < _ by rw [hcount]; exact Nat.one_pos)
  have hcycle : press ++ release = earlier ++ first :: (between ++ second :: rest) := by
    rw [hsecond, hfirst]
    simp
  obtain ⟨hup, -⟩ := hat earlier first _ hcycle htest₁
  obtain ⟨-, hlast⟩ := hat passed second rest hsecond htest₂
  have hreleased := released_of_cycle hpress hrelease hcycle hup
  rw [hfirst, ← List.append_assoc, List.getLast?_append_of_ne_nil _ (List.cons_ne_nil first between),
    List.getLast?_eq_some_getLast (List.cons_ne_nil first between), Option.any_some] at hlast
  have hmem := List.getLast_mem (List.cons_ne_nil first between)
  have hnot := hreleased _ (List.mem_cons.mpr ((List.mem_cons.mp hmem).imp_right (List.mem_append_left _)))
  exact absurd (hlast.symm.trans hnot) (by decide)

/-- **Short presses.** For every button and all samples: short presses are received only at a released
sample that follows a pressed one, and at most one for a press and its release, exactly when no
click of the armed button is followed by a single released sample and another press.
SOURCE: ButtonTask.c:35-91 -/
theorem short_iff (i : Fin 3) (levels : List Levels) :
    (ShortOnRelease i levels ∧ OnceACycle i levels) ↔ ¬ QuickRepress i levels := by
  constructor
  · rintro ⟨hshort, -⟩ ⟨before, up, down, after, rfl, harmed, hclick, hup, hdown⟩
    have hold : typeAfter i (before ++ [up] ++ [down]) = .shortPress := by
      rw [typeAfter_pressed_short hdown (by rw [held_released hup]; decide), typeAfter_released hup,
        typeAtRelease_eq_short]
      exact ⟨harmed, hclick⟩
    obtain ⟨hreleased, -⟩ := hshort (before ++ [up]) down after (by simp)
      ((receives_run i _ _ _).mpr hold)
    exact absurd (hdown.symm.trans hreleased) (by decide)
  · intro hquick
    have hshort : ShortOnRelease i levels := by
      rintro before level after rfl hreceived
      rw [receives_run] at hreceived
      cases hlevel : pressed i level with
      | false => exact ⟨rfl, short_at_release hlevel hreceived⟩
      | true => exact absurd (quickRepress_of_short hlevel hreceived) hquick
    exact ⟨hshort, onceACycle_of_shortOnRelease hshort⟩

/-- Enter is held for 60 ms, let go for one sample and pressed again: the short press is received
at the release and once more at the new press. -/
theorem short_twice :
    let up : Levels := fun _ => 1
    let down : Levels := fun pin => if pin = buttonEnter then 0 else 1
    ¬ ShortOnRelease 0 [up, up, down, down, down, up, down] ∧
      occurrences buttonTask (Receives 0 .shortPress) buttonRegister
        [up, up, down, down, down, up, down] = 2 := by
  decide +kernel

end Short

/-! ## A long press is not a short one -/

section Hold

variable {i : Fin 3} {history hold : List Levels}

/-- The samples of a hold are added to those before it. -/
theorem held_hold (hhold : ∀ level ∈ hold, pressed i level = true) :
    held i (history ++ hold) = held i history + hold.length := by
  induction hold using List.reverseRecOn with
  | nil => simp
  | append_singleton hold level ih =>
    rw [← List.append_assoc, held_pressed (hhold level (by simp)),
      ih fun l hl => hhold l (List.mem_append_left _ hl), List.length_append]
    rfl

/-- A hold arms no button. -/
theorem armed_hold (hhold : ∀ level ∈ hold, pressed i level = true) :
    Armed i (history ++ hold) ↔ Armed i history := by
  have hnone : hold.countP (fun level => !pressed i level) = 0 :=
    List.countP_eq_zero.mpr fun level hlevel => by simp [hhold level hlevel]
  rw [Armed, Armed, List.countP_append, hnone, Nat.add_zero]

/-- Cutting off the hold leaves what came before it. -/
theorem rdropWhile_hold (hhold : ∀ level ∈ hold, pressed i level = true) :
    (history ++ hold).rdropWhile (pressed i) = history.rdropWhile (pressed i) := by
  induction hold using List.reverseRecOn with
  | nil => rw [List.append_nil]
  | append_singleton hold level ih =>
    rw [← List.append_assoc, List.rdropWhile_concat_pos _ _ _ (hhold level (by simp)),
      ih fun l hl => hhold l (List.mem_append_left _ hl)]

/-- The type during a hold that starts at a released sample. -/
theorem typeAfter_hold {up : Levels} (hup : pressed i up = false) (harmed : Armed i (history ++ [up]))
    (hhold : ∀ level ∈ hold, pressed i level = true) :
    typeAfter i (history ++ [up] ++ hold) =
      if 30 ≤ hold.length then if hold.length = 30 then .longPress else .nullPress
      else typeAtRelease i history := by
  have hstill := (armed_hold hhold).mpr harmed
  rw [typeAfter, held_hold hhold, held_released hup, Nat.zero_add, rdropWhile_hold hhold,
    List.rdropWhile_concat_neg _ _ _ (by simp [hup]), List.dropLast_concat]
  simp only [hstill, true_and]

/-- A release after a released sample reports nothing. -/
theorem typeAtRelease_released {up : Levels} (hup : pressed i up = false) :
    typeAtRelease i (history ++ [up]) = .nullPress := by
  rw [typeAtRelease, held_released hup, if_neg fun h => absurd h.2.pos (Nat.lt_irrefl 0)]

/-- Nor does one after any number of released samples. -/
theorem typeAtRelease_of_released {idle : List Levels} (hsome : idle ≠ [])
    (hidle : ∀ level ∈ idle, pressed i level = false) :
    typeAtRelease i (history ++ idle) = .nullPress := by
  obtain ⟨rest, last, rfl⟩ := (List.eq_nil_or_concat idle).resolve_left hsome
  rw [List.concat_eq_append, ← List.append_assoc]
  exact typeAtRelease_released (hidle last (by simp))

/-- Two released samples arm a button. -/
theorem armed_of_two (history : List Levels) {first second : Levels}
    (hfirst : pressed i first = false) (hsecond : pressed i second = false) :
    Armed i (history ++ [first] ++ [second]) := by
  simp [Armed, List.countP_append, hfirst, hsecond]

end Hold

/-- How often the callback of button `i` receives `type` in `samples` after `history`. -/
def received (i : Fin 3) (type : PressType) (history samples : List Levels) : ℕ :=
  occurrences buttonTask (Receives i type) (run buttonTask buttonRegister history) samples

/-- What is received, with one sample more. -/
theorem received_concat (i : Fin 3) (type : PressType) (history samples : List Levels) (level : Levels) :
    received i type history (samples ++ [level]) = received i type history samples +
      if typeAfter i (history ++ samples ++ [level]) = type then 1 else 0 := by
  rw [received, occurrences_concat, ← run_append]
  simp only [receives_run]
  rfl

/-- A hold after two released samples, the sample that ends it, and what comes up to the end of
the next press. -/
structure Hold (i : Fin 3) where
  earlier : List Levels
  first : Levels
  second : Levels
  hold : List Levels
  up : Levels
  idle : List Levels
  next : List Levels
  first_up : pressed i first = false
  second_up : pressed i second = false
  hold_down : ∀ level ∈ hold, pressed i level = true
  up_up : pressed i up = false
  idle_up : ∀ level ∈ idle, pressed i level = false
  next_down : ∀ level ∈ next, pressed i level = true

namespace Hold

variable {i : Fin 3} (t : Hold i)

/-- The samples before the hold. -/
def before : List Levels := t.earlier ++ [t.first] ++ [t.second]

/-- The samples after the hold. -/
def after : List Levels := t.up :: (t.idle ++ t.next)

/-- During the hold one long press is received if it lasts 600 ms, none otherwise, and after a long
press no short one is. -/
def LongExcludesShort : Prop :=
  received i .longPress t.before t.hold = (if 600 ≤ 20 * t.hold.length then 1 else 0) ∧
    (0 < received i .longPress t.before t.hold →
      received i .shortPress (t.before ++ t.hold) t.after = 0)

/-- Before the hold the button is armed. -/
theorem armed : Armed i t.before := armed_of_two t.earlier t.first_up t.second_up

/-- Before the hold the button is not held. -/
theorem held_before : held i t.before = 0 := held_released t.second_up

/-- The long presses of a hold: at its thirtieth sample. -/
theorem received_long :
    received i .longPress t.before t.hold = if 600 ≤ 20 * t.hold.length then 1 else 0 := by
  suffices h : ∀ hold : List Levels, (∀ level ∈ hold, pressed i level = true) →
      received i .longPress t.before hold = if 30 ≤ hold.length then 1 else 0 by
    rw [h t.hold t.hold_down]
    exact if_congr (by omega) rfl rfl
  intro hold hdown
  induction hold using List.reverseRecOn with
  | nil => rfl
  | append_singleton hold level ih =>
    have htype : typeAfter i (t.before ++ hold ++ [level]) = .longPress ↔ hold.length + 1 = 30 := by
      rw [List.append_assoc, before, typeAfter_hold t.second_up t.armed hdown,
        typeAtRelease_released t.first_up, List.length_append, List.length_singleton]
      split
      · split <;> simp_all
      · simp only [reduceCtorEq, false_iff]
        omega
    rw [received_concat, ih fun l hl => hdown l (List.mem_append_left _ hl)]
    simp only [htype, List.length_append, List.length_singleton]
    split <;> split <;> split <;> omega

/-- What the release of the hold reports. -/
theorem typeAtRelease_hold :
    typeAtRelease i (t.before ++ t.hold) =
      if Click t.hold.length then .shortPress else .nullPress := by
  have hheld : held i (t.before ++ t.hold) = t.hold.length := by
    rw [held_hold t.hold_down, t.held_before, Nat.zero_add]
  rw [typeAtRelease, hheld]
  simp only [(armed_hold t.hold_down).mpr t.armed, true_and]

/-- After the hold the button is armed. -/
theorem armed_after {idle : List Levels} : Armed i (t.before ++ t.hold ++ idle) :=
  Nat.le_trans t.armed (List.Sublist.countP_le
    ((List.sublist_append_left t.before t.hold).trans (List.sublist_append_left _ idle)))

/-- While the button is up the hold is reported once, as a click if its time looks like one. -/
theorem received_short_idle (idle : List Levels) (hidle : ∀ level ∈ idle, pressed i level = false) :
    received i .shortPress (t.before ++ t.hold) (t.up :: idle) =
      if Click t.hold.length then 1 else 0 := by
  induction idle using List.reverseRecOn with
  | nil =>
    rw [← List.nil_append [t.up], received_concat, List.append_nil, typeAfter_released t.up_up,
      t.typeAtRelease_hold]
    by_cases hclick : Click t.hold.length
    · simp only [hclick, if_true]
      rfl
    · simp only [hclick, if_false]
      rfl
  | append_singleton idle level ih =>
    rw [← List.cons_append, received_concat, ih fun l hl => hidle l (List.mem_append_left _ hl),
      typeAfter_released (hidle level (by simp))]
    have hnull : typeAtRelease i (t.before ++ t.hold ++ t.up :: idle) = .nullPress :=
      typeAtRelease_of_released (List.cons_ne_nil t.up idle)
        (List.forall_mem_cons.mpr ⟨t.up_up, fun l hl => hidle l (List.mem_append_left _ hl)⟩)
    rw [hnull]
    simp only [reduceCtorEq, if_false, Nat.add_zero]

/-- After a hold whose time does not look like a click, no release reports one. -/
theorem typeAtRelease_idle (hclick : ¬ Click t.hold.length) {idle : List Levels}
    (hidle : ∀ level ∈ idle, pressed i level = false) :
    typeAtRelease i (t.before ++ t.hold ++ idle) = .nullPress := by
  by_cases hnone : idle = []
  · rw [hnone, List.append_nil, t.typeAtRelease_hold, if_neg hclick]
  · exact typeAtRelease_of_released hnone hidle

/-- No short press is received after a hold that is no click. -/
theorem received_short_eq_zero (hclick : ¬ Click t.hold.length) :
    received i .shortPress (t.before ++ t.hold) t.after = 0 := by
  obtain ⟨idle, last, hsplit⟩ : ∃ idle last, t.up :: t.idle = idle ++ [last] :=
    ⟨_, _, (List.dropLast_append_getLast (List.cons_ne_nil t.up t.idle)).symm⟩
  have hup : ∀ level ∈ idle ++ [last], pressed i level = false := by
    rw [← hsplit]
    exact List.forall_mem_cons.mpr ⟨t.up_up, t.idle_up⟩
  suffices h : ∀ next : List Levels, (∀ level ∈ next, pressed i level = true) →
      received i .shortPress (t.before ++ t.hold) (t.up :: t.idle ++ next) = 0 from h t.next t.next_down
  intro next hdown
  induction next using List.reverseRecOn with
  | nil => rw [List.append_nil, t.received_short_idle t.idle t.idle_up, if_neg hclick]
  | append_singleton next level ih =>
    have htype : typeAfter i (t.before ++ t.hold ++ (t.up :: t.idle ++ next) ++ [level]) ≠ .shortPress := by
      have hparts : t.before ++ t.hold ++ (t.up :: t.idle ++ next) ++ [level] =
          t.before ++ t.hold ++ idle ++ [last] ++ (next ++ [level]) := by
        rw [hsplit]
        simp only [List.append_assoc]
      have harmed : Armed i (t.before ++ t.hold ++ idle ++ [last]) := by
        rw [List.append_assoc]
        exact t.armed_after
      rw [hparts, typeAfter_hold (hup last (by simp)) harmed hdown,
        t.typeAtRelease_idle hclick fun l hl => hup l (List.mem_append_left _ hl)]
      split
      · split <;> decide
      · decide
    rw [← List.append_assoc, received_concat, ih fun l hl => hdown l (List.mem_append_left _ hl),
      if_neg htype]

/-- The short presses after a hold. -/
theorem received_short :
    received i .shortPress (t.before ++ t.hold) t.after = 0 ↔ ¬ Click t.hold.length := by
  constructor
  · intro hzero hclick
    have hfirst := t.received_short_idle t.idle t.idle_up
    have hle := occurrences_le_append buttonTask (Receives i .shortPress)
      (run buttonTask buttonRegister (t.before ++ t.hold)) (t.up :: t.idle) t.next
    rw [if_pos hclick] at hfirst
    exact absurd (Nat.le_trans (Nat.le_of_eq hfirst.symm) (Nat.le_trans hle (Nat.le_of_eq hzero)))
      (by decide)
  · exact t.received_short_eq_zero

/-- **Long presses.** For every button, every hold of any length after two released samples, and
whatever comes up to the end of the next press: one long press is received if the hold lasts
600 ms and none otherwise, and a long press is followed by no short one, exactly when the hold is
shorter than that or its time modulo `2 ^ 16` is not the time of a click.
SOURCE: ButtonTask.c:35-91 -/
theorem long_iff : t.LongExcludesShort ↔ t.hold.length < 30 ∨ ¬ Click t.hold.length := by
  rw [LongExcludesShort, t.received_short, t.received_long]
  by_cases hlong : 600 ≤ 20 * t.hold.length
  · simp only [hlong, if_true, true_and, Nat.one_pos, forall_const]
    constructor
    · exact .inr
    · rintro (hshort | hclick)
      · omega
      · exact hclick
  · simp only [hlong, if_false, true_and, Nat.lt_irrefl, false_implies, true_iff]
    exact .inl (by omega)

end Hold

/-- A high level is a released button. -/
theorem pressed_up (i : Fin 3) : pressed i (fun _ => 1) = false := rfl

/-- A low level is a pressed button. -/
theorem pressed_replicate (i : Fin 3) (n : ℕ) :
    ∀ level ∈ List.replicate n (fun _ => 0), pressed i level = true := by
  intro level hlevel
  rw [List.eq_of_mem_replicate hlevel]
  rfl

/-- The samples of an empty list are all down, and all up. -/
theorem pressed_nil (i : Fin 3) (b : Bool) : ∀ level ∈ ([] : List Levels), pressed i level = b :=
  fun _ h => absurd h List.not_mem_nil

/-- The first press after start-up, for `n` samples. -/
def Hold.single (i : Fin 3) (n : ℕ) : Hold i where
  earlier := []
  first := fun _ => 1
  second := fun _ => 1
  hold := List.replicate n fun _ => 0
  up := fun _ => 1
  idle := []
  next := []
  first_up := pressed_up i
  second_up := pressed_up i
  hold_down := pressed_replicate i n
  up_up := pressed_up i
  idle_up := pressed_nil i false
  next_down := pressed_nil i true

/-- A button held for 65.6 s. -/
def longHold (i : Fin 3) : Hold i := .single i 3280

/-- The time of this hold has wrapped to 64 ms: the release of Enter is reported as a short press
after the long one. -/
theorem long_and_short :
    received 0 .longPress (longHold 0).before (longHold 0).hold = 1 ∧
      received 0 .shortPress ((longHold 0).before ++ (longHold 0).hold) (longHold 0).after = 1 ∧
      ¬ (longHold 0).LongExcludesShort := by
  have hlength : (longHold 0).hold.length = 3280 := List.length_replicate
  have hclick : Click (longHold 0).hold.length := by rw [hlength]; decide
  have hlong : received 0 .longPress (longHold 0).before (longHold 0).hold = 1 := by
    rw [(longHold 0).received_long, hlength]
    rfl
  have hshort : received 0 .shortPress ((longHold 0).before ++ (longHold 0).hold) (longHold 0).after = 1 :=
    ((longHold 0).received_short_idle [] (pressed_nil 0 false)).trans (if_pos hclick)
  refine ⟨hlong, hshort, fun h => ?_⟩
  exact absurd ((h.2 (by rw [hlong]; exact Nat.one_pos)).symm.trans hshort) (by decide)

end InfraredModule.Analysis
