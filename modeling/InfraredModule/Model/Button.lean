import InfraredModule.Model.System

/-!
# `ButtonTask.c`: from pin samples to button callbacks

The table of the three buttons, its registration, and one call of `Buttonprogram`. A call
reads the level of every pin once and ends, for each button in turn, in a call of its
callback with the type that was found. The callbacks are the `Peer` steps of the same name, so
`device` runs the button thread beside the firmware; `device_run` says that what it does to the
firmware's memory is a run of `firmware`.
-/

set_option autoImplicit false

namespace InfraredModule.Model

open InfraredModule.Foundation

/-- `KEY_ON`.
SOURCE: ButtonTask.h:20 -/
def keyOn : U8 := 0

/-- `BAND_TIME`.
SOURCE: ButtonTask.h:22-25 -/
def bandTime : U16 := 40

/-- `SHORT_TIME`.
SOURCE: ButtonTask.h:22-25 -/
def shortTime : U16 := 60

/-- `LONG_TIME`.
SOURCE: ButtonTask.h:22-25 -/
def longTime : U16 := 600

/-- `BTN_COOL_TIME`.
SOURCE: ButtonTask.c:18 -/
def btnCoolTime : U8 := 2

/-- `BUTTON_TASK_PERIOD`.
SOURCE: Gpio.h:56-58 -/
def buttonTaskPeriod : U8 := 20

/-- `BUTTON_ENTER`, the pin `GET_PIN(B, 1)`.
SOURCE: Gpio.h:37-39 -/
def buttonEnter : ℕ := 17

/-- `BUTTON_UP`, the pin `GET_PIN(B, 2)`.
SOURCE: Gpio.h:37-39 -/
def buttonUp : ℕ := 18

/-- `BUTTON_DOWN`, the pin `GET_PIN(B, 3)`.
SOURCE: Gpio.h:37-39 -/
def buttonDown : ℕ := 19

/-- What the `call_back` of a button may hold. -/
inductive ButtonCallBack where
  | null
  | enterBtnCallBack
  | upBtnCallBack
  | dowmBtnCallBack
  deriving DecidableEq, Repr

/-- The call through the pointer. -/
def ButtonCallBack.call : ButtonCallBack → PressType → List Peer
  | .null, _ => []
  | .enterBtnCallBack, type => [.enterBtn type]
  | .upBtnCallBack, type => [.upBtn type]
  | .dowmBtnCallBack, type => [.dowmBtn type]

/-- SOURCE: ButtonTask.h:29-37 -/
structure ButtonInfo where
  onSet : U8
  type : PressType
  pressState : Bool
  haveRead : Bool
  continueTime : U16
  pin : ℕ
  callBack : ButtonCallBack
  deriving DecidableEq, Repr

/-- A row of the table with its entries in the two static arrays of `Buttonprogram`. -/
structure Button where
  info : ButtonInfo
  btnCooling : U8
  onSetPre : U8
  deriving DecidableEq, Repr

/-- A row of the table before `ButtonAdd` fills it. -/
def Button.zero : Button := ⟨⟨0, .nullPress, false, false, 0, 0, .null⟩, 0, 0⟩

/-- The table of the three buttons. -/
abbrev Buttons := Fin 3 → Button

/-- `index` is the function's static counter.
SOURCE: ButtonTask.c:94-111 -/
def buttonAdd (index : ℕ) (pin : ℕ) (onSet : U8) (callBack : ButtonCallBack) (bs : Buttons) :
    Buttons := fun i =>
  if i.val = index then
    { bs i with info := { (bs i).info with
        pin := pin, onSet := onSet, callBack := callBack, pressState := false, haveRead := false } }
  else bs i

/-- The table as the loop of `ButtonTaskEntry` finds it.
SOURCE: ButtonTask.c:113-118 -/
def buttonRegister : Buttons :=
  buttonAdd 2 buttonDown keyOn .dowmBtnCallBack (buttonAdd 1 buttonUp keyOn .upBtnCallBack
    (buttonAdd 0 buttonEnter keyOn .enterBtnCallBack fun _ => Button.zero))

/-- What precedes the loop, for button 0 only. Where it reads the pin the level is that of the loop: the
branch is never taken, as both arrays hold `KEY_ON`.
SOURCE: ButtonTask.c:24-33 -/
def coolingReset (level : ℕ → U8) (b : Button) : Button :=
  if b.onSetPre ≠ b.info.onSet then
    { b with
      onSetPre := b.info.onSet
      btnCooling := if level b.info.pin ≠ b.info.onSet then 0 else b.btnCooling }
  else b

/-- SOURCE: ButtonTask.c:38-53 -/
def pressTime (period : U8) (level : ℕ → U8) (b : Button) : Button :=
  if level b.info.pin = b.info.onSet then
    if b.btnCooling ≥ btnCoolTime then
      { b with info := { b.info with
          continueTime := b.info.continueTime + period.setWidth 16, pressState := true } }
    else b
  else
    { b with
      info := { b.info with pressState := false }
      btnCooling := if b.btnCooling < btnCoolTime then b.btnCooling + 1 else b.btnCooling }

/-- SOURCE: ButtonTask.c:57-88 -/
def pressTypeOf (b : Button) : Button :=
  if b.info.pressState then
    if b.info.continueTime ≥ longTime then
      { b with info := { b.info with
          type := if b.info.haveRead then .nullPress else .longPress, haveRead := true } }
    else b
  else
    { b with info := { b.info with
        type :=
          if b.info.continueTime ≥ shortTime ∧ b.info.continueTime < longTime - bandTime then
            .shortPress
          else .nullPress
        haveRead := false
        continueTime := 0 } }

/-- One call. The callbacks do not touch the table, so the rounds of the loop are independent.
SOURCE: ButtonTask.c:16-92 -/
def buttonprogram (period : U8) (level : ℕ → U8) : Cmd Buttons Peer := fun bs =>
  let reset : Buttons := fun i => if i = 0 then coolingReset level (bs i) else bs i
  let next : Buttons := fun i => pressTypeOf (pressTime period level (reset i))
  (next, [0, 1, 2].flatMap fun i => (next i).info.callBack.call (next i).info.type)

/-- The button task, fed with the levels of the pins at each round of its loop. -/
def buttonTask (level : ℕ → U8) : Cmd Buttons Peer := buttonprogram buttonTaskPeriod level

/-! ## The button thread beside the firmware -/

/-- The firmware with its buttons. -/
structure Device where
  fw : Firmware
  buttons : Buttons

/-- What the device takes: an input of the firmware, or an iteration of the button thread. -/
inductive DeviceInput where
  | input (i : Input)
  | buttonTask (level : ℕ → U8)

/-- The callbacks a round of the button task makes, one after the other. -/
def callBacks : List Peer → FwCmd
  | [] => Cmd.skip
  | p :: ps => Cmd.andThen (peerStep p) (callBacks ps)

/-- The device on one input. -/
def device (chip : Chip) : DeviceInput → Cmd Device Obs
  | .input i => fun d => (⟨(firmware chip i d.fw).1, d.buttons⟩, (firmware chip i d.fw).2)
  | .buttonTask level => fun d =>
    let round := buttonTask level d.buttons
    (⟨(callBacks round.2 d.fw).1, round.1⟩, (callBacks round.2 d.fw).2)

/-- The calls of a round are a run of the firmware. -/
theorem callBacks_fst (chip : Chip) (calls : List Peer) (s : Firmware) :
    (callBacks calls s).1 = run (firmware chip) s (calls.map .peer) := by
  induction calls generalizing s with
  | nil => rfl
  | cons p ps ih =>
    rw [List.map_cons, run_cons, callBacks, Cmd.andThen_apply]
    exact ih _

/-- **The button thread adds nothing.** What a run of the device does to the firmware's memory, a
run of `firmware` does. -/
theorem device_run (chip : Chip) (d : Device) (inputs : List DeviceInput) :
    ∃ steps : List Input, (run (device chip) d inputs).fw = run (firmware chip) d.fw steps := by
  induction inputs generalizing d with
  | nil => exact ⟨[], rfl⟩
  | cons i inputs ih =>
    obtain ⟨steps, hsteps⟩ := ih (device chip i d).1
    rw [run_cons, hsteps]
    cases i with
    | input i => exact ⟨i :: steps, rfl⟩
    | buttonTask level =>
      refine ⟨(buttonTask level d.buttons).2.map .peer ++ steps, ?_⟩
      rw [run_append, ← callBacks_fst chip]
      rfl

end InfraredModule.Model
