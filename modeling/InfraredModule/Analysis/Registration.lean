import InfraredModule.Analysis.HubFrames

/-!
# Registration with the hub and the module's address

The serial task asks the hub for registration through an event cell: the poll clears it when the
hub has spoken, the thirty-second monitor and the five-second tick set it, the one-second tick
copies it, and the ten-second tick sends what the copy asks for. `hub_to10s` says what one
iteration does to all of this as a function of the state it starts in.
`registration_wanted_iff` says when the ten-second tick does what the cell asks for,
`reconnects` that a long silence always ends in a registration frame, and `addressable_iff` in
which runs the module keeps an address that is not the registration code.
-/

set_option autoImplicit false

namespace InfraredModule.Analysis

open InfraredModule.Foundation InfraredModule.Model InfraredModule.Interface

/-! ## What the task remembers about the hub -/

/-- The event cell, the task's copy of it, the connection monitor, the flags, and which timers
have fired. -/
structure Hub where
  event : MasterEvent
  copy : MasterEvent
  monitor : U8
  started : Bool
  registerState : U8
  tick1s : Bool
  tick5s : Bool
  tick10s : Bool

/-- The hub side of the memory. -/
def hub (s : Firmware) : Hub where
  event := s.materEnvent
  copy := s.task.masterEvent
  monitor := s.task.connectMonitor
  started := s.task.startFlag
  registerState := s.moduleInfo.registerState
  tick1s := s.task.timer1s.touch
  tick5s := s.task.timer5s.touch
  tick10s := s.task.timer10s.touch

/-- The input pin leaves the hub side alone. -/
theorem hub_checkIo (pin : U8) : Cmd.Keeps hub (checkIo pin) :=
  keeps_checkIo (fun _ _ _ _ => rfl) (fun _ _ => rfl) pin

/-- The reply branch leaves the hub side alone. -/
theorem hub_uart2Replies : Cmd.Keeps hub uart2Replies.exec :=
  Stmt.keeps_exec (all_replyActions (fun _ => rfl) (fun _ => rfl) (fun _ _ => rfl) (fun _ => rfl)
    (fun _ => rfl) (fun _ _ _ => rfl) fun _ => rfl)

/-- The save leaves the hub side alone. -/
theorem hub_saveFlash : Cmd.Keeps hub saveFlash := keeps_saveFlash fun _ _ _ => rfl

/-- The 100 ms branch leaves the hub side alone. -/
theorem hub_tick100ms : Cmd.Keeps hub tick100ms := keeps_tick100ms fun _ _ _ _ => rfl

/-- The threefold send leaves the hub side alone. -/
theorem hub_sendThreeTimes : Cmd.Keeps hub sendThreeTimes :=
  keeps_sendThreeTimes (fun _ _ _ _ => rfl) fun _ _ _ => rfl

/-- The dispatch leaves the hub side alone. -/
theorem hub_dispatchEvent : Cmd.Keeps hub dispatchEvent.exec := by
  have hon : Cmd.Keeps hub onTest := keeps_onTest fun _ _ _ _ => rfl
  have hoff : Cmd.Keeps hub offTest := keeps_offTest fun _ _ _ _ => rfl
  exact Stmt.keeps_exec ⟨⟨fun _ => rfl, all_sendActions (fun _ _ => rfl) hon hoff (fun _ => rfl)
    fun _ => rfl⟩, trivial⟩

/-- The lamps leave the hub side alone. -/
theorem hub_lights : Cmd.Keeps hub lights := keeps_lights fun _ _ => rfl

/-! ## What an iteration does to it -/

/-- The poll hands the slot to `analyzeMasterData`. -/
def Requested (s : Firmware) : Prop :=
  s.uart1Msg.messageFlag = true ∧ byteAt s.uart1Msg.data 0 ≠ registerCode ∧
    s.moduleInfo.addr = byteAt s.uart1Msg.data 0

/-- The slot holds a registration frame that is long enough. -/
def Replied (s : Firmware) : Prop :=
  s.uart1Msg.messageFlag = true ∧ byteAt s.uart1Msg.data 0 = registerCode ∧ 6 ≤ s.uart1Msg.size

/-- A registration frame with this module's identifier. -/
def Admitted (id : U32) (s : Firmware) : Prop := Replied s ∧ frameUuid s.uart1Msg.data = id

instance (s : Firmware) : Decidable (Requested s) := inferInstanceAs (Decidable (_ ∧ _ ∧ _))
instance (s : Firmware) : Decidable (Replied s) := inferInstanceAs (Decidable (_ ∧ _ ∧ _))
instance (id : U32) (s : Firmware) : Decidable (Admitted id s) := inferInstanceAs (Decidable (_ ∧ _))

/-- What the poll does to the hub side.
SOURCE: Uart.c:260-293 -/
theorem hub_pollUart1 (id : U32) (heap : Heap) (s : Firmware) :
    hub (pollUart1 id heap s).1 =
      { hub s with
        event := if Requested s ∨ Replied s then .clean else s.materEnvent
        monitor := if Requested s then 0 else s.task.connectMonitor
        registerState := if Requested s ∨ Admitted id s then registerSucess
          else s.moduleInfo.registerState } := by
  unfold pollUart1
  by_cases hflag : s.uart1Msg.messageFlag = true
  · rw [if_pos hflag]
    by_cases hcode : byteAt s.uart1Msg.data 0 = registerCode
    · have hrequest : ¬ Requested s := fun h => h.2.1 hcode
      simp only [if_pos hcode, hrequest, false_or, if_false, Cmd.andThen_apply, Cmd.modify_apply,
        registrationBranch]
      by_cases hsize : 6 ≤ s.uart1Msg.size
      · have hreplied : Replied s := ⟨hflag, hcode, hsize⟩
        simp only [ge_iff_le, hsize, if_true, hreplied, Admitted, true_and]
        split <;> rfl
      · have hreplied : ¬ Replied s := fun h => hsize h.2.2
        simp only [ge_iff_le, hsize, if_false, hreplied, Admitted, false_and]
        rfl
    · have hreplied : ¬ Replied s := fun h => hcode h.2.1
      have hadmitted : ¬ Admitted id s := fun h => hreplied h.1
      rw [if_neg hcode]
      by_cases haddr : s.moduleInfo.addr = byteAt s.uart1Msg.data 0
      · have hrequest : Requested s := ⟨hflag, hcode, haddr⟩
        simp only [if_pos haddr, hrequest, true_or, if_true]
        rfl
      · have hrequest : ¬ Requested s := fun h => haddr h.2.2
        simp only [if_neg haddr, hrequest, hreplied, hadmitted, or_false, if_false]
        rfl
  · have hrequest : ¬ Requested s := fun h => hflag h.1
    have hreplied : ¬ Replied s := fun h => hflag h.1
    have hadmitted : ¬ Admitted id s := fun h => hreplied h.1
    simp only [if_neg hflag, hrequest, hreplied, hadmitted, or_false, if_false]
    rfl

/-- What a one-second tick does: copy the cell, then count, then raise the event after thirty
silent ticks.
SOURCE: Uart.c:416-538 -/
def Hub.second (h : Hub) : Hub :=
  { h with
    copy := h.event
    started := true
    monitor := if h.monitor < 30 then h.monitor + 1 else h.monitor
    event := if h.monitor < 30 then h.event else .register }

/-- The 1 s branch does to the hub side what `second` does, when its timer is due. -/
theorem hub_tick1s (id : U32) (s : Firmware) :
    hub ((tick1s id).exec s).1 = if (hub s).tick1s then (hub s).second else hub s := by
  have hstart : ∀ t, hub (startRegister id t).1 = { hub t with started := true } := fun t => by
    unfold startRegister
    split
    · rename_i hstarted
      simp only [hub, hstarted]
    · rfl
  have hmonitor : ∀ t, hub (monitorConnect t).1 =
      { hub t with
        monitor := if (hub t).monitor < 30 then (hub t).monitor + 1 else (hub t).monitor
        event := if (hub t).monitor < 30 then (hub t).event else .register } := fun t => by
    unfold monitorConnect
    split
    · rename_i hless
      simp only [hub, hless, if_true]
    · rename_i hless
      simp only [hub, hless, if_false]
      rfl
  rw [tick1s, Stmt.exec_when]
  by_cases htick : s.task.timer1s.touch = true
  · rw [if_pos htick, if_pos (show (hub s).tick1s = true from htick)]
    simp only [Stmt.block_cons, Stmt.block_nil, Stmt.exec_seq, Stmt.exec_act, Cmd.andThen_apply,
      Stmt.exec_skip]
    rw [hub_sendThreeTimes, hmonitor, hstart, hub_lights, hub_dispatchEvent]
    rfl
  · rw [if_neg htick, if_neg (show ¬ (hub s).tick1s = true from htick)]

/-- What the five-second tick does.
SOURCE: Uart.c:541-548 -/
def Hub.fifth (h : Hub) : Hub :=
  { h with event := if h.tick5s ∧ h.registerState ≠ registerSucess then .register else h.event }

/-- The 5 s branch does to the hub side what `fifth` does. -/
theorem hub_tick5s (s : Firmware) : hub (tick5s s).1 = (hub s).fifth := by
  have htest : ((hub s).tick5s = true ∧ (hub s).registerState ≠ registerSucess) ↔
      (s.task.timer5s.touch = true ∧ s.moduleInfo.registerState ≠ registerSucess) := Iff.rfl
  unfold tick5s Hub.fifth
  simp only [htest]
  split <;> rfl

/-- The 10 s branch leaves the hub side alone. -/
theorem hub_tick10s (id : U32) : Cmd.Keeps hub (tick10s id) := keeps_tick10s id

/-- The hub side after the timers and the poll of an iteration. -/
def Hub.polled (id : U32) (s : Firmware) : Hub :=
  { hub s with
    event := if Requested s ∨ Replied s then .clean else s.materEnvent
    monitor := if Requested s then 0 else s.task.connectMonitor
    registerState := if Requested s ∨ Admitted id s then registerSucess
      else s.moduleInfo.registerState
    tick1s := ticks s
    tick5s := (timerTask s.task.timer5s 100).touch
    tick10s := (timerTask s.task.timer10s 200).touch }

/-- The part of an iteration before the ten-second branch. -/
def to10s (id : U32) (pin : U8) (heap : Heap) : FwCmd :=
  Cmd.andThen (beforeSave id pin heap) (Cmd.andThen saveFlash (Cmd.andThen tick100ms
    (Cmd.andThen (tick1s id).exec tick5s)))

/-- An iteration is the part before the ten-second branch and that branch. -/
theorem firmware_to10s (chip : Chip) (pin : U8) (heap : Heap) :
    firmware chip (.iteration pin heap) =
      Cmd.andThen (to10s (readUniqueId chip) pin heap) (tick10s (readUniqueId chip)) := by
  funext s
  simp only [firmware, exec_uartIteration, to10s, afterSave, Stmt.block_cons, Stmt.block_nil,
    Stmt.exec_seq, Stmt.exec_act, Stmt.exec_skip, Cmd.andThen_apply, List.append_assoc,
    List.append_nil]

/-! What the timers and the input pin do before the poll does not change what waits in the slot. -/

/-- Up to the poll the slot stays as it is. -/
theorem slot_atPoll (pin : U8) (s : Firmware) : (atPoll pin s).uart1Msg = s.uart1Msg :=
  congrArg Vital.uart1Msg (vital_atPoll pin s)

/-- Up to the poll the address stays as it is. -/
theorem addr_atPoll (pin : U8) (s : Firmware) :
    (atPoll pin s).moduleInfo.addr = s.moduleInfo.addr :=
  congrArg Vital.addr (vital_atPoll pin s)

/-- Whether a request waits depends on the slot and the address only. -/
theorem requested_congr {s t : Firmware} (hslot : t.uart1Msg = s.uart1Msg)
    (haddr : t.moduleInfo.addr = s.moduleInfo.addr) : Requested t ↔ Requested s := by
  rw [Requested, Requested, hslot, haddr]

/-- A request waits at the poll when it waits before the iteration. -/
theorem requested_atPoll (pin : U8) (s : Firmware) : Requested (atPoll pin s) ↔ Requested s :=
  requested_congr (slot_atPoll pin s) (addr_atPoll pin s)

/-- A registration frame waits at the poll when it waits before the iteration. -/
theorem replied_atPoll (pin : U8) (s : Firmware) : Replied (atPoll pin s) ↔ Replied s := by
  rw [Replied, slot_atPoll]
  rfl

/-- The module's own registration frame waits at the poll when it waits before the iteration. -/
theorem admitted_atPoll (id : U32) (pin : U8) (s : Firmware) :
    Admitted id (atPoll pin s) ↔ Admitted id s := by
  rw [Admitted, replied_atPoll, slot_atPoll]
  rfl

/-- At the tick the hub side is the one after the poll. -/
theorem hub_atTick (id : U32) (pin : U8) (heap : Heap) (s : Firmware) :
    hub (atTick id pin heap s) = Hub.polled id s := by
  have hhub : hub (atPoll pin s) = hub (timers s).1 := hub_checkIo pin (timers s).1
  have hevent : (atPoll pin s).materEnvent = s.materEnvent := congrArg Hub.event hhub
  have hmonitor : (atPoll pin s).task.connectMonitor = s.task.connectMonitor :=
    congrArg Hub.monitor hhub
  have hstate : (atPoll pin s).moduleInfo.registerState = s.moduleInfo.registerState :=
    congrArg Hub.registerState hhub
  rw [atTick, hub_tick100ms, hub_saveFlash]
  simp only [beforeSave, Cmd.andThen_apply]
  rw [hub_uart2Replies, show (checkIo pin (timers s).1).1 = atPoll pin s from rfl, hub_pollUart1,
    hhub]
  simp only [requested_atPoll, replied_atPoll, admitted_atPoll, hevent, hmonitor, hstate]
  rfl

/-- What an iteration has done to the hub side when it comes to the ten-second branch. -/
theorem hub_to10s (id : U32) (pin : U8) (heap : Heap) (s : Firmware) :
    hub (to10s id pin heap s).1 =
      (if ticks s then (Hub.polled id s).second else Hub.polled id s).fifth := by
  simp only [to10s, Cmd.andThen_apply]
  rw [hub_tick5s, hub_tick1s, show (tick100ms (saveFlash (beforeSave id pin heap s).1).1).1 =
    atTick id pin heap s from rfl, hub_atTick]
  rfl

/-! ## Is a registration frame sent when the cell asks for it? -/

/-- The frame `sendRegisterToMaster` sends. -/
def registerFrame (id : U32) (addr : U8) : List U8 :=
  withCrc [registerCode, 0x00, 0x00, 0x00, 0x00, 0x00, 0x06, addr, infraredType,
    (id >>> 24).setWidth 8, (id >>> 16).setWidth 8, (id >>> 8).setWidth 8, id.setWidth 8]

/-- The ten-second branch sends what the task's copy asks for.
SOURCE: Uart.c:551-566 -/
theorem uart1Sent_tick10s (id : U32) (s : Firmware) :
    uart1Sent (tick10s id s).2 =
      if (hub s).tick10s ∧ (hub s).copy = .register then [registerFrame id s.moduleInfo.addr]
      else [] := by
  have htest : ((hub s).tick10s = true ∧ (hub s).copy = .register) ↔
      (s.task.timer10s.touch = true ∧ s.task.masterEvent = .register) := Iff.rfl
  unfold tick10s
  simp only [htest]
  split <;> rfl

/-- The five-second timer fires in this iteration. -/
def fires5s (s : Firmware) : Bool := (timerTask s.task.timer5s 100).touch

/-- The ten-second timer fires in this iteration. -/
def fires10s (s : Firmware) : Bool := (timerTask s.task.timer10s 200).touch

/-- In the ten-second branch a registration frame is sent exactly when the event cell, as it is
then, is `EVENT_REGISTER`. -/
def AsWanted (chip : Chip) (s : Firmware) : Input → Prop
  | .peer _ => True
  | .iteration pin heap => fires10s s = true →
    let t := (to10s (readUniqueId chip) pin heap s).1
    (registerFrame (readUniqueId chip) t.moduleInfo.addr ∈
      uart1Sent (tick10s (readUniqueId chip) t).2 ↔ t.materEnvent = .register)

/-- The cell after the frame that waits in the slot has been handled. -/
def polledEvent (s : Firmware) : MasterEvent :=
  if Requested s ∨ Replied s then .clean else s.materEnvent

/-- The thirty-second monitor raises the event at this tick: it is full, and no request waits. -/
def MonitorFull (s : Firmware) : Prop := ¬ Requested s ∧ ¬ s.task.connectMonitor < 30

/-- The five-second tick raises the event: it fires, and the module is not registered, nor does the
frame that waits register it. -/
def Unregistered5s (id : U32) (s : Firmware) : Prop :=
  fires5s s = true ∧ ¬ Requested s ∧ ¬ Admitted id s ∧ s.moduleInfo.registerState ≠ registerSucess

instance (s : Firmware) : Decidable (MonitorFull s) := inferInstanceAs (Decidable (_ ∧ _))
instance (id : U32) (s : Firmware) : Decidable (Unregistered5s id s) :=
  inferInstanceAs (Decidable (_ ∧ _ ∧ _ ∧ _))

/-- The copy the ten-second branch looks at is up to date. When the one-second tick has just copied
the cell, neither the monitor nor the five-second tick raises an event that was not there; when it
has not, the copy of an earlier tick agrees with the cell as this iteration leaves it. -/
def CopyCurrent (chip : Chip) (s : Firmware) : Input → Prop
  | .peer _ => True
  | .iteration _ _ => fires10s s = true →
    if ticks s then
      MonitorFull s ∨ Unregistered5s (readUniqueId chip) s → polledEvent s = .register
    else
      s.task.masterEvent = .register ↔
        polledEvent s = .register ∨ Unregistered5s (readUniqueId chip) s

/-- After the poll the monitor counts on unless it is full. -/
theorem polled_monitor_lt (id : U32) (s : Firmware) :
    (Hub.polled id s).monitor < 30 ↔ ¬ MonitorFull s := by
  unfold Hub.polled MonitorFull
  by_cases hrequest : Requested s
  · simp only [hrequest, if_true, not_true, false_and, not_false_iff, iff_true]
    decide
  · simp only [hrequest, if_false, not_false_iff, true_and, not_not]

/-- After the poll the five-second branch raises the event in the states `Unregistered5s` names. -/
theorem polled_unregistered (id : U32) (s : Firmware) :
    ((Hub.polled id s).tick5s = true ∧ (Hub.polled id s).registerState ≠ registerSucess) ↔
      Unregistered5s id s := by
  unfold Hub.polled Unregistered5s
  by_cases hdone : Requested s ∨ Admitted id s
  · simp only [hdone, if_true, ne_eq, not_true, and_false, false_iff]
    exact fun h => hdone.elim h.2.1 h.2.2.1
  · obtain ⟨hrequest, hadmitted⟩ := not_or.mp hdone
    simp only [hrequest, hadmitted, or_self, if_false, not_false_iff, true_and]
    rfl

/-- One iteration: the ten-second branch does what the cell asks for exactly when its copy is up to
date. -/
theorem asWanted_iff (chip : Chip) (s : Firmware) (i : Input) :
    AsWanted chip s i ↔ CopyCurrent chip s i := by
  cases i with
  | peer p => exact Iff.rfl
  | iteration pin heap =>
    refine imp_congr_right fun hfires => ?_
    have hhub := hub_to10s (readUniqueId chip) pin heap s
    have hevent := congrArg Hub.event hhub
    have hcopy := congrArg Hub.copy hhub
    have htick := congrArg Hub.tick10s hhub
    generalize (to10s (readUniqueId chip) pin heap s).1 = t at hevent hcopy htick
    have hsent : registerFrame (readUniqueId chip) t.moduleInfo.addr ∈
        uart1Sent (tick10s (readUniqueId chip) t).2 ↔ (hub t).copy = .register := by
      have hnow : (hub t).tick10s = true := by
        rw [htick]
        split <;> exact hfires
      rw [uart1Sent_tick10s]
      by_cases hregister : (hub t).copy = .register
      · simp only [hnow, hregister, and_self, if_true, List.mem_singleton]
      · simp only [hregister, and_false, if_false, List.not_mem_nil]
    have hcell : t.materEnvent = (hub t).event := rfl
    simp only [hsent, hcell, hevent, hcopy]
    cases htick1 : ticks s with
    | true =>
      -- the tick has copied the cell before the two branches that may raise it
      have hunreg := polled_unregistered (readUniqueId chip) s
      have hmonitor := polled_monitor_lt (readUniqueId chip) s
      simp only [if_true, Hub.fifth, Hub.second, hunreg, hmonitor]
      show (polledEvent s = _ ↔ _) ↔ _
      by_cases hraise : Unregistered5s (readUniqueId chip) s
      · simp only [hraise, if_true, or_true, true_implies, iff_true]
      · by_cases hfull : MonitorFull s
        · simp only [hraise, hfull, if_false, not_true, or_false, true_implies, iff_true]
        · simp only [hraise, hfull, if_false, not_false_iff, if_true, or_false, false_implies,
            iff_true]
          rfl
    | false =>
      -- no tick: the copy is the one of an earlier second
      have hunreg := polled_unregistered (readUniqueId chip) s
      simp only [Bool.false_eq_true, if_false, Hub.fifth, hunreg]
      by_cases hraise : Unregistered5s (readUniqueId chip) s
      · simp only [hraise, if_true, or_true, iff_true]
        rfl
      · simp only [hraise, if_false, or_false]
        rfl

/-- **When registration is sent exactly as wanted.** In every run from power-on: every ten-second
branch sends a registration frame exactly when the event cell asks for one, if and only if at
every such branch the task's copy of the cell is up to date.
SOURCE: Uart.c:261-293, 416-420, 512-566 -/
theorem registration_wanted_iff (chip : Chip) (flash : FlashPage) (beyond : Vector U8 10)
    (inputs : List Input) :
    Along (firmware chip) (boot flash beyond) inputs (fun _ => AsWanted chip) ↔
      Along (firmware chip) (boot flash beyond) inputs (fun _ => CopyCurrent chip) := by
  constructor
  · exact fun h before i after hin => (asWanted_iff chip _ i).mp (h before i after hin)
  · exact fun h before i after hin => (asWanted_iff chip _ i).mpr (h before i after hin)

/-- From power-on to the first ten-second tick with nobody on the line, and then a request that the
iteration with the tick answers. -/
def requestAt10s : List Input :=
  List.replicate 200 (.iteration 1 Heap.ample) ++
    [.peer (.uart1Burst [0x01, 0x03, 0x00, 0x00, 0x00, 0x01, 0x84, 0x0A])]

/-- The memory at the ten-second branch of the next iteration. -/
def staleAt10s : Firmware :=
  (to10s (readUniqueId ⟨0, 0, 0⟩) 1 Heap.ample (run (firmware ⟨0, 0, 0⟩)
    (boot (Vector.replicate 12 0xFF) (Vector.replicate 10 0)) requestAt10s)).1

set_option maxRecDepth 20000 in
/-- The hub has just addressed the module, the cell is clear, and the ten-second tick still sends the
registration frame. -/
theorem stale_registration_sent :
    fires10s (run (firmware ⟨0, 0, 0⟩) (boot (Vector.replicate 12 0xFF) (Vector.replicate 10 0))
        requestAt10s) = true ∧
      staleAt10s.materEnvent = .clean ∧
      registerFrame (readUniqueId ⟨0, 0, 0⟩) staleAt10s.moduleInfo.addr ∈
        uart1Sent (tick10s (readUniqueId ⟨0, 0, 0⟩) staleAt10s).2 ∧
      ¬ Along (firmware ⟨0, 0, 0⟩) (boot (Vector.replicate 12 0xFF) (Vector.replicate 10 0))
        (requestAt10s ++ [.iteration 1 Heap.ample]) (fun _ => AsWanted ⟨0, 0, 0⟩) := by
  have hfires : fires10s (run (firmware ⟨0, 0, 0⟩) (boot (Vector.replicate 12 0xFF)
      (Vector.replicate 10 0)) requestAt10s) = true := by decide +kernel
  have hclean : staleAt10s.materEnvent = .clean := by decide +kernel
  have hsent : registerFrame (readUniqueId ⟨0, 0, 0⟩) staleAt10s.moduleInfo.addr ∈
      uart1Sent (tick10s (readUniqueId ⟨0, 0, 0⟩) staleAt10s).2 := by decide +kernel
  refine ⟨hfires, hclean, hsent, fun halong => ?_⟩
  have hstep := (along_concat.mp halong).2
  have hwanted := hstep hfires
  rw [← staleAt10s] at hwanted
  have hregister := hwanted.mp hsent
  rw [hclean] at hregister
  cases hregister

/-! ## The address and the control word after a poll -/

/-- A registration frame with this module's identifier sets the address from its byte 7, a write of
the address register from its byte 5. -/
def polledAddr (id : U32) (s : Firmware) : U8 :=
  if Admitted id s then byteAt s.uart1Msg.data 7
  else if Requested s ∧ IsWrite s.uart1Msg.data s.uart1Msg.size registerAddr then
    byteAt s.uart1Msg.data 5
  else s.moduleInfo.addr

/-- A write of the control register sets the control word. -/
def polledCtrl (s : Firmware) : U16 :=
  if Requested s ∧ IsWrite s.uart1Msg.data s.uart1Msg.size registerCtrl then
    word16 (byteAt s.uart1Msg.data 4) (byteAt s.uart1Msg.data 5)
  else s.moduleInfo.ctrl

/-- The control word after a poll depends on the slot, the address and the word only. -/
theorem polledCtrl_congr {s t : Firmware} (hslot : t.uart1Msg = s.uart1Msg)
    (haddr : t.moduleInfo.addr = s.moduleInfo.addr) (hctrl : t.moduleInfo.ctrl = s.moduleInfo.ctrl) :
    polledCtrl t = polledCtrl s := by
  simp only [polledCtrl, requested_congr hslot haddr, hslot, hctrl]

/-- What the poll does to `module_info`.
SOURCE: Uart.c:260-293 -/
theorem moduleInfo_pollUart1 (id : U32) (heap : Heap) (s : Firmware) :
    ∃ registerState findLocation, (pollUart1 id heap s).1.moduleInfo =
      { s.moduleInfo with
        addr := polledAddr id s
        ctrl := polledCtrl s
        registerState := registerState
        findLocation := findLocation } := by
  unfold pollUart1
  by_cases hflag : s.uart1Msg.messageFlag = true
  · rw [if_pos hflag]
    by_cases hcode : byteAt s.uart1Msg.data 0 = registerCode
    · have hrequest : ¬ Requested s := fun h => h.2.1 hcode
      simp only [if_pos hcode, polledAddr, polledCtrl, hrequest, false_and, if_false,
        Cmd.andThen_apply, Cmd.modify_apply, registrationBranch]
      by_cases hsize : 6 ≤ s.uart1Msg.size
      · have hreplied : Replied s := ⟨hflag, hcode, hsize⟩
        simp only [ge_iff_le, hsize, if_true, Admitted, hreplied, true_and]
        split
        all_goals exact ⟨_, _, rfl⟩
      · have hadmitted : ¬ Admitted id s := fun h => hsize h.1.2.2
        simp only [ge_iff_le, hsize, if_false, hadmitted]
        exact ⟨_, _, rfl⟩
    · have hadmitted : ¬ Admitted id s := fun h => hcode h.1.2.1
      rw [if_neg hcode]
      by_cases haddr : s.moduleInfo.addr = byteAt s.uart1Msg.data 0
      · have hrequest : Requested s := ⟨hflag, hcode, haddr⟩
        obtain ⟨mark, hmarked⟩ := analyzeMasterData_marked heap id s.uart1Msg.data s.uart1Msg.size
          s.moduleInfo
        simp only [if_pos haddr, polledAddr, polledCtrl, hrequest, hadmitted, true_and, if_false,
          Cmd.andThen_apply, Cmd.modify_apply, analyzeBranch, hmarked]
        exact ⟨_, _, rfl⟩
      · have hrequest : ¬ Requested s := fun h => haddr h.2.2
        simp only [if_neg haddr, polledAddr, polledCtrl, hrequest, hadmitted, false_and, if_false]
        exact ⟨_, _, rfl⟩
  · have hrequest : ¬ Requested s := fun h => hflag h.1
    have hadmitted : ¬ Admitted id s := fun h => hflag h.1.1
    simp only [if_neg hflag, polledAddr, polledCtrl, hrequest, hadmitted, false_and, if_false]
    exact ⟨_, _, rfl⟩

/-- The address that the poll of an iteration leaves. -/
theorem addr_polled (id : U32) (pin : U8) (heap : Heap) (s : Firmware) :
    (pollUart1 id heap (atPoll pin s)).1.moduleInfo.addr = polledAddr id s := by
  obtain ⟨_, _, hpoll⟩ := moduleInfo_pollUart1 id heap (atPoll pin s)
  rw [hpoll]
  simp only [polledAddr, admitted_atPoll, requested_atPoll, slot_atPoll, addr_atPoll]

/-- The address after an iteration is the one its poll leaves. -/
theorem addr_iteration (chip : Chip) (pin : U8) (heap : Heap) (s : Firmware) :
    (firmware chip (.iteration pin heap) s).1.moduleInfo.addr = polledAddr (readUniqueId chip) s := by
  rw [firmware_iteration]
  simp only [Cmd.andThen_apply]
  rw [addr_afterPoll]
  exact addr_polled (readUniqueId chip) pin heap s

/-! ## Silence -/

/-- The poll acts on the frame in the slot. -/
def Dispatched (s : Firmware) : Prop :=
  s.uart1Msg.messageFlag = true ∧ Addressed s.moduleInfo.addr s.uart1Msg.data

instance (s : Firmware) : Decidable (Dispatched s) := inferInstanceAs (Decidable (_ ∧ (_ ∨ _)))

/-- A request that waits is acted on. -/
theorem Requested.dispatched {s : Firmware} (h : Requested s) : Dispatched s := ⟨h.1, .inr h.2.2⟩

/-- A registration frame that waits is acted on. -/
theorem Replied.dispatched {s : Firmware} (h : Replied s) : Dispatched s := ⟨h.1, .inl h.2.1⟩

/-- The one-second ticks since the poll last acted on a frame. In an iteration that does both, the
poll comes first. -/
def countSilence (n : ℕ) (s : Firmware) : Input → ℕ
  | .peer _ => n
  | .iteration _ _ => (if Dispatched s then 0 else n) + (if ticks s then 1 else 0)

/-- The one-second ticks of a run since the poll last acted on a frame. -/
def silentTicks (chip : Chip) (s : Firmware) (inputs : List Input) : ℕ :=
  tally (firmware chip) countSilence s 0 inputs

/-- What `n` silent ticks leave behind: the monitor has counted them up to thirty, the next one
raises the event, the one after it copies the event. -/
structure Silent (n : ℕ) (h : Hub) : Prop where
  monitor : n ≤ h.monitor.toNat ∨ 30 ≤ h.monitor.toNat
  event : 31 ≤ n → h.event = .register
  copy : 32 ≤ n → h.copy = .register
  started : 1 ≤ n → h.started = true

/-- No tick has been silent yet. -/
theorem Silent.zero (h : Hub) : Silent 0 h :=
  ⟨.inl (Nat.zero_le _), fun h => by omega, fun h => by omega, fun h => by omega⟩

/-- One more silent tick. -/
theorem Silent.second {n : ℕ} {h : Hub} (hs : Silent n h) : Silent (n + 1) h.second := by
  have hmonitor := hs.monitor
  by_cases hless : h.monitor < 30
  · have hlt : h.monitor.toNat < 30 := hless
    have hnext : (h.monitor + 1).toNat = h.monitor.toNat + 1 := by
      rw [BitVec.toNat_add, show (1 : U8).toNat = 1 from rfl]
      omega
    refine ⟨?_, fun h31 => by omega, fun h32 => hs.event (by omega), fun _ => rfl⟩
    simp only [Hub.second, if_pos hless, hnext]
    omega
  · have hfull : 30 ≤ h.monitor.toNat := not_lt.mp hless
    refine ⟨.inr ?_, fun _ => ?_, fun h32 => hs.event (by omega), fun _ => rfl⟩
    · simp only [Hub.second, if_neg hless]
      exact hfull
    · simp only [Hub.second, if_neg hless]

/-- The five-second branch is not counted. -/
theorem Silent.fifth {n : ℕ} {h : Hub} (hs : Silent n h) : Silent n h.fifth := by
  refine ⟨hs.monitor, fun h31 => ?_, hs.copy, hs.started⟩
  unfold Hub.fifth
  dsimp only
  split
  · rfl
  · exact hs.event h31

/-- A poll that acts on a frame starts the count anew. -/
theorem Silent.polled {n : ℕ} {s : Firmware} (hs : Silent n (hub s)) (id : U32) :
    Silent (if Dispatched s then 0 else n) (Hub.polled id s) := by
  split
  · exact Silent.zero _
  · rename_i hquiet
    have hrequest : ¬ Requested s := fun h => hquiet h.dispatched
    have hreplied : ¬ Replied s := fun h => hquiet h.dispatched
    refine ⟨?_, fun h31 => ?_, hs.copy, hs.started⟩
    · simp only [Hub.polled, if_neg hrequest]
      exact hs.monitor
    · simp only [Hub.polled, hrequest, hreplied, or_self, if_false]
      exact hs.event h31

/-- One iteration keeps the count, up to the ten-second branch and beyond it. -/
theorem Silent.iteration {n : ℕ} {s : Firmware} (hs : Silent n (hub s)) (id : U32) (pin : U8)
    (heap : Heap) :
    Silent ((if Dispatched s then 0 else n) + (if ticks s then 1 else 0))
      (hub (to10s id pin heap s).1) := by
  rw [hub_to10s]
  cases ticks s with
  | true => exact (hs.polled id).second.fifth
  | false => exact (hs.polled id).fifth

/-- The ten-second branch leaves the hub side as the part before it does. -/
theorem hub_firmware (chip : Chip) (pin : U8) (heap : Heap) (s : Firmware) :
    hub (firmware chip (.iteration pin heap) s).1 = hub (to10s (readUniqueId chip) pin heap s).1 := by
  rw [firmware_to10s, Cmd.andThen_apply, hub_tick10s]

/-- The other threads leave the hub side alone. -/
theorem hub_peerStep (p : Peer) : Cmd.Keeps hub (peerStep p) := by
  intro s
  show hub (core (peerStep p s).1) = hub (core s)
  rw [core_peerStep]

/-- After every run from power-on the hub side shows the silent ticks. -/
theorem silent_run (chip : Chip) (flash : FlashPage) (beyond : Vector U8 10) (inputs : List Input) :
    Silent (silentTicks chip (boot flash beyond) inputs)
      (hub (run (firmware chip) (boot flash beyond) inputs)) := by
  refine run_invariant (fun before s => Silent (silentTicks chip (boot flash beyond) before) (hub s))
    (fun _ _ _ => True) (Silent.zero _) ?_ fun _ _ _ _ => trivial
  intro before i h _
  rw [silentTicks, tally_concat]
  cases i with
  | peer p =>
    rw [show firmware chip (.peer p) = peerStep p from rfl, hub_peerStep]
    exact h
  | iteration pin heap =>
    rw [hub_firmware]
    exact h.iteration _ pin heap

/-! ## What goes out on the hub line -/

/-- Observations other than bytes for the hub. -/
def Offline : Obs → Prop
  | .uart1Tx _ => False
  | _ => True

/-- Where nothing goes to the hub, the line to the hub is empty. -/
theorem uart1Sent_eq_nil {out : List Obs} (h : ∀ o ∈ out, Offline o) : uart1Sent out = [] := by
  refine List.filterMap_eq_nil_iff.mpr fun o ho => ?_
  cases o with
  | uart1Tx bytes => exact (h _ ho).elim
  | _ => rfl

/-- The transmissions of two parts are those of the first and those of the second. -/
theorem uart1Sent_append (xs ys : List Obs) : uart1Sent (xs ++ ys) = uart1Sent xs ++ uart1Sent ys :=
  List.filterMap_append

/-- A poll that acts on nothing says nothing. -/
theorem uart1Quiet_pollUart1 {s : Firmware} (hquiet : ¬ Dispatched s) (id : U32) (heap : Heap) :
    (pollUart1 id heap s).2 = [] := by
  unfold pollUart1
  split
  case isFalse => rfl
  case isTrue hflag =>
    have hcode : ¬ byteAt s.uart1Msg.data 0 = registerCode := fun h => hquiet ⟨hflag, .inl h⟩
    have haddr : ¬ s.moduleInfo.addr = byteAt s.uart1Msg.data 0 := fun h => hquiet ⟨hflag, .inr h⟩
    rw [if_neg hcode, if_neg haddr]
    rfl

/-- A task that has started sends no registration frame in its one-second branch. -/
theorem offline_startRegister {s : Firmware} (hstarted : s.task.startFlag = true) (id : U32) :
    (startRegister id s).2 = [] := by
  rw [startRegister, if_pos hstarted]

/-- After the first one, no one-second tick sends the hub anything. -/
theorem offline_tick1s {s : Firmware} (hstarted : s.task.startFlag = true) (id : U32) :
    ∀ o ∈ ((tick1s id).exec s).2, Offline o := by
  rw [tick1s, Stmt.exec_when]
  split
  case isFalse => exact emits_nil
  case isTrue =>
    intro o ho
    simp only [Stmt.block_cons, Stmt.block_nil, Stmt.exec_seq, Stmt.exec_act, Cmd.andThen_apply,
      Stmt.exec_skip, List.append_nil, List.mem_append] at ho
    rcases ho with ho | ho | ho | ho | ho | ho
    · cases ho
    · exact kinds_dispatchEvent (fun _ => trivial) (fun _ => trivial) (fun _ => trivial) _ o ho
    · exact kinds_lights (fun _ _ => trivial) _ o ho
    · rw [offline_startRegister] at ho
      · cases ho
      · show (hub _).started = true
        rw [hub_lights, hub_dispatchEvent]
        exact hstarted
    · exact kinds_monitorConnect _ o ho
    · exact kinds_sendThreeTimes (fun _ => trivial) trivial _ o ho

/-- Without a frame to act on, and with the first registration behind it, an iteration sends the hub
nothing before the ten-second branch. -/
theorem offline_to10s {s : Firmware} (hquiet : ¬ Dispatched s) (hstarted : s.task.startFlag = true)
    (id : U32) (pin : U8) (heap : Heap) : ∀ o ∈ (to10s id pin heap s).2, Offline o := by
  have hpoll : (pollUart1 id heap (atPoll pin s)).2 = [] := by
    refine uart1Quiet_pollUart1 (fun h => hquiet ?_) id heap
    rwa [Dispatched, slot_atPoll, addr_atPoll] at h
  have htick : (atTick id pin heap s).task.startFlag = true := by
    show (hub _).started = true
    rw [hub_atTick]
    exact hstarted
  intro o ho
  simp only [to10s, beforeSave, Cmd.andThen_apply, List.mem_append] at ho
  rcases ho with (ho | ho | ho | ho) | ho | ho | ho | ho
  · cases ho
  · exact kinds_checkIo (fun _ => trivial) pin _ o ho
  · rw [show (checkIo pin (timers s).1).1 = atPoll pin s from rfl, hpoll] at ho
    cases ho
  · exact kinds_uart2Replies (fun _ => trivial) (fun _ _ _ => trivial) (fun _ => trivial) _ o ho
  · exact kinds_saveFlash (fun _ => trivial) _ o ho
  · exact kinds_tick100ms (fun _ _ => trivial) _ o ho
  · exact offline_tick1s htick id o ho
  · exact kinds_tick5s _ o ho

/-- When the poll acts on nothing the address stays. -/
theorem polledAddr_of_quiet {s : Firmware} (hquiet : ¬ Dispatched s) (id : U32) :
    polledAddr id s = s.moduleInfo.addr := by
  have hadmitted : ¬ Admitted id s := fun h => hquiet h.1.dispatched
  have hrequest : ¬ Requested s := fun h => hquiet h.dispatched
  rw [polledAddr, if_neg hadmitted, if_neg fun h => hrequest h.1]

/-- The ten-second branch changes nothing, so what stands before it is what the iteration leaves. -/
theorem addr_to10s (chip : Chip) (pin : U8) (heap : Heap) (s : Firmware) :
    (to10s (readUniqueId chip) pin heap s).1.moduleInfo.addr = polledAddr (readUniqueId chip) s := by
  have hkeeps : Cmd.Keeps (fun t => t.moduleInfo.addr) (tick10s (readUniqueId chip)) := fun t =>
    congrArg Vital.addr ((incidental_tick10s _).keeps t)
  rw [← addr_iteration chip pin heap, firmware_to10s, Cmd.andThen_apply]
  exact (hkeeps _).symm

/-- **A long silence ends in a registration frame.** In every run from power-on, an iteration in
which the ten-second timer fires, at least 32 one-second ticks after the poll last acted on a frame
(or after power-on), sends the hub exactly one thing: the registration frame.
SOURCE: Uart.c:245-293, 414-420, 512-566, main.c:87-106 -/
theorem reconnects (chip : Chip) (flash : FlashPage) (beyond : Vector U8 10) (inputs : List Input)
    (pin : U8) (heap : Heap)
    (hfires : fires10s (run (firmware chip) (boot flash beyond) inputs) = true)
    (hsilent : 32 ≤ silentTicks chip (boot flash beyond) (inputs ++ [.iteration pin heap])) :
    uart1Sent (firmware chip (.iteration pin heap)
        (run (firmware chip) (boot flash beyond) inputs)).2 =
      [registerFrame (readUniqueId chip)
        (run (firmware chip) (boot flash beyond) inputs).moduleInfo.addr] := by
  have hrun := silent_run chip flash beyond inputs
  rw [silentTicks, tally_concat] at hsilent
  change 32 ≤ (if Dispatched _ then 0 else silentTicks chip (boot flash beyond) inputs) + _ at hsilent
  generalize silentTicks chip (boot flash beyond) inputs = n at hrun hsilent
  generalize run (firmware chip) (boot flash beyond) inputs = s at *
  have hquiet : ¬ Dispatched s := by
    intro h
    rw [if_pos h] at hsilent
    split at hsilent <;> omega
  have hnow := hrun.iteration (readUniqueId chip) pin heap
  -- the tick of this iteration counts one second at most
  have hbefore : 1 ≤ n := by
    rw [if_neg hquiet] at hsilent
    split at hsilent <;> omega
  have hoffline := offline_to10s hquiet (hrun.started hbefore) (readUniqueId chip) pin heap
  have htick : (hub (to10s (readUniqueId chip) pin heap s).1).tick10s = true := by
    rw [hub_to10s]
    split <;> exact hfires
  rw [firmware_to10s, Cmd.andThen_apply]
  show uart1Sent (_ ++ _) = _
  rw [uart1Sent_append, uart1Sent_eq_nil hoffline, uart1Sent_tick10s,
    if_pos ⟨htick, hnow.copy hsilent⟩, addr_to10s, polledAddr_of_quiet hquiet]
  rfl

/-- Power-on and 803 iterations with nobody on the line. -/
def idleStart : List Input := List.replicate 803 (.iteration 1 Heap.ample)

set_option maxRecDepth 100000 in
/-- From power-on the fourth ten-second tick is the first one after 32 one-second ticks. -/
theorem reconnects_idle :
    uart1Sent (firmware ⟨0, 0, 0⟩ (.iteration 1 Heap.ample) (run (firmware ⟨0, 0, 0⟩)
        (boot (Vector.replicate 12 0xFF) (Vector.replicate 10 0)) idleStart)).2 =
      [registerFrame (readUniqueId ⟨0, 0, 0⟩) (run (firmware ⟨0, 0, 0⟩)
        (boot (Vector.replicate 12 0xFF) (Vector.replicate 10 0)) idleStart).moduleInfo.addr] :=
  reconnects _ _ _ _ _ _ (by decide +kernel) (by decide +kernel)

/-! ## Does the module stay addressable? -/

/-- The address is not the registration code, and every frame sent to it with a matching check is
handed to `analyzeMasterData` at the next poll, and not taken for a registration frame. -/
def Addressable (s : Firmware) : Prop :=
  s.moduleInfo.addr ≠ registerCode ∧
    ∀ f, 2 ≤ f.length → byteAt f 0 = s.moduleInfo.addr → crcMatches f f.length = true →
      ∀ id heap, .analyze f f.length ∈ (pollUart1 id heap (uart1Input f s).2).2 ∧
        ∀ g n, .registration g n ∉ (pollUart1 id heap (uart1Input f s).2).2

/-- The frame that waits makes the iteration assign the registration code as the address: in byte 7
of a registration frame with this module's identifier, or in the low byte of a value written to the
address register. -/
def AssignsReserved (chip : Chip) (s : Firmware) : Input → Prop
  | .peer _ => False
  | .iteration _ _ =>
    (Admitted (readUniqueId chip) s ∧ byteAt s.uart1Msg.data 7 = registerCode) ∨
      (Requested s ∧ IsWrite s.uart1Msg.data s.uart1Msg.size registerAddr ∧
        byteAt s.uart1Msg.data 5 = registerCode)

instance (chip : Chip) (s : Firmware) (i : Input) : Decidable (AssignsReserved chip s i) :=
  match i with
  | .peer _ => inferInstanceAs (Decidable False)
  | .iteration _ _ => inferInstanceAs (Decidable ((_ ∧ _) ∨ (_ ∧ _ ∧ _)))

/-- The dispatcher tests the registration code first; it matters only to a module that has it as its
address. -/
theorem addressable_of_ne {s : Firmware} (h : s.moduleInfo.addr ≠ registerCode) :
    Addressable s := by
  refine ⟨h, fun f hlen haddr hcrc id heap => ?_⟩
  have haccept : Accepts s.moduleInfo.addr f := ⟨hlen, .inr haddr.symm, hcrc⟩
  have hbyte : byteAt (s.uart1Msg.receive f).data 0 = s.moduleInfo.addr := by
    rw [RxMsg.byteAt_receive _ _ (by omega), haddr]
  rw [uart1Input_eq, if_pos haccept]
  simp only [pollUart1, if_true, hbyte, if_neg h, Cmd.andThen_apply, Cmd.modify_apply, List.append_nil,
    analyzeBranch]
  refine ⟨?_, fun g n hmem => ?_⟩
  · have hframe := RxMsg.frame_receive s.uart1Msg f
    rw [RxMsg.frame] at hframe
    rw [RxMsg.frame, hframe]
    exact List.mem_cons_self
  · rcases List.mem_cons.mp hmem with hhead | hreply
    · cases hhead
    · exact plain_analyzeMasterData _ _ _ _ _ _ hreply

/-- Nobody but the poll writes the address. -/
theorem addr_peerStep (p : Peer) (s : Firmware) :
    (peerStep p s).1.moduleInfo.addr = s.moduleInfo.addr :=
  congrArg (fun t => t.moduleInfo.addr) (show core (peerStep p s).1 = core s from core_peerStep p s)

/-- One step from an address that is not reserved. -/
theorem reserved_step_iff (chip : Chip) {s : Firmware} (h : s.moduleInfo.addr ≠ registerCode)
    (i : Input) :
    (firmware chip i s).1.moduleInfo.addr = registerCode ↔ AssignsReserved chip s i := by
  cases i with
  | peer p =>
    rw [show firmware chip (.peer p) = peerStep p from rfl, addr_peerStep]
    exact iff_of_false h id
  | iteration pin heap =>
    rw [addr_iteration, polledAddr, AssignsReserved]
    by_cases hadmitted : Admitted (readUniqueId chip) s
    · have hrequest : ¬ Requested s := fun hr => hr.2.1 hadmitted.1.2.1
      simp only [hadmitted, if_true, true_and, hrequest, false_and, or_false]
    · simp only [hadmitted, if_false, false_and, false_or]
      by_cases hwrite : Requested s ∧ IsWrite s.uart1Msg.data s.uart1Msg.size registerAddr
      · rw [if_pos hwrite]
        exact ⟨fun hbyte => ⟨hwrite.1, hwrite.2, hbyte⟩, fun hassign => hassign.2.2⟩
      · rw [if_neg hwrite]
        exact iff_of_false h fun hassign => hwrite ⟨hassign.1, hassign.2.1⟩

/-- **When the module stays addressable.** In every run from a power-on with an address other than
the registration code: the module is addressable in every state it passes through, if and only if no
frame that the poll acts on assigns the registration code as the address.
SOURCE: Uart.c:92-96, 261-293, module.c:160-185 -/
theorem addressable_iff (chip : Chip) (flash : FlashPage) (beyond : Vector U8 10)
    (inputs : List Input) (haddr : (boot flash beyond).moduleInfo.addr ≠ registerCode) :
    (∀ before, before <+: inputs → Addressable (run (firmware chip) (boot flash beyond) before)) ↔
      Along (firmware chip) (boot flash beyond) inputs
        (fun _ s i => ¬ AssignsReserved chip s i) := by
  constructor
  · intro h before i after hin hassign
    have hnow := (h before ⟨i :: after, hin.symm⟩).1
    have hnext := (h (before ++ [i]) ⟨after, by rw [hin, List.append_assoc]; rfl⟩).1
    rw [run_append] at hnext
    exact hnext ((reserved_step_iff chip hnow i).mpr hassign)
  · rintro h before ⟨after, rfl⟩
    refine addressable_of_ne (run_invariant (fun _ s => s.moduleInfo.addr ≠ registerCode)
      (fun _ s i => ¬ AssignsReserved chip s i) haddr ?_ h.of_append)
    exact fun _ i hne hassign heq => hassign ((reserved_step_iff chip hne i).mp heq)

/-- A write of 5 to the address register, and the iteration that executes it. -/
def moveAddress : List Input :=
  [.peer (.uart1Burst [0x01, 0x06, 0x00, 0x06, 0x00, 0x05, 0xA9, 0xC8]), .iteration 1 Heap.ample]

/-- The module moves to the address 5 and stays addressable. -/
theorem addressable_moved :
    let s := boot (Vector.replicate 12 0xFF) (Vector.replicate 10 0)
    s.moduleInfo.addr = 1 ∧ (run (firmware ⟨0, 0, 0⟩) s moveAddress).moduleInfo.addr = 5 ∧
      Addressable (run (firmware ⟨0, 0, 0⟩) s moveAddress) := by
  have hkeeps : Along (firmware ⟨0, 0, 0⟩) (boot (Vector.replicate 12 0xFF) (Vector.replicate 10 0)) moveAddress
      fun _ s i => ¬ AssignsReserved ⟨0, 0, 0⟩ s i := by
    decide +kernel
  exact ⟨by decide +kernel, by decide +kernel,
    (addressable_iff ⟨0, 0, 0⟩ _ _ moveAddress (by decide +kernel)).mpr hkeeps moveAddress List.prefix_rfl⟩

/-- A write of 0x00FA to the address register, and the iteration that executes it. -/
def reserveAddress : List Input :=
  [.peer (.uart1Burst [0x01, 0x06, 0x00, 0x06, 0x00, 0xFA, 0xE9, 0x88]), .iteration 1 Heap.ample]

/-- The write is executed; after it a read request sent to the new address, with a matching check, is
taken for a registration frame. -/
theorem reserved_address_assigned :
    let s := boot (Vector.replicate 12 0xFF) (Vector.replicate 10 0)
    let t := run (firmware ⟨0, 0, 0⟩) s reserveAddress
    let f : List U8 := [0xFA, 0x03, 0x00, 0x06, 0x00, 0x01, 0x71, 0x80]
    s.moduleInfo.addr ≠ registerCode ∧ t.moduleInfo.addr = registerCode ∧
      crcMatches f f.length = true ∧
      (pollUart1 (readUniqueId ⟨0, 0, 0⟩) Heap.ample (uart1Input f t).2).2 = [.registration f 8] ∧
      ¬ ∀ before, before <+: reserveAddress → Addressable (run (firmware ⟨0, 0, 0⟩) s before) := by
  refine ⟨by decide +kernel, by decide +kernel, by decide +kernel, by decide +kernel, fun h => ?_⟩
  exact (h reserveAddress List.prefix_rfl).1 (by decide +kernel)

end InfraredModule.Analysis
