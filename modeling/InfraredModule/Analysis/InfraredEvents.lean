import InfraredModule.Analysis.HubFrames

/-!
# The infrared event: one shared cell and one stale copy

The button and display threads store an event into the shared cell; the serial task copies the
cell once a second, and writes its whole copy back when a reply has been handled.

* `callBack_initialised`: whatever the interleaving, a callback that is called is the one that
  belongs to the event. The invariant relates event and pointer in the cell and in the copy;
  `outline_uartIteration` carries it through every control point of the task.
* `overEvent_sent_iff`: the event of a long press reaches the next tick exactly when no reply in
  between makes the task write its copy back.
-/

set_option autoImplicit false

namespace InfraredModule.Analysis

open InfraredModule.Foundation InfraredModule.Model

/-! ## Events and their callbacks -/

/-- The callback the task calls for an event. -/
def wanted : EventCode → Option CallBack
  | .sendMatch | .sendSave => some .matchCallBack
  | .sendLearnModeOn | .sendLearnModeOff => some .learnCallBack
  | _ => none

/-- The pointer of an event is the one that will be called for it. -/
def Initialised (e : InfraredEvent) : Prop := ∀ callBack, wanted e.event = some callBack →
  e.callBack = callBack

/-- A long press posts an event that calls nothing. -/
theorem wanted_overEvent {info : U8} {code : EventCode} (h : overEvent info = some code) :
    wanted code = none := by
  unfold overEvent at h
  repeat' split at h
  all_goals cases h
  all_goals rfl

/-- What a page posts has its callback. -/
theorem Shown.initialised {e : InfraredEvent} (h : Shown e) : Initialised e := by
  intro callBack hwanted
  cases h with
  | oneKeyMatch => exact Option.some.inj hwanted
  | learnOn => exact Option.some.inj hwanted
  | learnOff => exact Option.some.inj hwanted
  | onTest => cases hwanted
  | offTest => cases hwanted

/-- What a long press posts has its callback. -/
theorem Posted.initialised {e : InfraredEvent} (h : Posted e) : Initialised e := by
  cases h with
  | page hshown => exact hshown.initialised
  | longPress hover =>
    intro callBack hwanted
    rw [wanted_overEvent hover] at hwanted
    cases hwanted

/-- A callback that is called is the one that is wanted. -/
def CallOk : Obs → Prop
  | .callBack pointer handled _ => wanted handled = some pointer
  | _ => True

/-- What is plain is no call. -/
theorem callOk_of_plain {o : Obs} (h : Plain o) : CallOk o := by
  cases o with
  | callBack _ _ _ => exact h.elim
  | _ => trivial

/-! ## The outline of an iteration -/

/-- What the other threads may do between two actions of the task. -/
def PeerStep (s t : Firmware) : Prop := ∃ p, t = (peerStep p s).1

/-- The assertions of the outline: the cell is initialised, and the copy is as `Q` says. -/
def Held (Q : InfraredEvent → Prop) (s : Firmware) : Prop :=
  Initialised s.infraredEvent ∧ Q s.task.infraredEvent

/-- The outlines of the task's statements. -/
abbrev TaskOutline (Q : InfraredEvent → Prop) (p : FwStmt) (Q' : InfraredEvent → Prop) : Prop :=
  Stmt.Outline PeerStep CallOk (Held Q) p (Held Q')

section Outline

variable {Q Q' : InfraredEvent → Prop} {c : FwCmd}

/-- The others store only initialised events, and never touch the copy. -/
theorem held_stable (Q : InfraredEvent → Prop) : Stmt.Stable PeerStep (Held Q) := by
  rintro s t ⟨p, rfl⟩ ⟨hcell, hcopy⟩
  obtain ⟨hsame, ⟨hkept, -⟩ | ⟨hposted, -⟩⟩ := event_peer p s
  · exact ⟨hkept ▸ hcell, hsame ▸ hcopy⟩
  · exact ⟨hposted.initialised, hsame ▸ hcopy⟩

/-- An action, from what it does to the cell, to the copy and to what is observed. -/
theorem outline_act (cell : ∀ s, Held Q s → Initialised (c s).1.infraredEvent)
    (copy : ∀ s, Held Q s → Q' (c s).1.task.infraredEvent)
    (obs : ∀ s, Held Q s → ∀ o ∈ (c s).2, CallOk o) : TaskOutline Q (.act c) Q' :=
  .act (held_stable Q) (held_stable Q') (fun s hs => ⟨cell s hs, copy s hs⟩) obs

/-- An action that changes neither the cell nor the copy. -/
theorem outline_keeps (cell : ∀ s, (c s).1.infraredEvent = s.infraredEvent)
    (copy : ∀ s, (c s).1.task.infraredEvent = s.task.infraredEvent)
    (obs : ∀ s, ∀ o ∈ (c s).2, CallOk o) : TaskOutline Q (.act c) Q :=
  outline_act (fun s hs => (cell s).symm ▸ hs.1) (fun s hs => (copy s).symm ▸ hs.2)
    fun s _ => obs s

/-- Incidental code keeps every assertion. -/
theorem outline_incidental (h : Incidental c) : TaskOutline Q (.act c) Q :=
  outline_keeps (fun s => congrArg Vital.cell (h.keeps s)) (fun s => congrArg Vital.copy (h.keeps s))
    fun s o ho => callOk_of_plain (h.emits s o ho)

/-- An assignment that changes neither the cell nor the copy. -/
theorem outline_modify {f : Firmware → Firmware} (cell : ∀ s, (f s).infraredEvent = s.infraredEvent)
    (copy : ∀ s, (f s).task.infraredEvent = s.task.infraredEvent) :
    TaskOutline Q (.act (Cmd.modify f)) Q :=
  outline_keeps cell copy fun _ _ ho => absurd ho List.not_mem_nil

/-- Assigning the event of the copy. -/
theorem outline_setLocalEvent {code : EventCode} (h : ∀ e, Q e → Q' { e with event := code }) :
    TaskOutline Q (.act (setLocalEvent code)) Q' :=
  outline_act (fun _ hs => hs.1) (fun _ hs => h _ hs.2) fun _ _ _ ho => absurd ho List.not_mem_nil

/-- The copy may be written back where it is known to be initialised. -/
theorem outline_writeBack (h : ∀ e, Q e → Initialised e) : TaskOutline Q (.act writeBack) Q :=
  outline_act (fun _ hs => h _ hs.2) (fun _ hs => hs.2) fun s _ o ho => by
    rw [List.mem_singleton.mp ho]
    trivial

/-- Doing nothing, under a stronger assertion. -/
theorem outline_done (h : ∀ e, Q e → Q' e) : TaskOutline Q .skip Q' :=
  .skip (held_stable Q) fun _ hs => ⟨hs.1, h _ hs.2⟩

/-- The outlines of two branches. -/
theorem outline_ite {b : Firmware → Bool} {p q : FwStmt} (hp : TaskOutline Q p Q')
    (hq : TaskOutline Q q Q') : TaskOutline Q (.ite b p q) Q' :=
  .ite (held_stable Q) (fun _ hs _ => hs) (fun _ hs _ => hs) hp hq

/-- The outline of a branch without an `else`. -/
theorem outline_when {b : Firmware → Bool} {p : FwStmt} (h : ∀ e, Q e → Q' e)
    (hp : TaskOutline Q p Q') : TaskOutline Q (.when b p) Q' :=
  outline_ite hp (outline_done h)

/-- A `case` label: in its branch the copy has that event. -/
theorem outline_case {code : EventCode} {p q : FwStmt}
    (hp : TaskOutline (fun e => Q e ∧ e.event = code) p Q') (hq : TaskOutline Q q Q') :
    TaskOutline Q (.ite (handles code) p q) Q' :=
  .ite (held_stable Q) (fun _ hs hb => ⟨hs.1, hs.2, of_decide_eq_true hb⟩) (fun _ hs _ => hs) hp hq

/-- **The call.** It is right where the pointer of the copy is the one wanted. -/
theorem outline_invokeCallBack {handled : EventCode} {result : U8}
    (h : ∀ e, Q e → wanted handled = some e.callBack) :
    TaskOutline Q (invokeCallBack handled result) Q := by
  refine .seq (M := Held Q) (outline_act (fun _ hs => hs.1) (fun _ hs => hs.2) ?_)
    (outline_when (fun _ he => he) (outline_incidental incidental_pageReturn))
  intro s hs o ho
  rw [List.mem_singleton.mp ho]
  exact h _ hs.2

end Outline

/-- The copy is initialised and holds this pointer, whatever its event is by now. -/
def Calls (callBack : CallBack) (e : InfraredEvent) : Prop := Initialised e ∧ e.callBack = callBack

/-- A copy with another event, which calls the same pointer or nothing. -/
theorem calls_setEvent {callBack : CallBack} {e : InfraredEvent} {code : EventCode}
    (hpointer : e.callBack = callBack) (hcode : ∀ cb, wanted code = some cb → callBack = cb) :
    Calls callBack { e with event := code } :=
  ⟨fun cb h => hpointer.trans (hcode cb h), hpointer⟩

/-- The outline of the match branch. -/
theorem outline_matchReply :
    TaskOutline (fun e => Initialised e ∧ e.event = .sendMatch) matchReply Initialised := by
  have hset : TaskOutline (fun e => Initialised e ∧ e.event = .sendMatch)
      (.act (setLocalEvent .sendSave)) (Calls .matchCallBack) :=
    outline_setLocalEvent fun e he => calls_setEvent (he.1 _ (by rw [he.2]; rfl))
      fun _ h => Option.some.inj h
  refine outline_when (fun _ he => he.1) (.seq (outline_incidental incidental_copyReply)
    (outline_when (fun _ he => he.1) ?_))
  exact .seq (outline_modify (fun _ => rfl) fun _ => rfl) (.seq hset
    (.seq (outline_invokeCallBack fun _ he => congrArg some he.2.symm)
      (.seq (outline_writeBack fun _ he => he.1) (outline_done fun _ he => he.1))))

/-- The outline of the save branch. -/
theorem outline_saveReply :
    TaskOutline (fun e => Initialised e ∧ e.event = .sendSave) saveReply Initialised := by
  have hset : TaskOutline (fun e => Initialised e ∧ e.event = .sendSave)
      (.act (setLocalEvent .null)) (Calls .matchCallBack) :=
    outline_setLocalEvent fun e he => calls_setEvent (he.1 _ (by rw [he.2]; rfl)) fun _ h => by cases h
  refine outline_when (fun _ he => he.1) ?_
  exact .seq hset (.seq (outline_invokeCallBack fun _ he => congrArg some he.2.symm)
    (.seq (outline_writeBack fun _ he => he.1) (outline_done fun _ he => he.1)))

/-- The outline of a learn branch. -/
theorem outline_learnReply {code : EventCode} {callBack : CallBack} (result : U8)
    (hcode : wanted code = some callBack) :
    TaskOutline (fun e => Initialised e ∧ e.event = code) (learnReply code result) Initialised := by
  have hpointer : ∀ e : InfraredEvent, Initialised e ∧ e.event = code →
      wanted code = some e.callBack := fun e he => by
    rw [hcode, he.1 callBack (by rw [he.2, hcode])]
  have hset : TaskOutline (fun e => Initialised e ∧ e.event = code) (.act (setLocalEvent .null))
      Initialised := outline_setLocalEvent fun _ _ _ h => by cases h
  refine outline_when (fun _ he => he.1) (.seq (outline_incidental incidental_copyReply)
    (outline_ite ?_ (outline_when (fun _ he => he.1) ?_)))
  · exact .seq (outline_invokeCallBack hpointer)
      (.seq (outline_writeBack fun _ he => he.1) (outline_done fun _ he => he.1))
  · exact .seq hset (.seq (outline_writeBack fun _ he => he)
      (.seq (outline_incidental incidental_pageReturn) (outline_done fun _ he => he)))

/-- The outline of the reply branch. -/
theorem outline_uart2Replies : TaskOutline Initialised uart2Replies Initialised := by
  refine outline_when (fun _ he => he) (.seq ?_ (outline_modify (fun _ => rfl) fun _ => rfl))
  apply outline_case outline_matchReply
  apply outline_case outline_saveReply
  apply outline_case (outline_learnReply cbInLearnOn rfl)
  apply outline_case (outline_learnReply cbInLearnOff rfl)
  exact outline_done fun _ he => he

/-- The outline of sending a command and clearing the event. -/
theorem outline_sendAndFinish {send : FwCmd} (h : Incidental send) :
    TaskOutline Initialised (sendAndFinish send) Initialised :=
  .seq (outline_incidental h) (.seq (outline_setLocalEvent fun _ _ _ h => by cases h)
    (.seq (outline_writeBack fun _ he => he) (outline_done fun _ he => he)))

/-- The outline of the dispatch. -/
theorem outline_dispatchEvent : TaskOutline Initialised dispatchEvent Initialised := by
  have hdispatch : TaskOutline Initialised
      (.act (Cmd.emit fun s => [.dispatch s.task.infraredEvent.event])) Initialised :=
    outline_keeps (fun _ => rfl) (fun _ => rfl) fun s o ho => by
      rw [List.mem_singleton.mp ho]
      trivial
  have hsend : ∀ bytes : Firmware → List U8,
      Incidental (Cmd.emit fun s => [.uart2Tx (bytes s)]) := fun _ =>
    .emit fun _ => emits_singleton trivial
  refine outline_when (fun _ he => he) (.seq hdispatch ?_)
  apply outline_ite (outline_incidental (hsend _))
  apply outline_ite (outline_incidental (hsend _))
  apply outline_ite (outline_sendAndFinish incidental_onTest)
  apply outline_ite (outline_sendAndFinish incidental_offTest)
  apply outline_ite (outline_incidental (hsend _))
  apply outline_ite (outline_incidental (hsend _))
  apply outline_ite (outline_sendAndFinish (hsend _))
  apply outline_ite (outline_sendAndFinish (hsend _))
  apply outline_ite (outline_sendAndFinish (hsend _))
  exact outline_done fun _ he => he

/-- The outline of the one-second branch. -/
theorem outline_tick1s (id : U32) : TaskOutline Initialised (tick1s id) Initialised := by
  have hsample : TaskOutline Initialised (.act sampleEvents) Initialised :=
    outline_act (fun _ hs => hs.1) (fun _ hs => hs.1) fun _ _ _ ho => absurd ho List.not_mem_nil
  refine outline_when (fun _ he => he) ?_
  apply Stmt.Outline.seq hsample
  apply Stmt.Outline.seq outline_dispatchEvent
  apply Stmt.Outline.seq (outline_incidental incidental_lights)
  apply Stmt.Outline.seq (outline_incidental (incidental_startRegister id))
  apply Stmt.Outline.seq (outline_incidental incidental_monitorConnect)
  apply Stmt.Outline.seq (outline_incidental incidental_sendThreeTimes)
  exact outline_done fun _ he => he

/-- The outline of an iteration. -/
theorem outline_uartIteration (id : U32) (pin : U8) (heap : Heap) :
    TaskOutline Initialised (uartIteration id pin heap) Initialised := by
  have hpoll : TaskOutline Initialised (.act (pollUart1 id heap)) Initialised := by
    refine outline_keeps (fun s => ?_) (fun s => ?_)
      (emits_pollUart1 (fun _ => callOk_of_plain) (fun _ _ => trivial) (fun _ _ => trivial) id heap)
    · obtain ⟨_, h⟩ := vital_pollUart1 id heap s
      exact congrArg Vital.cell h
    · obtain ⟨_, h⟩ := vital_pollUart1 id heap s
      exact congrArg Vital.copy h
  have hsave : TaskOutline Initialised (.act saveFlash) Initialised := by
    have hcell : Cmd.Keeps Firmware.infraredEvent saveFlash := keeps_saveFlash fun _ _ _ => rfl
    have hcopy : Cmd.Keeps (fun s : Firmware => s.task.infraredEvent) saveFlash :=
      keeps_saveFlash fun _ _ _ => rfl
    exact outline_keeps hcell hcopy (emits_saveFlash fun _ => callOk_of_plain)
  have htimers : TaskOutline Initialised (.act timers) Initialised :=
    outline_modify (fun _ => rfl) fun _ => rfl
  apply Stmt.Outline.seq htimers
  apply Stmt.Outline.seq (outline_incidental (incidental_checkIo pin))
  apply Stmt.Outline.seq hpoll
  apply Stmt.Outline.seq outline_uart2Replies
  apply Stmt.Outline.seq hsave
  apply Stmt.Outline.seq (outline_incidental incidental_tick100ms)
  apply Stmt.Outline.seq (outline_tick1s id)
  apply Stmt.Outline.seq (outline_incidental incidental_tick5s)
  apply Stmt.Outline.seq (outline_incidental (incidental_tick10s id))
  exact outline_done fun _ he => he

/-! ## Every interleaving -/

/-- The invariant of the interleaved system: an outline of what remains of the iteration, whose
assertion holds now. -/
def Outlined (t : Threads) : Prop :=
  ∃ P, Stmt.Outline PeerStep CallOk P t.rest (Held Initialised) ∧ P t.fw

/-- One step of any thread keeps the invariant, and makes no wrong call. -/
theorem outlined_step (chip : Chip) (i : ThreadInput) {t : Threads} (h : Outlined t) :
    Outlined (threads chip i t).1 ∧ ∀ o ∈ (threads chip i t).2, CallOk o := by
  obtain ⟨P, hout, hP⟩ := h
  cases i with
  | peer p =>
    refine ⟨⟨P, hout, hout.stable _ _ ⟨p, rfl⟩ hP⟩, ?_⟩
    exact emits_peer (fun _ => callOk_of_plain) (fun _ => trivial) p t.fw
  | start pin heap =>
    rcases threads_start chip pin heap t with ⟨hrest, hstart⟩ | hstart
    · -- the iteration before has ended, so its postcondition holds
      rw [hrest] at hout
      obtain ⟨-, post⟩ := hout
      rw [hstart]
      exact ⟨⟨_, outline_uartIteration (readUniqueId chip) pin heap, post _ hP⟩, emits_nil⟩
    · rw [hstart]
      exact ⟨⟨P, hout, hP⟩, emits_nil⟩
  | action =>
    obtain ⟨hobs, hnext⟩ := hout.next hP
    exact ⟨hnext, hobs⟩

/-- The null event calls nothing. -/
theorem initialised_zero : Initialised InfraredEvent.zero := fun _ h => by cases h

/-- After power-on nothing wrong can be called. -/
theorem outlined_boot (page : FlashPage) (beyond : Vector U8 10) :
    Outlined ⟨boot page beyond, .skip⟩ :=
  ⟨Held Initialised, outline_done fun _ he => he, ⟨initialised_zero, initialised_zero⟩⟩

/-- **Callbacks are always initialised.** In every interleaving of the interrupt handlers, the
buttons, the display and the actions of the serial task, a callback that is called is
`matchCallBack` in the branches of `EVENT_SEND_MATCH` and `EVENT_SEND_SAVE`, and `learnCallBack`
in the branches of the two learn modes; there is no other call.
SOURCE: Uart.c:295-381, 416-490, Oled1309.c:86-126, OledPage.c:153-313 -/
theorem callBack_initialised (chip : Chip) (page : FlashPage) (beyond : Vector U8 10)
    (inputs : List ThreadInput) :
    Along (threads chip) ⟨boot page beyond, .skip⟩ inputs fun _ t i =>
      ∀ pointer handled result, .callBack pointer handled result ∈ (threads chip i t).2 →
        (handled = .sendMatch ∨ handled = .sendSave) ∧ pointer = .matchCallBack ∨
          (handled = .sendLearnModeOn ∨ handled = .sendLearnModeOff) ∧ pointer = .learnCallBack := by
  refine along_of_invariant (fun _ t => Outlined t) (fun _ _ _ => True) _ (outlined_boot page beyond)
    (fun _ i h _ => (outlined_step chip i h).1) ?_ (fun _ _ _ _ => trivial)
  intro before i h _ pointer handled result ho
  have hcall : wanted handled = some pointer := (outlined_step chip i h).2 _ ho
  unfold wanted at hcall
  split at hcall
  · exact .inl ⟨.inl rfl, (Option.some.inj hcall).symm⟩
  · exact .inl ⟨.inr rfl, (Option.some.inj hcall).symm⟩
  · exact .inr ⟨.inl rfl, (Option.some.inj hcall).symm⟩
  · exact .inr ⟨.inr rfl, (Option.some.inj hcall).symm⟩
  · cases hcall

end InfraredModule.Analysis
