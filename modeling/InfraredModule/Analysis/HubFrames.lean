import InfraredModule.Analysis.Frames
import InfraredModule.Analysis.RegisterProtocol

/-!
# From a burst on the hub line to the poll that acts on it

`Uart1_input` overwrites the slot before it looks at the burst, and the poll looks at the slot
up to 50 ms later. Between the two the flag is the only record of what was accepted.
`executed_accepted` gives the condition on the bursts of a run under which the poll acts on
accepted frames only, `selfContained_iff` the frames whose effect is decided by their own bytes,
`foreignRegistration_ignored_iff` the states in which a registration frame for another
module leaves no trace, and `ack_echo_iff` the writes whose acknowledgement is the request itself.
-/

set_option autoImplicit false

namespace InfraredModule.Analysis

open InfraredModule.Foundation InfraredModule.Model InfraredModule.Interface

/-! ## What the poll acts on -/

/-- The frame and size an observation says the poll acted on. -/
def hubFrame : Obs → Option (List U8 × ℕ)
  | .registration frame size => some (frame, size)
  | .analyze frame size => some (frame, size)
  | _ => none

/-- What is plain is no frame to the hub. -/
theorem hubFrame_of_plain {o : Obs} (h : Plain o) : hubFrame o = none := by
  cases o with
  | registration _ _ => exact h.elim
  | analyze _ _ => exact h.elim
  | _ => rfl

/-- The first byte of a slot is one the module listens to. -/
def Addressed (addr : U8) (data : List U8) : Prop :=
  byteAt data 0 = registerCode ∨ addr = byteAt data 0

/-- The poll acts only on a flagged slot whose first byte is addressed, and on the whole of it. -/
theorem hubFrame_pollUart1 {id : U32} {heap : Heap} {s : Firmware} {o : Obs} {f : List U8} {n : ℕ}
    (ho : o ∈ (pollUart1 id heap s).2) (hf : hubFrame o = some (f, n)) :
    s.uart1Msg.messageFlag = true ∧ Addressed s.moduleInfo.addr s.uart1Msg.data ∧
      f = s.uart1Msg.frame ∧ n = s.uart1Msg.size := by
  unfold pollUart1 at ho
  split at ho
  case isFalse => cases ho
  case isTrue hflag =>
    rw [Cmd.andThen_apply, Cmd.modify_apply, List.append_nil] at ho
    split at ho
    case isTrue hreg =>
      rw [List.mem_singleton.mp ho] at hf
      cases hf
      exact ⟨hflag, .inl hreg, rfl, rfl⟩
    split at ho
    case isTrue haddr =>
      rcases List.mem_cons.mp ho with rfl | hreply
      · cases hf
        exact ⟨hflag, .inr haddr, rfl, rfl⟩
      · rw [hubFrame_of_plain (plain_analyzeMasterData _ _ _ _ _ o hreply)] at hf
        cases hf
    case isFalse => cases ho

/-- The registration branch changes the address and no other vital field. -/
theorem vital_registrationBranch (id : U32) (s : Firmware) :
    ∃ addr, vital (registrationBranch id s).1 = { vital s with addr := addr } := by
  unfold registrationBranch
  dsimp only
  repeat' split
  · exact ⟨byteAt s.uart1Msg.data 7, rfl⟩
  · exact ⟨s.moduleInfo.addr, rfl⟩
  · exact ⟨s.moduleInfo.addr, rfl⟩

/-- The branch that answers a request changes the address and no other vital field. -/
theorem vital_analyzeBranch (id : U32) (heap : Heap) (s : Firmware) :
    ∃ addr, vital (analyzeBranch id heap s).1 = { vital s with addr := addr } := by
  have hfixed := fixedFields_analyzeMasterData heap id s.uart1Msg.data s.uart1Msg.size s.moduleInfo
  simp only [fixedFields, Prod.mk.injEq] at hfixed
  obtain ⟨hcrc, htype, hbrand, hselect⟩ := hfixed
  refine ⟨(analyzeMasterData heap id s.uart1Msg.data s.uart1Msg.size s.moduleInfo).2.1.addr, ?_⟩
  simp only [analyzeBranch, vital, hcrc, htype, hbrand, hselect]

/-- The poll takes the flag and may set the address; nothing else vital changes. -/
theorem vital_pollUart1 (id : U32) (heap : Heap) (s : Firmware) :
    ∃ addr, vital (pollUart1 id heap s).1 =
      { vital s with uart1Msg := { s.uart1Msg with messageFlag := false }, addr := addr } := by
  unfold pollUart1
  split
  case isFalse hflag =>
    refine ⟨s.moduleInfo.addr, ?_⟩
    rw [Bool.not_eq_true] at hflag
    rw [← hflag]
    rfl
  case isTrue =>
    have hclear : ∀ c : FwCmd, (∃ addr, vital (c s).1 = { vital s with addr := addr }) →
        ∃ addr, vital (Cmd.andThen c (Cmd.modify fun s =>
          { s with uart1Msg := { s.uart1Msg with messageFlag := false } }) s).1 =
          { vital s with uart1Msg := { s.uart1Msg with messageFlag := false }, addr := addr } := by
      rintro c ⟨addr, hc⟩
      refine ⟨addr, ?_⟩
      exact congrArg (fun v : Vital =>
        { v with uart1Msg := { v.uart1Msg with messageFlag := false } }) hc
    apply hclear
    repeat' split
    · exact vital_registrationBranch id s
    · exact vital_analyzeBranch id heap s
    · exact ⟨s.moduleInfo.addr, rfl⟩

/-! ## Iterations -/

/-- The state in which an iteration polls the slot. -/
def atPoll (pin : U8) (s : Firmware) : Firmware := (checkIo pin (timers s).1).1

/-- Up to the poll an iteration changes the 1 s tick and no other vital field. -/
theorem vital_atPoll (pin : U8) (s : Firmware) :
    vital (atPoll pin s) = { vital s with tick := (timerTask s.task.timer1s 20).touch } := by
  rw [atPoll, (incidental_checkIo pin).keeps, vital_timers]

/-- What an iteration does after the poll. -/
def afterPoll (id : U32) : FwCmd :=
  Cmd.andThen uart2Replies.exec (Cmd.andThen saveFlash (afterSave id).exec)

/-- No part of an iteration after the poll touches the slot or the address. -/
theorem keeps_afterPoll (id : U32) :
    Cmd.Keeps (fun s => (s.uart1Msg, s.moduleInfo.addr)) (afterPoll id) := by
  have hincidental : ∀ c, Incidental c → Cmd.Keeps (fun s => (s.uart1Msg, s.moduleInfo.addr)) c :=
    fun c hc s => congrArg (fun v : Vital => (v.uart1Msg, v.addr)) (hc.keeps s)
  have hsave : Cmd.Keeps (fun s => (s.uart1Msg, s.moduleInfo.addr)) saveFlash :=
    keeps_saveFlash fun _ _ _ => rfl
  refine .andThen (Stmt.keeps_exec ?_) (.andThen hsave (Stmt.keeps_exec ?_))
  · exact all_uart2Replies hincidental (fun _ _ => rfl) (fun _ => rfl) (fun _ => rfl)
      (fun _ _ _ => rfl) fun _ => rfl
  · exact all_afterSave _ hincidental (fun _ => rfl) (fun _ => rfl) (fun _ => rfl) fun _ => rfl

/-- What follows the poll leaves the hub's slot alone. -/
theorem keeps_uart1Msg_afterPoll (id : U32) : Cmd.Keeps Firmware.uart1Msg (afterPoll id) :=
  fun s => congrArg Prod.fst (keeps_afterPoll id s)

/-- What follows the poll leaves the address alone. -/
theorem addr_afterPoll (id : U32) (s : Firmware) :
    (afterPoll id s).1.moduleInfo.addr = s.moduleInfo.addr :=
  congrArg Prod.snd (keeps_afterPoll id s)

/-- What follows the poll sends nothing to the hub. -/
theorem emits_afterPoll (id : U32) : Cmd.Emits (hubFrame · = none) (afterPoll id) := by
  have hplain : ∀ o, Plain o → hubFrame o = none := fun _ h => hubFrame_of_plain h
  exact .andThen (emits_uart2Replies hplain (fun _ => rfl) fun _ _ _ => rfl)
    (.andThen (emits_saveFlash hplain) (emits_afterSave hplain (fun _ => rfl) (fun _ => rfl) id))

/-- An iteration in one go: the timers, the input pin, the poll and what follows it. -/
theorem firmware_iteration (chip : Chip) (pin : U8) (heap : Heap) (s : Firmware) :
    firmware chip (.iteration pin heap) s = Cmd.andThen timers (Cmd.andThen (checkIo pin)
      (Cmd.andThen (pollUart1 (readUniqueId chip) heap) (afterPoll (readUniqueId chip)))) s := by
  simp only [firmware, exec_uartIteration, beforeSave, afterPoll, Cmd.andThen_apply,
    List.append_assoc]

/-- An iteration takes the flag of the slot and leaves its bytes. -/
theorem uart1Msg_iteration (chip : Chip) (pin : U8) (heap : Heap) (s : Firmware) :
    (firmware chip (.iteration pin heap) s).1.uart1Msg = { s.uart1Msg with messageFlag := false } := by
  obtain ⟨addr, hpoll⟩ := vital_pollUart1 (readUniqueId chip) heap (atPoll pin s)
  have hslot : (atPoll pin s).uart1Msg = s.uart1Msg := congrArg Vital.uart1Msg (vital_atPoll pin s)
  rw [firmware_iteration]
  simp only [Cmd.andThen_apply]
  rw [keeps_uart1Msg_afterPoll, ← hslot]
  exact congrArg Vital.uart1Msg hpoll

/-- What an iteration acts on is the slot as it was when the iteration began. -/
theorem hubFrame_iteration {chip : Chip} {pin : U8} {heap : Heap} {s : Firmware} {o : Obs}
    {f : List U8} {n : ℕ} (ho : o ∈ (firmware chip (.iteration pin heap) s).2)
    (hf : hubFrame o = some (f, n)) :
    s.uart1Msg.messageFlag = true ∧ Addressed s.moduleInfo.addr s.uart1Msg.data ∧
      f = s.uart1Msg.frame ∧ n = s.uart1Msg.size := by
  have hslot : (atPoll pin s).uart1Msg = s.uart1Msg := congrArg Vital.uart1Msg (vital_atPoll pin s)
  have haddr : (atPoll pin s).moduleInfo.addr = s.moduleInfo.addr :=
    congrArg Vital.addr (vital_atPoll pin s)
  rw [firmware_iteration] at ho
  simp only [Cmd.andThen_apply, List.mem_append] at ho
  rcases ho with ho | ho | ho | ho
  · cases ho
  · rw [hubFrame_of_plain ((incidental_checkIo pin).emits _ o ho)] at hf
    cases hf
  · have hpoll := hubFrame_pollUart1 (s := atPoll pin s) ho hf
    rwa [hslot, haddr] at hpoll
  · rw [emits_afterPoll _ _ o ho] at hf
    cases hf

/-- The other threads send nothing to the hub. -/
theorem hubFrame_peer (p : Peer) : Cmd.Emits (hubFrame · = none) (peerStep p) :=
  emits_peer (fun _ => hubFrame_of_plain) (fun _ => rfl) p

/-- A peer that does not write the slot leaves it and the address alone. -/
theorem slot_peer {p : Peer} (hp : ∀ bytes, p ≠ .uart1Burst bytes) (s : Firmware) :
    (peerStep p s).1.uart1Msg = s.uart1Msg ∧
      (peerStep p s).1.moduleInfo.addr = s.moduleInfo.addr := by
  rcases peer_cases p with ⟨bytes, rfl⟩ | ⟨bytes, rfl⟩ | hposts
  · exact absurd rfl (hp bytes)
  · exact ⟨congrArg Vital.uart1Msg (vital_uart2Burst bytes s),
      congrArg Vital.addr (vital_uart2Burst bytes s)⟩
  · obtain ⟨_, _, hvital, -⟩ := hposts s
    exact ⟨congrArg Vital.uart1Msg hvital, congrArg Vital.addr hvital⟩

/-! ## Runs: what is executed was accepted -/

section Integrity

variable (chip : Chip) (s₀ : Firmware)

/-- The last burst of a history is `f`, and `Uart1_input` returned `RT_EOK` for it. -/
def LastAccepted (before : List Input) (f : List U8) : Prop :=
  ∃ pre post, before = pre ++ .peer (.uart1Burst f) :: post ∧
    (∀ g, Input.peer (.uart1Burst g) ∉ post) ∧
    (uart1Input f (run (firmware chip) s₀ pre)).1 = .eok

/-- Every frame a step acts on is, with its size, the last burst, which was accepted. -/
def ExecutesAccepted (before : List Input) (s : Firmware) (i : Input) : Prop :=
  ∀ o ∈ (firmware chip i s).2, ∀ f n, hubFrame o = some (f, n) →
    n = f.length ∧ LastAccepted chip s₀ before f

/-- A burst that finds an accepted frame waiting is accepted itself, or leaves a first byte in
the slot that the module does not listen to. -/
def KeepsPending (s : Firmware) (i : Input) : Prop :=
  ∀ bytes, i = .peer (.uart1Burst bytes) → s.uart1Msg.messageFlag = true →
    Accepts s.moduleInfo.addr bytes ∨
      ¬ Addressed s.moduleInfo.addr (s.uart1Msg.receive bytes).data

/-- The invariant: a flagged and addressed slot holds the last burst, which was accepted. -/
def SlotAccepted (before : List Input) (s : Firmware) : Prop :=
  s.uart1Msg.messageFlag = true → Addressed s.moduleInfo.addr s.uart1Msg.data →
    s.uart1Msg.size = s.uart1Msg.frame.length ∧ LastAccepted chip s₀ before s.uart1Msg.frame

variable {chip s₀}

/-- The last accepted frame stays the last one over an input that is no burst from the hub. -/
theorem LastAccepted.step {before : List Input} {f : List U8} (h : LastAccepted chip s₀ before f)
    {i : Input} (hi : ∀ g, i ≠ .peer (.uart1Burst g)) : LastAccepted chip s₀ (before ++ [i]) f := by
  obtain ⟨pre, post, rfl, hlast, hok⟩ := h
  refine ⟨pre, post ++ [i], by rw [List.append_assoc, List.cons_append], ?_, hok⟩
  intro g hg
  rcases List.mem_append.mp hg with hg | hg
  · exact hlast g hg
  · exact hi g (List.mem_singleton.mp hg).symm

/-- One step keeps the invariant, if it meets the condition. -/
theorem SlotAccepted.step {before : List Input} {i : Input}
    (h : SlotAccepted chip s₀ before (run (firmware chip) s₀ before))
    (hi : KeepsPending (run (firmware chip) s₀ before) i) :
    SlotAccepted chip s₀ (before ++ [i]) (firmware chip i (run (firmware chip) s₀ before)).1 := by
  generalize hs : run (firmware chip) s₀ before = s at h hi ⊢
  intro hflag haddressed
  cases i with
  | iteration pin heap =>
    rw [uart1Msg_iteration] at hflag
    cases hflag
  | peer p =>
    by_cases hp : ∃ bytes, p = .uart1Burst bytes
    · obtain ⟨bytes, rfl⟩ := hp
      have hstep : (firmware chip (.peer (.uart1Burst bytes)) s).1 = (uart1Input bytes s).2 := rfl
      rw [hstep] at hflag haddressed ⊢
      have hnew := uart1Input_eq bytes s
      by_cases hok : Accepts s.moduleInfo.addr bytes
      · -- the burst itself is the frame that will be executed
        rw [if_pos hok] at hnew
        rw [hnew]
        have hframe : ({ s.uart1Msg.receive bytes with messageFlag := true } : RxMsg).frame = bytes :=
          RxMsg.frame_receive s.uart1Msg bytes
        refine ⟨congrArg List.length hframe.symm, before, [], ?_, fun _ => List.not_mem_nil, ?_⟩
        · rw [hframe]
        · rw [hs, hframe]
          exact (uart1Input_eok_iff bytes s).mpr hok
      · -- a rejected burst: either nothing was waiting, or the slot is not addressed any more
        rw [if_neg hok] at hnew
        rw [hnew] at hflag haddressed
        exact absurd haddressed ((hi bytes rfl hflag).resolve_left hok)
    · have hother : ∀ bytes, p ≠ .uart1Burst bytes := fun bytes h => hp ⟨bytes, h⟩
      obtain ⟨hslot, haddr⟩ := slot_peer hother s
      have hstep : (firmware chip (.peer p) s).1 = (peerStep p s).1 := rfl
      rw [hstep, hslot] at hflag haddressed ⊢
      rw [haddr] at haddressed
      obtain ⟨hsize, hlast⟩ := h hflag haddressed
      exact ⟨hsize, hlast.step fun g hg => hp ⟨g, Input.peer.inj hg⟩⟩

end Integrity

/-- **Only accepted frames are executed, as long as no rejected burst lands on a waiting one.**
In every run from power-on in which each burst that finds an accepted frame waiting is accepted
itself, or puts a first byte into the slot that the module does not listen to, every frame the
poll acts on is the last burst, byte for byte and with its size, and `Uart1_input` returned
`RT_EOK` for it.
SOURCE: Uart.c:79-110, 261-293 -/
theorem executed_accepted (chip : Chip) (flash : FlashPage) (beyond : Vector U8 10)
    (inputs : List Input)
    (hbursts : Along (firmware chip) (boot flash beyond) inputs fun _ s i => KeepsPending s i) :
    Along (firmware chip) (boot flash beyond) inputs
      (ExecutesAccepted chip (boot flash beyond)) := by
  refine along_of_invariant (SlotAccepted chip (boot flash beyond)) _ _ ?_
    (fun before i h hi => h.step hi) ?_ hbursts
  · intro hflag
    cases hflag
  · intro before i h _ o ho f n hf
    cases i with
    | peer p =>
      rw [hubFrame_peer p _ o ho] at hf
      cases hf
    | iteration pin heap =>
      obtain ⟨hflag, haddressed, rfl, rfl⟩ := hubFrame_iteration ho hf
      exact h hflag haddressed

/-- A read request and the iteration that answers it. -/
theorem executed_accepted_read :
    let s := boot (Vector.replicate 12 0xFF) (Vector.replicate 10 0)
    let request : List U8 := [0x01, 0x03, 0x00, 0x00, 0x00, 0x01, 0x84, 0x0A]
    Along (firmware ⟨0, 0, 0⟩) s [.peer (.uart1Burst request), .iteration 1 Heap.ample]
        (ExecutesAccepted ⟨0, 0, 0⟩ s) ∧
      .analyze request 8 ∈ (firmware ⟨0, 0, 0⟩ (.iteration 1 Heap.ample)
        (run (firmware ⟨0, 0, 0⟩) s [.peer (.uart1Burst request)])).2 := by
  refine ⟨executed_accepted ⟨0, 0, 0⟩ _ _ _ ?_, by decide +kernel⟩
  refine (along_cons _ _ _ _ _).mpr ⟨fun _ _ hflag => ?_,
    (along_cons _ _ _ _ _).mpr ⟨fun _ h => ?_, along_nil _ _ _⟩⟩
  · cases hflag
  · cases h

/-- A read request is accepted and waits; a burst with a wrong check that writes the address
register is rejected, and the poll executes it. -/
theorem rejected_burst_executed :
    let s := boot (Vector.replicate 12 0xFF) (Vector.replicate 10 0)
    let request : Input := .peer (.uart1Burst [0x01, 0x03, 0x00, 0x00, 0x00, 0x01, 0x84, 0x0A])
    let bad : List U8 := [0x01, 0x06, 0x00, 0x06, 0x00, 0x09, 0x00, 0x00]
    (uart1Input bad (run (firmware ⟨0, 0, 0⟩) s [request])).1 = .error ∧
      .analyze bad 8 ∈ (firmware ⟨0, 0, 0⟩ (.iteration 1 Heap.ample)
        (run (firmware ⟨0, 0, 0⟩) s [request, .peer (.uart1Burst bad)])).2 ∧
      ¬ Along (firmware ⟨0, 0, 0⟩) s [request, .peer (.uart1Burst bad), .iteration 1 Heap.ample]
        (ExecutesAccepted ⟨0, 0, 0⟩ s) := by
  intro s request bad
  have hrejected : (uart1Input bad (run (firmware ⟨0, 0, 0⟩) s [request])).1 = .error := by
    decide +kernel
  have hexecuted : .analyze bad 8 ∈ (firmware ⟨0, 0, 0⟩ (.iteration 1 Heap.ample)
      (run (firmware ⟨0, 0, 0⟩) s [request, .peer (.uart1Burst bad)])).2 := by decide +kernel
  refine ⟨hrejected, hexecuted, fun halong => ?_⟩
  obtain ⟨-, pre, post, hsplit, -, hok⟩ :=
    halong [request, .peer (.uart1Burst bad)] _ [] rfl _ hexecuted bad 8 rfl
  rcases pre with _ | ⟨first, _ | ⟨second, pre⟩⟩
  · simp [request, bad] at hsplit
  · rw [← List.head_eq_of_cons_eq hsplit, hrejected] at hok
    cases hok
  · simp at hsplit

/-! ## Two runs: what a frame does is decided by its own bytes -/

/-- What the poll does with a frame, as far as the hub can tell: the module's record, the pending
event, the connection monitor and the bytes sent. -/
def pollEffect (id : U32) (heap : Heap) (s : Firmware) :
    ModuleInfo × MasterEvent × U8 × List (List U8) :=
  let r := pollUart1 id heap s
  (r.1.moduleInfo, r.1.materEnvent, r.1.task.connectMonitor, uart1Sent r.2)

/-- The same state with other bytes left in the slot. -/
def withSlot (s : Firmware) (data : List U8) : Firmware :=
  { s with uart1Msg := { s.uart1Msg with data := data } }

/-- The poll after `f` does the same whatever the slot held before `f` arrived. -/
def SelfContained (id : U32) (s : Firmware) (f : List U8) : Prop :=
  ∀ (heap : Heap) (d₁ d₂ : List U8),
    pollEffect id heap (uart1Input f (withSlot s d₁)).2 =
      pollEffect id heap (uart1Input f (withSlot s d₂)).2

section TwoRuns

variable {id : U32} {heap : Heap} {s : Firmware} {f : List U8}

/-- The slot after an accepted frame: its bytes, then what was left behind them. -/
theorem uart1Input_withSlot (haccept : Accepts s.moduleInfo.addr f) (d : List U8) :
    (uart1Input f (withSlot s d)).2 =
      { s with uart1Msg := ⟨f.length, true, f ++ d.drop f.length⟩ } := by
  have heq := uart1Input_eq f (withSlot s d)
  rw [if_pos (show Accepts (withSlot s d).moduleInfo.addr f from haccept)] at heq
  rw [heq]
  rfl

/-- The effect of a poll on an accepted registration frame, whatever lay in the slot behind it. -/
theorem pollEffect_registration (haccept : Accepts s.moduleInfo.addr f)
    (hcode : byteAt f 0 = registerCode) (d : List U8) :
    pollEffect id heap (uart1Input f (withSlot s d)).2 =
      if 6 ≤ f.length then
        (if frameUuid (f ++ d.drop f.length) = id then
          { s.moduleInfo with
            registerState := registerSucess
            addr := byteAt (f ++ d.drop f.length) 7 }
          else s.moduleInfo, .clean, s.task.connectMonitor, [])
      else (s.moduleInfo, s.materEnvent, s.task.connectMonitor, []) := by
  have hfirst : byteAt (f ++ d.drop f.length) 0 = registerCode := by
    rw [byteAt_append_left (by have := haccept.1; omega), hcode]
  rw [uart1Input_withSlot haccept]
  simp only [pollEffect, pollUart1, hfirst, if_true, registrationBranch, Cmd.andThen_apply,
    Cmd.modify_apply, ge_iff_le]
  split <;> rfl

/-- The effect of a poll on an accepted request, whatever lay in the slot behind it. -/
theorem pollEffect_analyze (haccept : Accepts s.moduleInfo.addr f)
    (hcode : byteAt f 0 ≠ registerCode) (d : List U8) :
    pollEffect id heap (uart1Input f (withSlot s d)).2 =
      let r := analyzeMasterData heap id (f ++ d.drop f.length) f.length s.moduleInfo
      ({ r.2.1 with registerState := registerSucess }, .clean, 0, uart1Sent r.2.2) := by
  have hfirst : byteAt (f ++ d.drop f.length) 0 = byteAt f 0 :=
    byteAt_append_left (by have := haccept.1; omega)
  have haddr : s.moduleInfo.addr = byteAt f 0 := haccept.2.1.resolve_left hcode
  rw [uart1Input_withSlot haccept]
  simp only [pollEffect, pollUart1, hfirst, hcode, haddr, if_true, if_false, analyzeBranch,
    Cmd.andThen_apply, Cmd.modify_apply, List.append_nil]
  rfl

/-- Behind the frame, a slot that was filled with one byte still holds it. -/
theorem byteAt_filled (f : List U8) (b : U8) {i : ℕ} (h : f.length ≤ i) (hi : i < uartMsgSize) :
    byteAt (f ++ (List.replicate uartMsgSize b).drop f.length) i = b := by
  rw [byteAt_append_right h, List.drop_replicate, byteAt, List.getD_replicate _ (by omega)]

/-- Bytes behind the identifier do not change the identifier a frame names. -/
theorem frameUuid_append (hlen : 6 ≤ f.length) (stale : List U8) :
    frameUuid (f ++ stale) = frameUuid f := by
  simp only [frameUuid, byteAt_append_left (show 2 < f.length by omega),
    byteAt_append_left (show 3 < f.length by omega), byteAt_append_left (show 4 < f.length by omega),
    byteAt_append_left (show 5 < f.length by omega)]

/-- A registration frame of 6 or 7 bytes for this module takes its address from behind its end. -/
theorem selfContained_registration_iff (haccept : Accepts s.moduleInfo.addr f)
    (hcode : byteAt f 0 = registerCode) :
    SelfContained id s f ↔ ¬ (6 ≤ f.length ∧ f.length ≤ 7 ∧ frameUuid f = id) := by
  constructor
  · rintro hself ⟨hmin, hmax, huuid⟩
    have heq := hself Heap.ample (List.replicate uartMsgSize 0) (List.replicate uartMsgSize 1)
    rw [pollEffect_registration haccept hcode, pollEffect_registration haccept hcode, if_pos hmin,
      if_pos hmin, frameUuid_append hmin, frameUuid_append hmin, if_pos huuid, if_pos huuid,
      byteAt_filled f 0 (by omega) (by decide), byteAt_filled f 1 (by omega) (by decide)] at heq
    exact absurd (congrArg (fun e => e.1.addr) heq) (by simp)
  · intro hshort heap d₁ d₂
    rw [pollEffect_registration haccept hcode, pollEffect_registration haccept hcode]
    by_cases hmin : 6 ≤ f.length
    · rw [frameUuid_append hmin, frameUuid_append hmin]
      by_cases huuid : frameUuid f = id
      · have h7 : 7 < f.length := by
          by_contra h
          exact hshort ⟨hmin, by omega, huuid⟩
        rw [byteAt_append_left h7, byteAt_append_left h7]
      · simp only [huuid, if_false]
    · simp only [hmin, if_false]

/-- A read request of at most 5 bytes takes its count from behind its end. -/
theorem selfContained_analyze_iff (haccept : Accepts s.moduleInfo.addr f)
    (hcode : byteAt f 0 ≠ registerCode) :
    SelfContained id s f ↔ ¬ (byteAt f 1 = readMuti ∧ f.length ≤ 5) := by
  have hmin := haccept.1
  have hfun : ∀ stale : List U8, byteAt (f ++ stale) 1 = byteAt f 1 := fun stale =>
    byteAt_append_left (by omega)
  constructor
  · rintro hself ⟨hread, hmax⟩
    -- a stale zero means no reply, a stale one a reply of one register
    have heq := hself Heap.ample (List.replicate uartMsgSize 0) (List.replicate uartMsgSize 1)
    rw [pollEffect_analyze haccept hcode, pollEffect_analyze haccept hcode] at heq
    have hsent := congrArg (fun e => e.2.2.2) heq
    dsimp only at hsent
    rw [analyzeMasterData_read ((hfun _).trans hread), analyzeMasterData_read ((hfun _).trans hread),
      uart1Sent_analyzeRead, uart1Sent_analyzeRead, byteAt_filled f 0 (by omega) (by decide),
      byteAt_filled f 1 (by omega) (by decide), if_pos rfl, if_neg (by decide)] at hsent
    cases hsent
  · intro hshort heap d₁ d₂
    rw [pollEffect_analyze haccept hcode, pollEffect_analyze haccept hcode,
      analyzeMasterData_agree ((hfun _).trans (hfun _).symm)]
    rw [hfun]
    intro hargs
    have hlong : 6 ≤ f.length := by
      rcases hargs with hread | ⟨-, hsize⟩
      · by_contra h
        exact hshort ⟨hread, by omega⟩
      · omega
    exact ⟨(byteAt_append_left (by omega)).trans (byteAt_append_left (by omega)).symm,
      (byteAt_append_left (by omega)).trans (byteAt_append_left (by omega)).symm,
      (byteAt_append_left (by omega)).trans (byteAt_append_left (by omega)).symm,
      (byteAt_append_left (by omega)).trans (byteAt_append_left (by omega)).symm⟩

end TwoRuns

/-- **Which frames are self-contained.** For every state and every accepted frame, the poll does
the same whatever earlier bursts left in the slot, exactly when the frame is neither a
registration frame of 6 or 7 bytes for this module nor a read request of at most 5 bytes.
SOURCE: Uart.c:261-293, module.c:55-117 -/
theorem selfContained_iff (id : U32) (s : Firmware) (f : List U8)
    (haccept : (uart1Input f s).1 = .eok) :
    SelfContained id s f ↔
      ¬ (byteAt f 0 = registerCode ∧ 6 ≤ f.length ∧ f.length ≤ 7 ∧ frameUuid f = id) ∧
      ¬ (byteAt f 0 ≠ registerCode ∧ byteAt f 1 = readMuti ∧ f.length ≤ 5) := by
  have haccepts := (uart1Input_eok_iff f s).mp haccept
  by_cases hcode : byteAt f 0 = registerCode
  · rw [selfContained_registration_iff haccepts hcode]
    simp only [hcode, true_and, ne_eq, not_true, false_and, not_false_iff, and_true]
  · rw [selfContained_analyze_iff haccepts hcode]
    simp only [hcode, false_and, not_false_iff, true_and, ne_eq]

/-- An ordinary read request of eight bytes is self-contained. -/
theorem selfContained_read :
    SelfContained 0 (boot (Vector.replicate 12 0xFF) (Vector.replicate 10 0))
      [0x01, 0x03, 0x00, 0x00, 0x00, 0x01, 0x84, 0x0A] :=
  (selfContained_iff 0 _ _ (by decide +kernel)).mpr ⟨by decide, by decide⟩

/-- The accepted frame `01 03 40 21` is answered or not, depending on an earlier burst that was
rejected. -/
theorem stale_count_read :
    let s := boot (Vector.replicate 12 0xFF) (Vector.replicate 10 0)
    let f : List U8 := [0x01, 0x03, 0x40, 0x21]
    let earlier : List U8 := [0x01, 0x00, 0x00, 0x00, 0x00, 0x01, 0x00, 0x00]
    (uart1Input f s).1 = .eok ∧ (uart1Input earlier s).1 = .error ∧
      uart1Sent (pollUart1 0 Heap.ample (uart1Input f s).2).2 = [] ∧
      uart1Sent (pollUart1 0 Heap.ample (uart1Input f (uart1Input earlier s).2).2).2 =
        [[0x01, 0x03, 0x02, 0x00, 0x00, 0xB8, 0x44]] ∧
      ¬ SelfContained 0 s f := by
  intro s f earlier
  have haccept : (uart1Input f s).1 = .eok := by decide +kernel
  refine ⟨haccept, by decide +kernel, by decide +kernel, by decide +kernel, fun hself => ?_⟩
  have heq := hself Heap.ample [] earlier
  exact absurd (congrArg (fun e => e.2.2.2) heq) (by decide +kernel)

/-! ## Registration frames for other modules -/

/-- What processing a frame leaves as it was: the registration state, the address, the connection
monitor and the pending event. -/
def Ignored (s t : Firmware) : Prop :=
  t.moduleInfo.registerState = s.moduleInfo.registerState ∧
    t.moduleInfo.addr = s.moduleInfo.addr ∧
    t.task.connectMonitor = s.task.connectMonitor ∧ t.materEnvent = s.materEnvent

/-- **When a registration frame for another module is ignored.** A frame with the registration code
and a matching check, whose identifier is not this module's, is ignored exactly when it has fewer
than six bytes or no event was pending: the event is cleared outside the test of the identifier.
SOURCE: Uart.c:261-293 -/
theorem foreignRegistration_ignored_iff (id : U32) (heap : Heap) (s : Firmware) (f : List U8)
    (hlen : 2 ≤ f.length) (hcode : byteAt f 0 = registerCode)
    (hcrc : crcMatches f f.length = true) (huuid : 6 ≤ f.length → frameUuid f ≠ id) :
    Ignored s (pollUart1 id heap (uart1Input f s).2).1 ↔
      f.length < 6 ∨ s.materEnvent = .clean := by
  have heffect : pollEffect id heap (uart1Input f (withSlot s s.uart1Msg.data)).2 = _ :=
    pollEffect_registration ⟨hlen, .inl hcode, hcrc⟩ hcode _
  simp only [pollEffect, Prod.ext_iff] at heffect
  obtain ⟨hmodule, hevent, hmonitor, -⟩ := heffect
  rw [Ignored]
  by_cases hmin : 6 ≤ f.length
  · rw [if_pos hmin] at hmodule hevent hmonitor
    rw [frameUuid_append hmin, if_neg (huuid hmin)] at hmodule
    have hprocess : (pollUart1 id heap (uart1Input f s).2).1 =
        (pollUart1 id heap (uart1Input f (withSlot s s.uart1Msg.data)).2).1 := rfl
    rw [hprocess, hmodule, hevent, hmonitor]
    constructor
    · exact fun h => .inr h.2.2.2.symm
    · rintro (hshort | hclean)
      · omega
      · exact ⟨rfl, rfl, rfl, hclean.symm⟩
  · rw [if_neg hmin] at hmodule hevent hmonitor
    refine iff_of_true ?_ (.inl (by omega))
    exact ⟨congrArg ModuleInfo.registerState hmodule, congrArg ModuleInfo.addr hmodule, hmonitor,
      hevent⟩

/-- With nothing pending, another module's registration frame is ignored. -/
theorem foreignRegistration_ignored_clean :
    let s := { boot (Vector.replicate 12 0xFF) (Vector.replicate 10 0) with materEnvent := .clean }
    Ignored s (pollUart1 (readUniqueId ⟨0, 0, 0⟩) Heap.ample (uart1Input
      [0xFA, 0x00, 0x00, 0x00, 0x00, 0x00, 0x06, 0x01, 0xB4, 0x11, 0x22, 0x33, 0x44, 0x3D, 0x2E] s).2).1 :=
  (foreignRegistration_ignored_iff _ _ _ _ (by decide) rfl (by decide +kernel)
    fun _ => by decide +kernel).mpr (.inr rfl)

/-- Another module's registration frame, seen by a module whose own registration is pending, cancels
it. -/
theorem foreign_registration_cancels :
    let s := boot (Vector.replicate 12 0xFF) (Vector.replicate 10 0)
    let f : List U8 :=
      [0xFA, 0x00, 0x00, 0x00, 0x00, 0x00, 0x06, 0x01, 0xB4, 0x11, 0x22, 0x33, 0x44, 0x3D, 0x2E]
    (uart1Input f s).1 = .eok ∧ frameUuid f ≠ readUniqueId ⟨0, 0, 0⟩ ∧ s.materEnvent = .register ∧
      (pollUart1 (readUniqueId ⟨0, 0, 0⟩) Heap.ample (uart1Input f s).2).1.materEnvent = .clean ∧
      ¬ Ignored s (pollUart1 (readUniqueId ⟨0, 0, 0⟩) Heap.ample (uart1Input f s).2).1 := by
  intro s f
  have hcleared : (pollUart1 (readUniqueId ⟨0, 0, 0⟩) Heap.ample (uart1Input f s).2).1.materEnvent =
      .clean := by decide +kernel
  refine ⟨by decide +kernel, by decide +kernel, rfl, hcleared, fun hignored => ?_⟩
  have hkept := hignored.2.2.2
  rw [hcleared] at hkept
  exact absurd hkept (by decide)

/-! ## The acknowledgement of a write -/

/-- Frames of one length with their check bytes are equal when the frames are. -/
theorem withCrc_injective (buf buf' : List U8) (hlen : buf.length = buf'.length) :
    withCrc buf = withCrc buf' ↔ buf = buf' :=
  ⟨fun h => (List.append_inj h hlen).1, fun h => by rw [h]⟩

/-- A frame that passes its check is its body with the check behind it. -/
theorem eq_withCrc_take {f : List U8} {n : ℕ} (hlen : f.length = n + 2)
    (h : crcMatches f f.length = true) : f = withCrc (f.take n) := by
  have hbody : (f.take n).length = n := List.length_take_of_le (by omega)
  have hcrc : usModbusRtuCrc (f.take n) n = usModbusRtuCrc f n := by
    rw [usModbusRtuCrc, usModbusRtuCrc, List.take_take, Nat.min_self]
  obtain ⟨low, high, htail⟩ : ∃ low high, f.drop n = [low, high] :=
    List.length_eq_two.mp (by rw [List.length_drop, hlen]; omega)
  have hsplit : f = f.take n ++ [low, high] := by rw [← htail, List.take_append_drop]
  have hlow : byteAt f n = low := by
    rw [hsplit, byteAt_append_right (by omega), hbody]
    simp [byteAt]
  have hhigh : byteAt f (n + 1) = high := by
    rw [hsplit, byteAt_append_right (by omega), hbody]
    simp [byteAt]
  rw [crcMatches, decide_eq_true_iff, hlen, show n + 2 - 1 = n + 1 by omega,
    show n + 2 - 2 = n by omega, hlow, hhigh] at h
  rw [withCrc, hbody, hcrc, ← h, lowByte_word16, highByte_word16]
  exact hsplit

/-- What a write puts on the line: the address, the register and its value as they are after it.
SOURCE: module.c:85-107, 187-220 -/
theorem uart1Sent_analyzeWrite {heap : Heap} (hvalue : heap.room 2 = true) (hreply : heap.room 7 = true)
    (id : U32) (data : List U8) (m : ModuleInfo) :
    uart1Sent (analyzeWrite heap id data m).2 =
      let reg := requestStart data
      let r := getRegister id reg (setRegister reg (word16 (byteAt data 4) (byteAt data 5)) m)
      [withCrc [r.2.addr, writeSingle, byteAt data 2, byteAt data 3, lowByte r.1, highByte r.1]] := by
  have hreg : word16 (byteAt data 2) (byteAt data 3) = requestStart data := rfl
  have hroom : heap.room ((2 : U8).toNat + 3 + 2) = true := hreply
  have hkind : ¬ writeSingle = readMuti := by decide
  simp only [analyzeWrite, hvalue, if_true, replyDataToMaster, hroom, hkind, if_false,
    uart1Sent_sendMessageToMaster]
  rw [← hreg, highByte_word16, lowByte_word16]
  rfl

/-- The write of a register that can be written, as the hub frames it: eight bytes, addressed to the
module, and for the address a value below 256. -/
def IsRegisterWrite (addr : U8) (f : List U8) : Prop :=
  f.length = 8 ∧ byteAt f 0 = addr ∧ byteAt f 1 = writeSingle ∧
    (requestStart f = registerAddr ∧ (word16 (byteAt f 4) (byteAt f 5)).toNat < 256 ∨
      requestStart f = registerCtrl)

instance (addr : U8) (f : List U8) : Decidable (IsRegisterWrite addr f) :=
  inferInstanceAs (Decidable (_ ∧ _ ∧ _ ∧ _))

/-- A word below 256 has a zero high byte. -/
theorem highByte_eq_zero {x : U16} (h : x.toNat < 256) : highByte x = 0 := by
  apply BitVec.eq_of_toNat_eq
  rw [highByte, BitVec.toNat_setWidth, BitVec.toNat_ushiftRight, Nat.shiftRight_eq_div_pow,
    show x.toNat / 2 ^ 8 = 0 by omega]
  rfl

/-- The address as `getRegister` swaps it. -/
theorem bytes_swapBytes_addr (b : U8) :
    lowByte (swapBytes (b.setWidth 32)) = 0 ∧ highByte (swapBytes (b.setWidth 32)) = b := by
  have hwiden : b.setWidth 32 = (b.setWidth 16).setWidth 32 :=
    BitVec.eq_of_toNat_eq (by have := b.isLt; simp only [BitVec.toNat_setWidth]; omega)
  have hsmall : (b.setWidth 16).toNat < 256 := by
    have := b.isLt
    rw [BitVec.toNat_setWidth]
    omega
  have hback : lowByte (b.setWidth 16) = b :=
    BitVec.eq_of_toNat_eq (by have := b.isLt; simp only [lowByte, BitVec.toNat_setWidth]; omega)
  obtain ⟨hlow, hhigh⟩ := bytes_swapBytes (b.setWidth 16)
  rw [hwiden, hlow, hhigh, highByte_eq_zero hsmall, hback]
  exact ⟨rfl, rfl⟩

/-- The body of the acknowledgement: the request, with the address the module has now. -/
theorem ack_body (id : U32) {f : List U8} {m : ModuleInfo} (h : IsRegisterWrite m.addr f) :
    let reg := requestStart f
    let r := getRegister id reg (setRegister reg (word16 (byteAt f 4) (byteAt f 5)) m)
    [r.2.addr, writeSingle, byteAt f 2, byteAt f 3, lowByte r.1, highByte r.1] =
      [if requestStart f = registerCtrl then byteAt f 0 else byteAt f 5, byteAt f 1, byteAt f 2,
        byteAt f 3, byteAt f 4, byteAt f 5] := by
  obtain ⟨-, haddr, hwrite, ⟨hreg, hsmall⟩ | hreg⟩ := h
  · have hne : ¬ registerAddr = registerCtrl := by decide
    have hread : getRegister id registerAddr
        (setRegister registerAddr (word16 (byteAt f 4) (byteAt f 5)) m) =
        (swapBytes ((lowByte (word16 (byteAt f 4) (byteAt f 5))).setWidth 32),
          { m with addr := lowByte (word16 (byteAt f 4) (byteAt f 5)) }) := rfl
    have hzero : byteAt f 4 = 0 := by
      rw [← highByte_word16 (byteAt f 4) (byteAt f 5)]
      exact highByte_eq_zero hsmall
    obtain ⟨hlow, hhigh⟩ := bytes_swapBytes_addr (byteAt f 5)
    simp only [hreg, hne, if_false, hread, lowByte_word16, hlow, hhigh, hwrite]
    rw [hzero]
  · have hread : getRegister id registerCtrl
        (setRegister registerCtrl (word16 (byteAt f 4) (byteAt f 5)) m) =
        (swapBytes ((word16 (byteAt f 4) (byteAt f 5)).setWidth 32),
          { m with ctrl := word16 (byteAt f 4) (byteAt f 5) }) := rfl
    obtain ⟨hlow, hhigh⟩ := bytes_swapBytes (word16 (byteAt f 4) (byteAt f 5))
    simp only [hreg, if_true, hread, hlow, hhigh, highByte_word16, lowByte_word16, hwrite, haddr]

/-- **The acknowledgement of a write.** For every state and every accepted write of a register that can
be written, with room for the two blocks: the frame sent is the request itself exactly when the
request does not start with the registration code, and writes the control word or the address
the module already has.
SOURCE: module.c:85-107, 119-220, Uart.c:260-293 -/
theorem ack_echo_iff (id : U32) (heap : Heap) (s : Firmware) (f : List U8)
    (haccept : (uart1Input f s).1 = .eok) (hwrite : IsRegisterWrite s.moduleInfo.addr f)
    (hvalue : heap.room 2 = true) (hreply : heap.room 7 = true) :
    uart1Sent (pollUart1 id heap (uart1Input f s).2).2 = [f] ↔
      byteAt f 0 ≠ registerCode ∧
        (requestStart f = registerCtrl ∨ byteAt f 5 = s.moduleInfo.addr) := by
  have haccepts := (uart1Input_eok_iff f s).mp haccept
  have ⟨hlen, haddr, hfunction, _⟩ := hwrite
  have hsent : uart1Sent (pollUart1 id heap (uart1Input f s).2).2 =
      (pollEffect id heap (uart1Input f (withSlot s s.uart1Msg.data)).2).2.2.2 := rfl
  by_cases hcode : byteAt f 0 = registerCode
  · rw [hsent, pollEffect_registration haccepts hcode, if_pos (by omega)]
    simp [hcode]
  · have hagree : ∀ i < 8, byteAt (f ++ s.uart1Msg.data.drop f.length) i = byteAt f i := fun i hi =>
      byteAt_append_left (by omega)
    have hstart : requestStart (f ++ s.uart1Msg.data.drop f.length) = requestStart f := by
      rw [requestStart, hagree 2 (by decide), hagree 3 (by decide), requestStart]
    have hbody : f.take 6 = [byteAt f 0, byteAt f 1, byteAt f 2, byteAt f 3, byteAt f 4, byteAt f 5] := by
      match f, hlen with
      | [_, _, _, _, _, _, _, _], _ => rfl
    have hframe : f = withCrc (f.take 6) := eq_withCrc_take hlen haccepts.2.2
    have hecho : ∀ body : List U8, body.length = 6 → (withCrc body = f ↔
        body = [byteAt f 0, byteAt f 1, byteAt f 2, byteAt f 3, byteAt f 4, byteAt f 5]) := by
      intro body hsix
      have hinjective := withCrc_injective body (f.take 6) (by rw [hsix, hbody]; rfl)
      rwa [← hframe, hbody] at hinjective
    rw [hsent, pollEffect_analyze haccepts hcode]
    simp only
    rw [analyzeMasterData_write ((hagree 1 (by decide)).trans hfunction) hlen,
      uart1Sent_analyzeWrite hvalue hreply]
    simp only [hstart, hagree 2 (by decide), hagree 3 (by decide), hagree 4 (by decide),
      hagree 5 (by decide)]
    rw [ack_body id hwrite, List.singleton_inj, hecho _ rfl]
    by_cases hctrl : requestStart f = registerCtrl
    · simp [hctrl, ← haddr, hcode]
    · simp [hctrl, ← haddr, hcode]

/-- A write of the control word is acknowledged by an echo. -/
theorem ack_echo_ctrl :
    let s := boot (Vector.replicate 12 0xFF) (Vector.replicate 10 0)
    let f : List U8 := [0x01, 0x06, 0x01, 0x00, 0xE0, 0x00, 0xC1, 0xF6]
    (uart1Input f s).1 = .eok ∧ IsRegisterWrite s.moduleInfo.addr f ∧
      uart1Sent (pollUart1 0 Heap.ample (uart1Input f s).2).2 = [f] := by
  intro s f
  have haccept : (uart1Input f s).1 = .eok := by decide +kernel
  have hwrite : IsRegisterWrite s.moduleInfo.addr f := by decide +kernel
  exact ⟨haccept, hwrite, (ack_echo_iff 0 Heap.ample s f haccept hwrite rfl rfl).mpr
    ⟨by decide, .inl (by decide)⟩⟩

/-- The module at address 1 is given address 5; the acknowledgement comes from address 5. -/
theorem ack_from_new_address :
    let s := boot (Vector.replicate 12 0xFF) (Vector.replicate 10 0)
    let f : List U8 := [0x01, 0x06, 0x00, 0x06, 0x00, 0x05, 0xA9, 0xC8]
    (uart1Input f s).1 = .eok ∧ IsRegisterWrite s.moduleInfo.addr f ∧
      uart1Sent (pollUart1 0 Heap.ample (uart1Input f s).2).2 =
        [[0x05, 0x06, 0x00, 0x06, 0x00, 0x05, 0xA8, 0x4C]] ∧
      uart1Sent (pollUart1 0 Heap.ample (uart1Input f s).2).2 ≠ [f] := by
  decide +kernel

end InfraredModule.Analysis
