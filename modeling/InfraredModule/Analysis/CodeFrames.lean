import InfraredModule.Analysis.Frames

/-!
# The frames for the code-library chip

Every frame that a sender of `infrared.c` hands to the serial line starts `AA 55`, counts its
bytes, and has exclusive or zero; the control frames carry the brand code and the control word
the call leaves behind, the learned codes the switch of that word. All frames but one are closed
by `withCheck`, so the format is a fact about `withCheck` (`wellFormed_withCheck`); the one with
a literal check byte is checked by itself. The firmware sends through these functions only, so
the format holds of everything it sends (`wellFormed_step`).

The other direction has one decoder, `codeDataRecvResult`. It copies its record from the place of
its parameter and not from the reply, so what it returns is decided by the reply's address and by
what lies behind the parameter (`codeDataRecvResult_eq_iff`).
-/

set_option autoImplicit false

namespace InfraredModule.Analysis

open InfraredModule.Foundation InfraredModule.Model

/-! ## The format -/

/-- The exclusive or of all bytes. -/
def xorBytes (frame : List U8) : U8 := frame.foldl (· ^^^ ·) 0

/-- `AA 55`, the number of bytes after the third, and exclusive or zero. -/
structure WellFormed (frame : List U8) : Prop where
  first : byteAt frame 0 = 0xAA
  second : byteAt frame 1 = 0x55
  count : (byteAt frame 2).toNat + 3 = frame.length
  check : xorBytes frame = 0

/-- The 16-bit accumulator of `checkResult`, cut to a byte, is the exclusive or of the bytes. -/
theorem foldl_xor_setWidth (frame : List U8) (acc : U16) :
    (frame.foldl (fun crc b => crc ^^^ b.setWidth 16) acc).setWidth 8 =
      frame.foldl (· ^^^ ·) (acc.setWidth 8) := by
  induction frame generalizing acc with
  | nil => rfl
  | cons b frame ih =>
    have hbyte : (b.setWidth 16).setWidth 8 = b :=
      BitVec.eq_of_toNat_eq (by have := b.isLt; simp only [BitVec.toNat_setWidth]; omega)
    rw [List.foldl_cons, List.foldl_cons, ih, BitVec.setWidth_xor, hbyte]

/-- `checkResult` over a whole frame is the XOR of its bytes. -/
theorem checkResult_eq_xorBytes (frame : List U8) :
    checkResult frame frame.length = xorBytes frame := by
  have hmask : ∀ x : U16, (x &&& 0xff).setWidth 8 = x.setWidth 8 := fun x => by
    apply BitVec.eq_of_getLsbD_eq
    intro i hi
    have hbit : (0xff : U16).getLsbD i = true := by
      revert hi
      revert i
      decide
    simp only [BitVec.getLsbD_setWidth, BitVec.getLsbD_and, hbit, Bool.and_true]
  rw [checkResult, List.take_length, hmask, foldl_xor_setWidth]
  rfl

/-- The check byte makes the exclusive or zero. -/
theorem xorBytes_withCheck (data : List U8) : xorBytes (withCheck data) = 0 := by
  rw [withCheck, checkResult_eq_xorBytes, xorBytes, List.foldl_append]
  exact BitVec.xor_self

/-- Every frame that is closed by its check byte is well formed if its first three bytes are right. -/
theorem wellFormed_withCheck {data : List U8} (hfirst : byteAt data 0 = 0xAA)
    (hsecond : byteAt data 1 = 0x55) (hcount : (byteAt data 2).toNat + 2 = data.length) (hlen : 3 ≤ data.length) :
    WellFormed (withCheck data) where
  first := (byteAt_append_left (by omega)).trans hfirst
  second := (byteAt_append_left (by omega)).trans hsecond
  count := by
    rw [withCheck, byteAt_append_left (by omega), List.length_append, List.length_singleton, ← hcount]
  check := xorBytes_withCheck data

/-- Such a frame passes the test of `Uart2_input`. -/
theorem WellFormed.accepted {frame : List U8} (h : WellFormed frame) (s : Firmware) :
    (uart2Input frame s).uart2Msg.messageFlag = true := by
  have hlen : 3 ≤ frame.length := by
    have := h.count
    omega
  have haccept : frame.length > 2 ∧ byteAt (s.uart2Msg.receive frame).data 0 = 0xAA ∧
      byteAt (s.uart2Msg.receive frame).data 1 = 0x55 := by
    refine ⟨by omega, ?_, ?_⟩
    · rw [RxMsg.byteAt_receive _ _ (by omega), h.first]
    · rw [RxMsg.byteAt_receive _ _ (by omega), h.second]
  rw [uart2Input, if_pos haccept]

/-- A short code frame is well formed. -/
theorem wellFormed_codeFrame (command b7 : U8) : WellFormed (codeFrame command b7) :=
  wellFormed_withCheck rfl rfl rfl (by simp)

/-- A control frame is well formed. -/
theorem wellFormed_ctrlFrame (brandCode ctrl : U16) : WellFormed (ctrlFrame brandCode ctrl) :=
  wellFormed_withCheck rfl rfl rfl (by simp)

/-! ## The contents -/

/-- A control frame carries the brand code and the control word, a learned code the switch of the
control word. -/
structure Carries (m : ModuleInfo) (frame : List U8) : Prop where
  brandCode : frame.length = 12 → byteAt frame 3 = 0x00 →
    word16 (byteAt frame 5) (byteAt frame 6) = m.brandCode
  ctrl : frame.length = 12 → byteAt frame 3 = 0x00 →
    word16 (byteAt frame 7) (byteAt frame 8) = m.ctrl
  learned : byteAt frame 3 = 0x84 → (byteAt frame 7 = 0 ↔ m.ctrl.getLsbD 15 = true)

/-- The control frame carries the brand code and the control word of the record. -/
theorem carries_ctrlFrame (m : ModuleInfo) : Carries m (ctrlFrame m.brandCode m.ctrl) where
  brandCode _ _ := word16_bytes m.brandCode
  ctrl _ _ := word16_bytes m.ctrl
  learned hcommand := absurd (show (0x00 : U8) = 0x84 from hcommand) (by decide)

/-- A short code frame carries the on bit, when it is a learned command for that bit. -/
theorem carries_codeFrame {m : ModuleInfo} {command b7 : U8}
    (h : command = 0x84 → (b7 = 0 ↔ m.ctrl.getLsbD 15 = true)) : Carries m (codeFrame command b7) where
  brandCode hlen := absurd (show 10 = 12 from hlen) (by decide)
  ctrl hlen := absurd (show 10 = 12 from hlen) (by decide)
  learned := h

/-- A frame with another command carries neither. -/
theorem carries_of_command {frame : List U8} (hctrl : byteAt frame 3 ≠ 0x00)
    (hlearn : byteAt frame 3 ≠ 0x84) (m : ModuleInfo) : Carries m frame where
  brandCode _ hcommand := absurd hcommand hctrl
  ctrl _ hcommand := absurd hcommand hctrl
  learned hcommand := absurd hcommand hlearn

/-! ## The senders -/

/-- The functions of `infrared.c` that write to the code-library chip. -/
inductive Sender where
  | matchData
  | saveCommand
  | ctrlCommand
  | matchOnTest
  | matchOffTest
  | learnOn
  | learnOff
  | inLearnOnMode
  | inLearnOffMode
  | matchOver
  | learnOnOver
  | learnOffOver
  deriving DecidableEq, Repr

/-- The function of a sender. -/
def Sender.cmd : Sender → FwCmd
  | .matchData => sendMatchDataToCodeData
  | .saveCommand => sendSaveCommandToCodeData
  | .ctrlCommand => sendCtrlCommandToCodeData
  | .matchOnTest => sendMatchOnTest
  | .matchOffTest => sendMatchOffTest
  | .learnOn => sendlearnOn
  | .learnOff => sendlearnOff
  | .inLearnOnMode => sendInLearnOnMode
  | .inLearnOffMode => sendInLearnOffMode
  | .matchOver => sendMatchOver
  | .learnOnOver => sendLearnOnOver
  | .learnOffOver => sendLearnOffOver

/-- The byte strings handed to the serial line of the code-library chip. -/
def uart2Sent (out : List Obs) : List (List U8) :=
  out.filterMap fun
    | .uart2Tx bytes => some bytes
    | _ => none

/-- What a call owes the chip: every frame it writes is well formed and carries the state the call
leaves behind. -/
def SendsGood (cmd : FwCmd) (s : Firmware) : Prop :=
  ∀ frame ∈ uart2Sent (cmd s).2, WellFormed frame ∧ Carries (cmd s).1.moduleInfo frame

/-- A function that sends one frame sends well, when the frame is well formed and carries what the record
has afterwards. -/
theorem sendsGood_of_single {cmd : FwCmd} {s : Firmware} {frame : List U8}
    (hsent : uart2Sent (cmd s).2 = [frame]) (hform : WellFormed frame)
    (hcarries : Carries (cmd s).1.moduleInfo frame) : SendsGood cmd s := by
  intro g hg
  rw [hsent, List.mem_singleton] at hg
  rw [hg]
  exact ⟨hform, hcarries⟩

/-- The two test senders send well. -/
theorem sendsGood_sendMatchTest (state : U8) (ctr : U16) (s : Firmware) :
    SendsGood (sendMatchTest state ctr) s :=
  sendsGood_of_single rfl (wellFormed_ctrlFrame s.moduleInfo.brandCode ctr)
    (carries_ctrlFrame (sendMatchTest state ctr s).1.moduleInfo)

/-- The code for on is sent with a control word that says on, and the code for off with one that
says off. -/
theorem sendsGood_sendLearned {b7 : U8} {ctr : U16} (h : b7 = 0 ↔ ctr.getLsbD 15 = true) (state : U8)
    (s : Firmware) : SendsGood (sendLearned b7 state ctr) s :=
  sendsGood_of_single rfl (wellFormed_codeFrame 0x84 b7) (carries_codeFrame fun _ => h)

/-- The frames that start and end matching and learning leave the state alone. -/
theorem sendsGood_codeFrame {command : U8} (h : command ≠ 0x84) (b7 : U8) (s : Firmware) :
    SendsGood (Cmd.emit fun _ => [.uart2Tx (codeFrame command b7)]) s :=
  sendsGood_of_single rfl (wellFormed_codeFrame command b7)
    (carries_codeFrame fun hlearn => absurd hlearn h)

/-- The match sender sends well. -/
theorem sendsGood_sendMatchDataToCodeData (s : Firmware) : SendsGood sendMatchDataToCodeData s :=
  sendsGood_of_single rfl ⟨rfl, rfl, rfl, by decide⟩ (carries_of_command (by decide) (by decide) _)

/-- The save sender sends well. -/
theorem sendsGood_sendSaveCommandToCodeData (s : Firmware) : SendsGood sendSaveCommandToCodeData s := by
  refine sendsGood_of_single rfl (wellFormed_withCheck rfl rfl rfl (by simp)) (carries_of_command ?_ ?_ _)
  · show (0x91 : U8) ≠ 0x00
    decide
  · show (0x91 : U8) ≠ 0x84
    decide

/-- The sender of the learned on command sends well. -/
theorem sendsGood_sendlearnOn (s : Firmware) : SendsGood sendlearnOn s :=
  sendsGood_sendLearned (by decide) yes s

/-- The sender of the learned off command sends well. -/
theorem sendsGood_sendlearnOff (s : Firmware) : SendsGood sendlearnOff s :=
  sendsGood_sendLearned (by decide) no s

/-- A function that only reports its call and then does another sends as well as that one. -/
theorem SendsGood.of_call {c d : FwCmd} {s : Firmware} (h : SendsGood d s)
    (hcall : c s = ((d s).1, .sendCtrl :: (d s).2)) : SendsGood c s := by
  rw [SendsGood, hcall]
  exact h

/-- The command of the hub goes out as a control frame or as one of the two learned codes. -/
theorem sendsGood_sendCtrlCommandToCodeData (s : Firmware) : SendsGood sendCtrlCommandToCodeData s := by
  by_cases hmatch : s.moduleInfo.select = selectMatch
  · have hsent : uart2Sent (sendCtrlCommandToCodeData s).2 =
        [ctrlFrame s.moduleInfo.brandCode s.moduleInfo.ctrl] := by
      simp [sendCtrlCommandToCodeData, hmatch, uart2Sent]
    have hstate : (sendCtrlCommandToCodeData s).1.moduleInfo = s.moduleInfo := by
      simp [sendCtrlCommandToCodeData, hmatch]
    refine sendsGood_of_single hsent (wellFormed_ctrlFrame _ _) ?_
    rw [hstate]
    exact carries_ctrlFrame s.moduleInfo
  · by_cases hlearn : s.moduleInfo.select = selectLearn
    · by_cases hon : s.moduleInfo.ctrl &&& 0x8000 > 0
      · apply (sendsGood_sendlearnOn s).of_call
        dsimp only [sendCtrlCommandToCodeData, Cmd.andThen, Cmd.emit]
        rw [if_neg hmatch, if_pos hlearn, if_pos hon, List.singleton_append]
      · apply (sendsGood_sendlearnOff s).of_call
        dsimp only [sendCtrlCommandToCodeData, Cmd.andThen, Cmd.emit]
        rw [if_neg hmatch, if_pos hlearn, if_neg hon, List.singleton_append]
    · -- In any other mode nothing is sent.
      intro frame hframe
      simp [sendCtrlCommandToCodeData, hmatch, hlearn, uart2Sent] at hframe

/-- No sender touches the brand code. -/
theorem brandCode_sender (c : Sender) (s : Firmware) :
    (c.cmd s).1.moduleInfo.brandCode = s.moduleInfo.brandCode := by
  cases c with
  | ctrlCommand =>
    dsimp only [Sender.cmd, sendCtrlCommandToCodeData, Cmd.andThen, Cmd.emit]
    repeat' split
    all_goals rfl
  | _ => rfl

/-- Every sender sends well in every state. -/
theorem sendsGood_sender (c : Sender) (s : Firmware) : SendsGood c.cmd s := by
  cases c with
  | matchData => exact sendsGood_sendMatchDataToCodeData s
  | saveCommand => exact sendsGood_sendSaveCommandToCodeData s
  | ctrlCommand => exact sendsGood_sendCtrlCommandToCodeData s
  | matchOnTest => exact sendsGood_sendMatchTest yes 0xE000 s
  | matchOffTest => exact sendsGood_sendMatchTest no 0x6000 s
  | learnOn => exact sendsGood_sendlearnOn s
  | learnOff => exact sendsGood_sendlearnOff s
  | inLearnOnMode => exact sendsGood_codeFrame (by decide) 0x00 s
  | inLearnOffMode => exact sendsGood_codeFrame (by decide) 0x01 s
  | matchOver => exact sendsGood_codeFrame (by decide) 0x00 s
  | learnOnOver => exact sendsGood_codeFrame (by decide) 0x00 s
  | learnOffOver => exact sendsGood_codeFrame (by decide) 0x00 s

/-- **The senders.** Every frame a sender writes has the format of the chip, is accepted by
`Uart2_input`, and matches the state after the call; the brand code it finds is the one it leaves.
SOURCE: infrared.c:28-285, main.c:184-195 -/
theorem frames_sent (c : Sender) (s : Firmware) :
    (c.cmd s).1.moduleInfo.brandCode = s.moduleInfo.brandCode ∧
    ∀ frame ∈ uart2Sent (c.cmd s).2,
      WellFormed frame ∧ (∀ t : Firmware, (uart2Input frame t).uart2Msg.messageFlag = true) ∧
      Carries (c.cmd s).1.moduleInfo frame := by
  refine ⟨brandCode_sender c s, fun frame hframe => ?_⟩
  obtain ⟨hform, hcarries⟩ := sendsGood_sender c s frame hframe
  exact ⟨hform, hform.accepted, hcarries⟩

/-- In the mode of learned codes, with a control word that says on. -/
def learning : Firmware :=
  { boot (Vector.replicate 12 0) (Vector.replicate 10 0) with
    moduleInfo := { ModuleInfo.zero with select := selectLearn, brandCode := 40, ctrl := 0x9234 } }

/-- In learn mode the control command goes out as the learned on command, and carries the on bit. -/
theorem frames_sent_learned :
    [0xAA, 0x55, 0x07, 0x84, 0x00, 0x00, 0x00, 0x00, 0x01, 0x7D] ∈
        uart2Sent (Sender.ctrlCommand.cmd learning).2 ∧
      Carries (Sender.ctrlCommand.cmd learning).1.moduleInfo
        [0xAA, 0x55, 0x07, 0x84, 0x00, 0x00, 0x00, 0x00, 0x01, 0x7D] := by
  have hsent : [0xAA, 0x55, 0x07, 0x84, 0x00, 0x00, 0x00, 0x00, 0x01, 0x7D] ∈
      uart2Sent (Sender.ctrlCommand.cmd learning).2 := by
    decide +kernel
  exact ⟨hsent, ((frames_sent .ctrlCommand learning).2 _ hsent).2.2⟩

/-! ## Runs -/

/-- A frame for the chip is well formed. -/
def WellSent (o : Obs) : Prop := ∀ frame, o = .uart2Tx frame → WellFormed frame

/-- What a sender sends is well formed. -/
theorem wellSent_sender (c : Sender) : Cmd.Emits WellSent c.cmd := by
  intro s o ho frame hframe
  have hsent : frame ∈ uart2Sent (c.cmd s).2 := List.mem_filterMap.mpr ⟨o, ho, by rw [hframe]⟩
  obtain ⟨hform, -⟩ := sendsGood_sender c s frame hsent
  exact hform

/-- What the check of the input pin sends is well formed. -/
theorem wellSent_checkIo (pin : U8) : Cmd.Emits WellSent (checkIo pin) := by
  intro s
  unfold checkIo ioCheckProgram ioCommand
  repeat' split
  all_goals first
    | exact emits_nil
    | exact wellSent_sender .matchOnTest _
    | exact wellSent_sender .matchOffTest _
    | exact wellSent_sender .learnOn _
    | exact wellSent_sender .learnOff _

/-- What the on test sends is well formed. -/
theorem wellSent_onTest : Cmd.Emits WellSent onTest := by
  intro s
  unfold onTest
  repeat' split
  · exact wellSent_sender .matchOnTest _
  · exact wellSent_sender .learnOn _
  · exact emits_nil

/-- What the off test sends is well formed. -/
theorem wellSent_offTest : Cmd.Emits WellSent offTest := by
  intro s
  unfold offTest
  split
  · exact wellSent_sender .matchOffTest _
  · exact wellSent_sender .learnOff _

/-- What the threefold send sends is well formed. -/
theorem wellSent_sendThreeTimes : Cmd.Emits WellSent sendThreeTimes := by
  have hsend := wellSent_sender .ctrlCommand
  have hmodify : ∀ f : Firmware → Firmware, Cmd.Emits WellSent (Cmd.modify f) := Cmd.emits_modify
  intro s
  unfold sendThreeTimes
  repeat' split
  · exact ((hmodify _).andThen (hsend.andThen (hmodify _))) s
  · exact ((hmodify _).andThen hsend) s
  · exact emits_nil

/-- The task sends to the chip through the senders only. -/
theorem wellSent_sendEvent : sendEvent.All (Cmd.Emits WellSent) := by
  have hfinish : ∀ c, Cmd.Emits WellSent c → (sendAndFinish c).All (Cmd.Emits WellSent) := fun c hc =>
    ⟨hc, Cmd.emits_modify _, emits_writeBack fun _ => nofun, trivial⟩
  exact ⟨wellSent_sender .matchData, wellSent_sender .saveCommand, hfinish _ wellSent_onTest,
    hfinish _ wellSent_offTest, wellSent_sender .inLearnOnMode, wellSent_sender .inLearnOffMode,
    hfinish _ (wellSent_sender .matchOver), hfinish _ (wellSent_sender .learnOnOver),
    hfinish _ (wellSent_sender .learnOffOver), trivial⟩

/-- What any action of an iteration sends is well formed. -/
theorem wellSent_uartIteration (id : U32) (pin : U8) (heap : Heap) :
    (uartIteration id pin heap).All (Cmd.Emits WellSent) := by
  have hpin : ∀ p level, WellSent (.pin p level) := fun _ _ => nofun
  have huart1 : ∀ bytes, WellSent (.uart1Tx bytes) := fun _ => nofun
  have hpoll : Cmd.Emits WellSent (pollUart1 id heap) :=
    kinds_pollUart1 (fun _ _ => nofun) (fun _ _ => nofun) (kinds_analyzeMasterData hpin huart1) id heap
  have hreplies : uart2Replies.All (Cmd.Emits WellSent) :=
    all_replyActions (Cmd.emits_modify _) (Cmd.emits_modify _) (fun _ => Cmd.emits_modify _)
      (emits_writeBack fun _ => nofun) (fun _ => emits_singleton nofun)
      (fun _ _ => Cmd.emits_emit fun _ => nofun) (Cmd.emits_modify _)
  have htick : (tick1s id).All (Cmd.Emits WellSent) :=
    ⟨⟨Cmd.emits_modify _, ⟨⟨Cmd.emits_emit fun _ => nofun, wellSent_sendEvent⟩, trivial⟩,
      kinds_lights hpin, kinds_startRegister hpin huart1 id, kinds_monitorConnect,
      wellSent_sendThreeTimes, trivial⟩, trivial⟩
  exact ⟨Cmd.emits_modify _, wellSent_checkIo pin, hpoll, hreplies, kinds_saveFlash fun _ => nofun,
    kinds_tick100ms hpin, htick, kinds_tick5s, kinds_tick10s hpin huart1 id, trivial⟩

/-- **Every step**, from every state, puts well-formed frames only on the line of the chip. -/
theorem wellFormed_step (chip : Chip) (i : Input) (s : Firmware) :
    ∀ frame ∈ uart2Sent (firmware chip i s).2, WellFormed frame := by
  have hemits : Cmd.Emits WellSent (firmware chip i) := by
    cases i with
    | peer p => exact kinds_peerStep (fun _ => nofun) (fun _ => nofun) (fun _ => nofun) p
    | iteration pin heap => exact Stmt.emits_exec (wellSent_uartIteration _ pin heap)
  intro frame hframe
  obtain ⟨o, ho, hsent⟩ := List.mem_filterMap.mp hframe
  apply hemits s o ho frame
  cases o with
  | uart2Tx bytes => rw [Option.some_inj.mp hsent]
  | _ => cases hsent

/-! ## The state of a reply -/

/-- The seven bytes a call is given. -/
def replyBytes (c : RecvCall) : List U8 := bytesAt c.memory c.recv 7

/-- `AA 55`, command `40` and the state code, at their places in a reply. -/
def Reports (reply : List U8) (state : U8) : Prop :=
  byteAt reply 0 = 0xAA ∧ byteAt reply 1 = 0x55 ∧ byteAt reply 3 = 0x40 ∧ byteAt reply 5 = state

instance (reply : List U8) (state : U8) : Decidable (Reports reply state) :=
  inferInstanceAs (Decidable (_ ∧ _))

/-- The state code of a reply with a known one, and zero for everything else. -/
def statusOf (reply : List U8) : U8 :=
  if Reports reply codeRecvFail ∨ Reports reply codeRecvSuccess ∨ Reports reply codeRecvTimeout then
    byteAt reply 5
  else 0

/-- The address of the reply, with the second byte behind the parameter, looks like a record that
reports a state: `55 AA · 40 · state`, lowest byte of the address first. -/
def Spells (c : RecvCall) (state : U8) : Prop :=
  c.recv.setWidth 16 = startCode ∧ (c.recv >>> 24).setWidth 8 = (0x40 : U8) ∧
    c.memory (c.place + 5) = state

/-- A status other than zero is what the reply says, and only success and timeout are reported. -/
theorem statusOf_eq_iff (reply : List U8) {state : U8} (h : state ≠ 0) :
    statusOf reply = state ↔
      (state = codeRecvSuccess ∨ state = codeRecvTimeout) ∧ Reports reply state := by
  unfold statusOf
  constructor
  · intro hstatus
    split at hstatus
    · rename_i hknown
      rcases hknown with hfail | hok | hlate
      · exact absurd (hstatus.symm.trans hfail.2.2.2) h
      · have hstate : state = codeRecvSuccess := hstatus.symm.trans hok.2.2.2
        exact ⟨.inl hstate, hstate ▸ hok⟩
      · have hstate : state = codeRecvTimeout := hstatus.symm.trans hlate.2.2.2
        exact ⟨.inr hstate, hstate ▸ hlate⟩
    · exact absurd hstatus.symm h
  · rintro ⟨hstate, hreports⟩
    rw [if_pos]
    · exact hreports.2.2.2
    · rcases hstate with rfl | rfl
      · exact .inr (.inl hreports)
      · exact .inr (.inr hreports)

/-- The two low bytes of a word make its low half. -/
theorem word16_lowBytes (v : U32) : word16 ((v >>> 8).setWidth 8) (v.setWidth 8) = v.setWidth 16 := by
  apply BitVec.eq_of_getLsbD_eq
  intro i hi
  by_cases hlow : i < 8
  · simp [word16, hi, hlow]
  · simp [word16, hi, hlow, show i - 8 < 8 by omega, show 8 + (i - 8) = i by omega]

/-- The record the decoder fills: the address of the reply, and the three bytes behind it. -/
theorem record_at_place (c : RecvCall) : CodeDataRecv.ofBytes (bytesAt c.memory c.place 7) =
    ⟨c.recv.setWidth 16, c.memory (c.place + 2), (c.recv >>> 24).setWidth 8,
      c.memory (c.place + 4), c.memory (c.place + 5), c.memory (c.place + 6)⟩ := by
  have hstored := c.stored
  simp only [bytesAt, wordBytes, List.range_succ, List.range_zero, List.nil_append,
    List.cons_append, List.map_cons, List.map_nil, List.cons.injEq, and_true] at hstored
  obtain ⟨h0, h1, -, h3⟩ := hstored
  have hlow : c.memory c.place = c.recv.setWidth 8 := by simpa using h0
  have hnext : c.memory (c.place + 1) = (c.recv >>> 8).setWidth 8 := h1
  have htop : c.memory (c.place + 3) = (c.recv >>> 24).setWidth 8 := h3
  rw [← word16_lowBytes, ← hlow, ← hnext, ← htop]
  simp [CodeDataRecv.ofBytes, bytesAt, byteAt, List.range_succ]

/-- The innermost tests return a known state code, and zero for the others. -/
theorem knownState_eq_iff {stateCode state : U8} (h : state ≠ 0) :
    (if stateCode = codeRecvFail then codeRecvFail
      else if stateCode = codeRecvSuccess then codeRecvSuccess
      else if stateCode = codeRecvTimeout then codeRecvTimeout
      else 0) = state ↔
      (state = codeRecvSuccess ∨ state = codeRecvTimeout) ∧ stateCode = state := by
  constructor
  · intro hstate
    split at hstate
    case isTrue => exact absurd hstate.symm h
    split at hstate
    case isTrue hok => exact ⟨.inl hstate.symm, hok.trans hstate⟩
    split at hstate
    case isTrue hlate => exact ⟨.inr hstate.symm, hlate.trans hstate⟩
    case isFalse => exact absurd hstate.symm h
  · rintro ⟨rfl | rfl, rfl⟩
    · rfl
    · rfl

/-- What the decoder returns, in terms of the address and the stack. -/
theorem codeDataRecvResult_eq_state_iff (c : RecvCall) {state : U8} (h : state ≠ 0) :
    codeDataRecvResult c = state ↔
      (state = codeRecvSuccess ∨ state = codeRecvTimeout) ∧ Spells c state := by
  simp only [codeDataRecvResult, record_at_place, Spells]
  by_cases hstart : c.recv.setWidth 16 = startCode
  · by_cases hcommand : (c.recv >>> 24).setWidth 8 = (0x40 : U8)
    · rw [if_pos hstart.symm, if_pos hcommand.symm, knownState_eq_iff h]
      simp only [hstart, hcommand, true_and]
    · rw [if_pos hstart.symm, if_neg (fun hc => hcommand hc.symm)]
      simp only [hcommand, false_and, and_false, iff_false]
      exact h.symm
  · rw [if_neg (fun hs => hstart hs.symm)]
    simp only [hstart, false_and, and_false, iff_false]
    exact h.symm

/-- Two values that agree on every nonzero value are equal. -/
theorem eq_iff_forall_ne_zero (a b : U8) : a = b ↔ ∀ state : U8, state ≠ 0 → (a = state ↔ b = state) := by
  constructor
  · rintro rfl state _
    rfl
  · intro h
    by_cases ha : a = 0
    · by_cases hb : b = 0
      · rw [ha, hb]
      · exact (h b hb).mpr rfl
    · exact ((h a ha).mp rfl).symm

/-- **The state of a reply.** Whatever the seven bytes, their address and the rest of the memory,
the decoder returns the state code of the reply exactly if, for success and for time-out alike, the
reply reports it just when the address and the stack spell it.
SOURCE: infrared.c:287-320, Uart.h:24-55, Uart.c:298-334 -/
theorem codeDataRecvResult_eq_iff (c : RecvCall) :
    codeDataRecvResult c = statusOf (replyBytes c) ↔
      (Reports (replyBytes c) codeRecvSuccess ↔ Spells c codeRecvSuccess) ∧
        (Reports (replyBytes c) codeRecvTimeout ↔ Spells c codeRecvTimeout) := by
  rw [eq_iff_forall_ne_zero]
  constructor
  · intro h
    have hsame : ∀ state : U8, state ≠ 0 → state = codeRecvSuccess ∨ state = codeRecvTimeout →
        (Reports (replyBytes c) state ↔ Spells c state) := by
      intro state hne hknown
      have := h state hne
      rw [codeDataRecvResult_eq_state_iff c hne, statusOf_eq_iff _ hne] at this
      simpa [hknown, iff_comm] using this
    exact ⟨hsame _ (by decide) (.inl rfl), hsame _ (by decide) (.inr rfl)⟩
  · rintro ⟨hok, hlate⟩ state hne
    rw [codeDataRecvResult_eq_state_iff c hne, statusOf_eq_iff _ hne]
    refine and_congr_right fun hknown => ?_
    rcases hknown with rfl | rfl
    · exact hok.symm
    · exact hlate.symm

/-- No memory of the device has an address that starts `40`, so there the decoder returns zero on
every reply: it is right about those that report neither success nor a time-out, and about no other. -/
theorem codeDataRecvResult_of_address {c : RecvCall} (h : (c.recv >>> 24).setWidth 8 ≠ (0x40 : U8)) :
    codeDataRecvResult c = 0 := by
  by_contra hne
  exact h ((codeDataRecvResult_eq_state_iff c hne).mp rfl).2.2.1

/-- The success reply `AA 55 04 40 00 01 BA` at `0x20000100`, the parameter that points to it at
`0x20000F00`, and zeros everywhere else. -/
def successMemory (addr : U32) : U8 :=
  if addr = 0x20000100 then 0xAA else if addr = 0x20000101 then 0x55
  else if addr = 0x20000102 then 0x04 else if addr = 0x20000103 then 0x40
  else if addr = 0x20000105 then 0x01 else if addr = 0x20000106 then 0xBA
  else if addr = 0x20000F01 then 0x01 else if addr = 0x20000F03 then 0x20 else 0

/-- The address of the parameter holds the address of the reply. -/
theorem successMemory_stored : bytesAt successMemory 0x20000F00 4 = wordBytes 0x20000100 := by
  decide

/-- A call with a reply of success in memory. -/
def successCall : RecvCall := ⟨successMemory, 0x20000100, 0x20000F00, successMemory_stored⟩

/-- The reply reports success, and the decoder returns zero. -/
theorem codeDataRecvResult_successCall :
    replyBytes successCall = [0xAA, 0x55, 0x04, 0x40, 0x00, 0x01, 0xBA] ∧
      statusOf (replyBytes successCall) = codeRecvSuccess ∧
      codeDataRecvResult successCall ≠ statusOf (replyBytes successCall) := by
  have hbytes : replyBytes successCall = [0xAA, 0x55, 0x04, 0x40, 0x00, 0x01, 0xBA] := by decide
  have hstatus : statusOf (replyBytes successCall) = codeRecvSuccess := by decide
  refine ⟨hbytes, hstatus, ?_⟩
  rw [hstatus, codeDataRecvResult_of_address (c := successCall) (by decide)]
  decide

end InfraredModule.Analysis
