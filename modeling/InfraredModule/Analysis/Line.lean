import InfraredModule.Model.Line
import InfraredModule.Analysis.Registration
import Mathlib.Data.Fintype.Defs

/-!
# Modules that share a line

What a module sends begins with a byte that decides who listens: the registration code, or its own
address. A registration frame carries zeros where the others look for an identifier, so it moves
nobody's address. So only the hub moves addresses, and a hub that hands out no address twice
(`Orderly`) keeps the modules apart: once the addresses of two modules differ, and those that wait in
their slots, they differ for good; and a request is executed by no module but the only one that has
its address, and only as the hub sent it.
-/

set_option autoImplicit false

namespace InfraredModule.Analysis

open InfraredModule.Foundation InfraredModule.Model InfraredModule.Interface

/-! ## What a module sends -/

/-- Of what goes to the hub, only registration frames of this module. -/
def OwnRegistration (id : U32) : Obs → Prop
  | .uart1Tx bytes => ∃ addr, bytes = registerFrame id addr
  | _ => True

/-- `sendRegisterToMaster` sends a registration frame of this module. -/
theorem ownRegistration_send (id : U32) (m : ModuleInfo) :
    ∀ o ∈ sendRegisterToMaster id m, OwnRegistration id o := by
  intro o ho
  rcases List.mem_cons.mp ho with rfl | ho
  · trivial
  · rcases List.mem_cons.mp ho with rfl | ho
    · exact ⟨m.addr, rfl⟩
    · obtain rfl := List.mem_singleton.mp ho
      trivial

/-- At its start the task sends registration frames of this module only. -/
theorem ownRegistration_startRegister (id : U32) :
    Cmd.Emits (OwnRegistration id) (startRegister id) := by
  intro s
  unfold startRegister
  split
  · exact emits_nil
  · exact ownRegistration_send id s.moduleInfo

/-- The ten-second branch sends registration frames of this module only. -/
theorem ownRegistration_tick10s (id : U32) : Cmd.Emits (OwnRegistration id) (tick10s id) := by
  intro s
  unfold tick10s
  split
  · exact ownRegistration_send id s.moduleInfo
  · exact emits_nil

/-- After the poll an iteration sends the hub nothing else. -/
theorem ownRegistration_afterPoll (id : U32) : Cmd.Emits (OwnRegistration id) (afterPoll id) := by
  have hdispatch : dispatchEvent.All (Cmd.Emits (OwnRegistration id)) :=
    ⟨⟨fun _ => emits_singleton trivial, all_sendActions (fun _ _ => emits_singleton trivial)
      (kinds_onTest fun _ => trivial) (kinds_offTest fun _ => trivial) (fun _ => emits_nil)
      fun _ => emits_singleton trivial⟩, trivial⟩
  have htick : (tick1s id).All (Cmd.Emits (OwnRegistration id)) :=
    ⟨⟨fun _ => emits_nil, hdispatch, kinds_lights fun _ _ => trivial, ownRegistration_startRegister id,
      kinds_monitorConnect, kinds_sendThreeTimes (fun _ => trivial) trivial, trivial⟩, trivial⟩
  refine .andThen ?_ (.andThen ?_ (Stmt.emits_exec ⟨?_, htick, kinds_tick5s,
    ownRegistration_tick10s id, trivial⟩))
  · exact kinds_uart2Replies (fun _ => trivial) (fun _ _ _ => trivial) fun _ => trivial
  · exact kinds_saveFlash fun _ => trivial
  · exact kinds_tick100ms fun _ _ => trivial

/-- A frame cut short still begins as it did, or is empty. -/
theorem byteAt_sendMessage {addr : U8} {rest bytes : List U8} {len : U8}
    (h : .uart1Tx bytes ∈ sendMessageToMaster (addr :: rest) len) (hne : bytes ≠ []) :
    byteAt bytes 0 = addr := by
  simp only [sendMessageToMaster, List.mem_cons, reduceCtorEq, List.not_mem_nil, or_false, false_or,
    Obs.uart1Tx.injEq] at h
  have hlen : 0 < len.toNat := by
    by_contra hzero
    rw [show len.toNat = 0 by omega, List.take_zero] at h
    exact hne h
  rw [h, byteAt_take hlen]
  rfl

/-- A reply comes from the address that the module has when the request is done. -/
theorem byteAt_replyDataToMaster {heap : Heap} {m : ModuleInfo} {rw' : U8} {data bytes : List U8} {reg : U16}
    {len : U8} (h : .uart1Tx bytes ∈ replyDataToMaster heap m rw' data reg len) (hne : bytes ≠ []) :
    byteAt bytes 0 = m.addr := by
  unfold replyDataToMaster at h
  split at h
  · split at h
    · exact byteAt_sendMessage h hne
    · split at h
      · exact byteAt_sendMessage h hne
      · cases h
  · cases h

/-- A reply to a request begins with the address of the module. -/
theorem byteAt_analyzeMasterData {heap : Heap} {id : U32} {data bytes : List U8} {size : ℕ} {m : ModuleInfo}
    (h : .uart1Tx bytes ∈ (analyzeMasterData heap id data size m).2.2) (hne : bytes ≠ []) :
    byteAt bytes 0 = (analyzeMasterData heap id data size m).2.1.addr := by
  by_cases hread : byteAt data 1 = readMuti
  · rw [analyzeMasterData_read hread] at h ⊢
    unfold analyzeRead at h ⊢
    dsimp only at h ⊢
    by_cases hroom : heap.room ((byteAt data 5).toNat * 2) = true
    · simp only [hroom, if_true] at h ⊢
      exact byteAt_replyDataToMaster h hne
    · rw [if_neg hroom] at h
      cases h
  by_cases hwrite : byteAt data 1 = writeSingle
  · by_cases hsize : size = 8
    · rw [analyzeMasterData_write hwrite hsize] at h ⊢
      unfold analyzeWrite at h ⊢
      dsimp only at h ⊢
      by_cases hroom : heap.room 2 = true
      · simp only [hroom, if_true] at h ⊢
        exact byteAt_replyDataToMaster h hne
      · rw [if_neg hroom] at h
        cases h
    · rw [analyzeMasterData_misfit hwrite hsize] at h
      cases h
  · rw [analyzeMasterData_other hread hwrite] at h
    cases h

/-- A poll that executes no request makes at most the observation of a registration frame. -/
theorem poll_unrequested {id : U32} {heap : Heap} {s : Firmware} (h : ¬ Requested s) :
    ∀ o ∈ (pollUart1 id heap s).2, ∃ f n, o = .registration f n := by
  intro o ho
  unfold pollUart1 at ho
  split at ho
  case isFalse => cases ho
  case isTrue hflag =>
    rw [Cmd.andThen_apply, Cmd.modify_apply, List.append_nil] at ho
    split at ho
    case isTrue hcode => exact ⟨_, _, List.mem_singleton.mp ho⟩
    case isFalse hcode =>
      rw [if_neg fun haddr => h ⟨hflag, hcode, haddr⟩] at ho
      cases ho

/-- Where the observations of an iteration come from. -/
theorem obs_iteration {chip : Chip} {pin : U8} {heap : Heap} {s : Firmware} {o : Obs}
    (ho : o ∈ (firmware chip (.iteration pin heap) s).2) :
    o ∈ (checkIo pin (timers s).1).2 ∨ o ∈ (pollUart1 (readUniqueId chip) heap (atPoll pin s)).2 ∨
      o ∈ (afterPoll (readUniqueId chip) (pollUart1 (readUniqueId chip) heap (atPoll pin s)).1).2 := by
  rw [firmware_iteration] at ho
  simp only [Cmd.andThen_apply, List.mem_append] at ho
  rcases ho with ho | ho
  · cases ho
  · exact ho

/-- **What a module sends** in an iteration: its registration frame, or the reply to the request it executes,
from the address it has afterwards. -/
theorem sent_iteration {chip : Chip} {pin : U8} {heap : Heap} {s : Firmware} {bytes : List U8}
    (h : bytes ∈ uart1Sent (firmware chip (.iteration pin heap) s).2) (hne : bytes ≠ []) :
    (∃ addr, bytes = registerFrame (readUniqueId chip) addr) ∨
      (Requested s ∧ byteAt bytes 0 = polledAddr (readUniqueId chip) s) := by
  have ho : .uart1Tx bytes ∈ (firmware chip (.iteration pin heap) s).2 := by
    obtain ⟨o, ho, hbytes⟩ := List.mem_filterMap.mp h
    cases o with
    | uart1Tx bytes' =>
      obtain rfl := Option.some.inj hbytes
      exact ho
    | _ => cases hbytes
  rcases obs_iteration ho with ho | ho | ho
  · have hoffline : Cmd.Emits Offline (checkIo pin) := kinds_checkIo (fun _ => trivial) pin
    exact (hoffline _ _ ho).elim
  · right
    by_cases hrequest : Requested (atPoll pin s)
    · refine ⟨(requested_atPoll pin s).mp hrequest, ?_⟩
      rw [← addr_polled (readUniqueId chip) pin heap s]
      simp only [pollUart1, if_pos hrequest.1, if_neg hrequest.2.1, if_pos hrequest.2.2, Cmd.andThen_apply,
        Cmd.modify_apply, List.append_nil, analyzeBranch, List.mem_cons, reduceCtorEq, false_or] at ho ⊢
      exact byteAt_analyzeMasterData ho hne
    · obtain ⟨_, _, heq⟩ := poll_unrequested hrequest _ ho
      cases heq
  · exact .inl (ownRegistration_afterPoll _ _ _ ho)

/-- What an iteration executes is a request in its slot. -/
theorem analyze_iteration {chip : Chip} {pin : U8} {heap : Heap} {s : Firmware} {f : List U8} {n : ℕ}
    (h : .analyze f n ∈ (firmware chip (.iteration pin heap) s).2) : Requested s ∧ f = s.uart1Msg.frame := by
  refine ⟨?_, (hubFrame_iteration h rfl).2.2.1⟩
  rcases obs_iteration h with ho | ho | ho
  · exact ((incidental_checkIo pin).emits _ _ ho).elim
  · by_contra hrequest
    obtain ⟨_, _, heq⟩ := poll_unrequested (fun hr => hrequest ((requested_atPoll pin s).mp hr)) _ ho
    cases heq
  · exact nomatch emits_afterPoll _ _ _ ho

/-! ## What a module hears -/

/-- The address that a frame gives to a module with this identifier and address, if it gives it one. -/
def given (f : List U8) (id : U32) (addr : U8) : Option U8 :=
  if byteAt f 0 = registerCode then if frameUuid f = id then some (byteAt f 7) else none
  else if byteAt f 0 = addr ∧ IsWrite f f.length registerAddr then some (byteAt f 5) else none

/-- The module after a burst on the line. -/
def hearing (f : List U8) (s : Firmware) : Firmware := (peerStep (.uart1Burst f) s).1

section Hearing

variable (f : List U8) (s : Firmware)

/-- A burst leaves the address. -/
theorem addr_hearing : (hearing f s).moduleInfo.addr = s.moduleInfo.addr := addr_peerStep _ s

/-- A burst is put into the slot. -/
theorem slot_hearing : ∃ flag, (hearing f s).uart1Msg = { s.uart1Msg.receive f with messageFlag := flag } := by
  have hslot : (hearing f s).uart1Msg = (uart1Input f s).2.uart1Msg :=
    congrArg Vital.uart1Msg (vital_uart1Burst f s)
  rw [hslot, uart1Input_eq]
  split
  · exact ⟨true, rfl⟩
  · exact ⟨s.uart1Msg.messageFlag, rfl⟩

/-- The size of the slot after a burst. -/
theorem size_hearing : (hearing f s).uart1Msg.size = f.length := by
  obtain ⟨flag, hslot⟩ := slot_hearing f s
  rw [hslot]
  rfl

/-- The frame of the slot after a burst. -/
theorem frame_hearing : (hearing f s).uart1Msg.frame = f := by
  obtain ⟨flag, hslot⟩ := slot_hearing f s
  rw [hslot]
  exact RxMsg.frame_receive s.uart1Msg f

/-- The data of the slot after a burst begin with it. -/
theorem data_hearing : ∃ stale, (hearing f s).uart1Msg.data = f ++ stale := by
  obtain ⟨flag, hslot⟩ := slot_hearing f s
  exact ⟨s.uart1Msg.data.drop f.length, by rw [hslot]; rfl⟩

variable {f s}

/-- The first byte of the slot after a burst. -/
theorem first_hearing (hne : f ≠ []) : byteAt (hearing f s).uart1Msg.data 0 = byteAt f 0 := by
  obtain ⟨stale, hdata⟩ := data_hearing f s
  rw [hdata, byteAt_append_left (List.length_pos_iff.mpr hne)]

/-- A request waits after a burst only when the burst was sent to the address of the module. -/
theorem requested_hearing (hne : f ≠ []) (h : Requested (hearing f s)) :
    byteAt f 0 ≠ registerCode ∧ byteAt f 0 = s.moduleInfo.addr := by
  rw [Requested, first_hearing hne, addr_hearing] at h
  exact ⟨h.2.1, h.2.2.symm⟩

/-- The address that waits in the slot is what the frame gives, if it gives one. -/
theorem polledAddr_hearing (hne : f ≠ []) (hlen : byteAt f 0 = registerCode → 8 ≤ f.length) (id : U32) :
    polledAddr id (hearing f s) = s.moduleInfo.addr ∨
      given f id s.moduleInfo.addr = some (polledAddr id (hearing f s)) := by
  obtain ⟨stale, hdata⟩ := data_hearing f s
  have hsize := size_hearing f s
  have hfirst : byteAt (hearing f s).uart1Msg.data 0 = byteAt f 0 := first_hearing hne
  rw [polledAddr]
  by_cases hadmitted : Admitted id (hearing f s)
  · right
    have hcode := hadmitted.1.2.1
    have huuid := hadmitted.2
    rw [hfirst] at hcode
    have hlong := hlen hcode
    rw [hdata, frameUuid_append (by omega)] at huuid
    rw [if_pos hadmitted, given, if_pos hcode, if_pos huuid, hdata, byteAt_append_left (by omega)]
  rw [if_neg hadmitted]
  by_cases hwrite : Requested (hearing f s) ∧
      IsWrite (hearing f s).uart1Msg.data (hearing f s).uart1Msg.size registerAddr
  · right
    obtain ⟨hcode, haddr⟩ := requested_hearing hne hwrite.1
    have hfits : f.length = 8 := hsize ▸ hwrite.2.2.1
    have hsame : IsWrite f f.length registerAddr := by
      have hreg := hwrite.2
      rw [hsize, hdata, IsWrite, requestStart, byteAt_append_left (by omega),
        byteAt_append_left (by omega), byteAt_append_left (by omega)] at hreg
      exact hreg
    rw [if_pos hwrite, given, if_neg hcode, if_pos ⟨haddr, hsame⟩, hdata, byteAt_append_left (by omega)]
  · left
    rw [if_neg hwrite, addr_hearing]

end Hearing

/-- A module with nothing in its slot that a poll would act on for its address, which it has not changed. -/
structure Unmoved (id : U32) (s t : Firmware) : Prop where
  addr : t.moduleInfo.addr = s.moduleInfo.addr
  request : ¬ Requested t
  waiting : polledAddr id t = t.moduleInfo.addr

/-- Where a registration frame of the hub has an identifier, one of a module has zeros. -/
theorem frameUuid_registerFrame (id : U32) (addr : U8) : frameUuid (registerFrame id addr) = 0 := by
  have hzeros : byteAt (registerFrame id addr) 2 = 0 ∧ byteAt (registerFrame id addr) 3 = 0 ∧
      byteAt (registerFrame id addr) 4 = 0 ∧ byteAt (registerFrame id addr) 5 = 0 := ⟨rfl, rfl, rfl, rfl⟩
  rw [frameUuid, hzeros.1, hzeros.2.1, hzeros.2.2.1, hzeros.2.2.2]
  decide

/-- A burst that begins with another module's frame. -/
theorem hearing_foreign {id : U32} {f frame : List U8} {s : Firmware} (hframe : frame <+: f)
    (hne : frame ≠ []) (hid : id ≠ 0)
    (h : (∃ id' addr, frame = registerFrame id' addr) ∨
      (byteAt frame 0 ≠ registerCode ∧ byteAt frame 0 ≠ s.moduleInfo.addr)) :
    Unmoved id s (hearing f s) := by
  obtain ⟨rest, rfl⟩ := hframe
  have hf : frame ++ rest ≠ [] := fun hnil => hne (List.append_eq_nil_iff.mp hnil).1
  have hfirst : byteAt (frame ++ rest) 0 = byteAt frame 0 := byteAt_append_left (List.length_pos_iff.mpr hne)
  have hlen : byteAt (frame ++ rest) 0 = registerCode → 8 ≤ (frame ++ rest).length := by
    rintro hcode
    rcases h with ⟨id', addr, rfl⟩ | ⟨hother, -⟩
    · rw [List.length_append, registerFrame, length_withCrc]
      simp only [List.length_cons, List.length_nil]
      omega
    · exact absurd (hfirst.symm.trans hcode) hother
  have hnothing : given (frame ++ rest) id s.moduleInfo.addr = none := by
    rcases h with ⟨id', addr, rfl⟩ | ⟨hother, hforeign⟩
    · have huuid : frameUuid (registerFrame id' addr ++ rest) = 0 := by
        rw [frameUuid_append (by rw [registerFrame, length_withCrc]; simp), frameUuid_registerFrame]
      rw [given, if_pos (by rw [hfirst]; rfl), huuid, if_neg hid.symm]
    · rw [given, hfirst, if_neg hother, if_neg fun hwrite => hforeign hwrite.1]
  refine ⟨addr_hearing _ _, fun hrequest => ?_, ?_⟩
  · obtain ⟨hcode, haddr⟩ := requested_hearing hf hrequest
    rw [hfirst] at hcode haddr
    rcases h with ⟨id', addr, rfl⟩ | ⟨-, hforeign⟩
    · exact hcode rfl
    · exact hforeign haddr
  · rcases polledAddr_hearing hf hlen id with hsame | hgiven
    · rw [hsame, addr_hearing]
    · rw [hnothing] at hgiven
      cases hgiven

/-- The address after a poll depends on the slot and on the address only. -/
theorem polledAddr_congr {s t : Firmware} (hslot : t.uart1Msg = s.uart1Msg)
    (haddr : t.moduleInfo.addr = s.moduleInfo.addr) (id : U32) : polledAddr id t = polledAddr id s := by
  have hadmitted : Admitted id t ↔ Admitted id s := by
    rw [Admitted, Replied, hslot]
    rfl
  simp only [polledAddr, hadmitted, requested_congr hslot haddr, hslot, haddr]

/-- The same for any number of bursts. -/
theorem hearings_foreign {id : U32} {s : Firmware} {bursts : List (List U8)} (hid : id ≠ 0)
    (h : ∀ f ∈ bursts, ∃ frame, frame <+: f ∧ frame ≠ [] ∧ ((∃ id' addr, frame = registerFrame id' addr) ∨
      (byteAt frame 0 ≠ registerCode ∧ byteAt frame 0 ≠ s.moduleInfo.addr))) :
    run peerStep s (bursts.map .uart1Burst) = s ∨
      Unmoved id s (run peerStep s (bursts.map .uart1Burst)) := by
  induction bursts generalizing s with
  | nil => exact .inl rfl
  | cons f bursts ih =>
    right
    obtain ⟨frame, hframe, hne, hforeign⟩ := h f List.mem_cons_self
    have hfirst : Unmoved id s (hearing f s) := hearing_foreign hframe hne hid hforeign
    rw [List.map_cons, run_cons]
    have hrest := ih (s := hearing f s) fun g hg => by
      rw [hfirst.addr]
      exact h g (List.mem_cons_of_mem f hg)
    rcases hrest with hsame | hlater
    · exact hsame ▸ hfirst
    · exact ⟨hlater.addr.trans hfirst.addr, hlater.request, hlater.waiting⟩

/-! ## The line -/

section Line

variable {M : Type} (chips : M → Chip)

/-- An address that a module has, or that its next poll gives it. -/
def Holds (b : M → Firmware) (m : M) (x : U8) : Prop :=
  x = (b m).moduleInfo.addr ∨ x = polledAddr (readUniqueId (chips m)) (b m)

instance (b : M → Firmware) (m : M) (x : U8) : Decidable (Holds chips b m x) :=
  inferInstanceAs (Decidable (_ ∨ _))

/-- Two modules share no address, not even one that waits in a slot. -/
def Apart (b : M → Firmware) (m k : M) : Prop := ∀ x, Holds chips b m x → ¬ Holds chips b k x

/-- An address that may be given to `m`. -/
def Fresh (b : M → Firmware) (m : M) (a : U8) : Prop := a ≠ registerCode ∧ ∀ k, k ≠ m → ¬ Holds chips b k a

instance [Fintype M] [DecidableEq M] (b : M → Firmware) (m : M) (a : U8) : Decidable (Fresh chips b m a) :=
  inferInstanceAs (Decidable (_ ∧ ∀ _, _))

/-- No two modules hold this address. -/
def Unshared (b : M → Firmware) (x : U8) : Prop := ∀ m k, k ≠ m → Holds chips b m x → ¬ Holds chips b k x

instance [Fintype M] [DecidableEq M] (b : M → Firmware) (x : U8) : Decidable (Unshared chips b x) :=
  inferInstanceAs (Decidable (∀ _ _, _))

/-- What is asked of a step. The hub sends whole registration frames; it gives a module no address that is the
registration code or that another one holds, and it sends no request to an address that two of them hold. Only
the line brings bursts. What the others hear of a module begins with a frame that it sends. -/
def Orderly (b : M → Firmware) : LineInput M → Prop
  | .hub f hears => f ≠ [] ∧ (byteAt f 0 = registerCode → 8 ≤ f.length) ∧
    (∀ m, hears m = true → ∀ a ∈ given f (readUniqueId (chips m)) (b m).moduleInfo.addr, Fresh chips b m a) ∧
    (byteAt f 0 ≠ registerCode → Unshared chips b (byteAt f 0))
  | .peer _ p => ∀ bytes, p ≠ .uart1Burst bytes
  | .iteration m pin heap heard => ∀ k, ∀ burst ∈ heard k,
    ∃ frame ∈ uart1Sent (firmware (chips m) (.iteration pin heap) (b m)).2, frame ≠ [] ∧ frame <+: burst

/-- This input of a module is a burst from the line. -/
def isUart1Burst : Peer → Bool
  | .uart1Burst _ => true
  | _ => false

/-- Every other input is none. -/
theorem isUart1Burst_eq_false (p : Peer) : isUart1Burst p = false ↔ ∀ bytes, p ≠ .uart1Burst bytes := by
  cases p <;> simp [isUart1Burst]

instance [Fintype M] [DecidableEq M] (b : M → Firmware) (i : LineInput M) : Decidable (Orderly chips b i) :=
  match i with
  | .hub _ _ => inferInstanceAs (Decidable (_ ∧ (_ → _) ∧ (∀ _, _) ∧ (_ → _)))
  | .peer _ p => decidable_of_iff _ (isUart1Burst_eq_false p)
  | .iteration _ _ _ _ => inferInstanceAs (Decidable (∀ _, ∀ _ ∈ _, ∃ _ ∈ _, _ ∧ _))

/-- The last frame of the hub that a module has heard. -/
def LastHub (before : List (LineInput M)) (m : M) (f : List U8) : Prop :=
  ∃ earlier hears later, before = earlier ++ .hub f hears :: later ∧ hears m = true ∧
    ∀ g hears', .hub g hears' ∈ later → hears' m = false

/-- Every request that waits is the hub's, and waits in the only module that it can be for. -/
structure Exclusive (before : List (LineInput M)) (b : M → Firmware) : Prop where
  addresses : ∀ m x, Holds chips b m x → x ≠ registerCode
  requests : ∀ m, Requested (b m) → LastHub before m (b m).uart1Msg.frame ∧ (b m).uart1Msg.frame ≠ [] ∧
    ∀ k, k ≠ m → Apart chips b m k

/-- This module hears the hub in this step. -/
def HearsHub (i : LineInput M) (k : M) (f : List U8) : Prop := ∃ hears, i = .hub f hears ∧ hears k = true

variable {chips} {before : List (LineInput M)} {b : M → Firmware} {i : LineInput M}

/-- The last frame of the hub stays the last one over a step in which the module does not hear the hub. -/
theorem LastHub.concat {m : M} {f : List U8} (h : LastHub before m f) (hi : ∀ g, ¬ HearsHub i m g) :
    LastHub (before ++ [i]) m f := by
  obtain ⟨earlier, hears, later, rfl, hheard, hlater⟩ := h
  refine ⟨earlier, hears, later ++ [i], by simp, hheard, fun g hears' hmem => ?_⟩
  rcases List.mem_append.mp hmem with hold | hnew
  · exact hlater g hears' hold
  · rw [List.mem_singleton] at hnew
    by_contra htrue
    exact hi g ⟨hears', hnew.symm, by simpa using htrue⟩

/-- What a module hears of the hub is the last frame it has heard. -/
theorem HearsHub.lastHub {m : M} {f : List U8} (h : HearsHub i m f) : LastHub (before ++ [i]) m f := by
  obtain ⟨hears, rfl, hm⟩ := h
  exact ⟨before, hears, [], rfl, hm, fun _ _ hmem => nomatch hmem⟩

variable [DecidableEq M]

/-- **What a step does to a module.** It hears the hub; or nothing happens to its slot and address; or it has
polled its slot, or heard another module, and waits for nothing. -/
theorem line_cases (hids : ∀ m, readUniqueId (chips m) ≠ 0) (h : Exclusive chips before b)
    (hi : Orderly chips b i) (k : M) :
    (∃ f, HearsHub i k f ∧ (line chips i b).1 k = hearing f (b k)) ∨
      ((∀ f, ¬ HearsHub i k f) ∧
        (((line chips i b).1 k).uart1Msg = (b k).uart1Msg ∧
            ((line chips i b).1 k).moduleInfo.addr = (b k).moduleInfo.addr ∨
          Holds chips b k ((line chips i b).1 k).moduleInfo.addr ∧ ¬ Requested ((line chips i b).1 k) ∧
            polledAddr (readUniqueId (chips k)) ((line chips i b).1 k) =
              ((line chips i b).1 k).moduleInfo.addr)) := by
  cases i with
  | hub f hears =>
    by_cases hhears : hears k = true
    · exact .inl ⟨f, ⟨hears, rfl, hhears⟩, by simp only [line, Cmd.modify_apply, hhears, if_true, hearing]⟩
    · refine .inr ⟨fun g hg => ?_, .inl ?_⟩
      · obtain ⟨hears', heq, hk⟩ := hg
        cases heq
        exact hhears hk
      · simp only [line, Cmd.modify_apply, if_neg hhears, and_self]
  | peer m p =>
    refine .inr ⟨fun _ ⟨_, heq, _⟩ => (nomatch heq), .inl ?_⟩
    by_cases hkm : k = m
    · subst hkm
      simp only [line, Function.update_self]
      exact slot_peer hi (b k)
    · simp only [line, Function.update_of_ne hkm, and_self]
  | iteration m pin heap heard =>
    refine .inr ⟨fun _ ⟨_, heq, _⟩ => (nomatch heq), ?_⟩
    by_cases hkm : k = m
    · right
      subst hkm
      have haddr := addr_iteration (chips k) pin heap (b k)
      have hslot := uart1Msg_iteration (chips k) pin heap (b k)
      simp only [line, if_true]
      -- the poll clears the flag, so nothing waits afterwards
      have hquiet : ¬ Dispatched (firmware (chips k) (.iteration pin heap) (b k)).1 := fun hd => by
        have hflag := hd.1
        rw [hslot] at hflag
        cases hflag
      exact ⟨.inr haddr, fun hrequest => hquiet hrequest.dispatched, polledAddr_of_quiet hquiet _⟩
    · -- the frames of `m` are registrations, or go out from an address that is held by `m` alone
      have hforeign := hearings_foreign (s := b k) (hids k) fun burst (hburst : burst ∈ heard k) => by
          obtain ⟨frame, hsent, hne, hprefix⟩ := hi k burst hburst
          refine ⟨frame, hprefix, hne, ?_⟩
          rcases sent_iteration hsent hne with ⟨addr, rfl⟩ | ⟨hrequest, hfirst⟩
          · exact .inl ⟨_, _, rfl⟩
          · refine .inr ⟨?_, fun heq => ?_⟩
            · rw [hfirst]
              exact h.addresses m _ (.inr rfl)
            · exact (h.requests m hrequest).2.2 k hkm _ (.inr rfl) (.inl (hfirst.symm.trans heq))
      simp only [line, if_neg hkm]
      rcases hforeign with hsame | hunmoved
      · exact .inl (by rw [hsame]; exact ⟨rfl, rfl⟩)
      · exact .inr ⟨.inl hunmoved.addr, hunmoved.request, hunmoved.waiting⟩

/-- The addresses a module holds after a step: those it held, or, if it hears the hub, its own and what it is
given. -/
theorem holds_step (hids : ∀ m, readUniqueId (chips m) ≠ 0) (h : Exclusive chips before b)
    (hi : Orderly chips b i) {k : M} {x : U8} (hx : Holds chips (line chips i b).1 k x) :
    (∃ f, HearsHub i k f ∧ (x = (b k).moduleInfo.addr ∨
        given f (readUniqueId (chips k)) (b k).moduleInfo.addr = some x)) ∨
      ((∀ f, ¬ HearsHub i k f) ∧ Holds chips b k x) := by
  rcases line_cases hids h hi k with ⟨f, hhub, heq⟩ | ⟨hnone, ⟨hslot, haddr⟩ | ⟨haddr, -, hwaiting⟩⟩
  · left
    refine ⟨f, hhub, ?_⟩
    obtain ⟨hears, rfl, -⟩ := hhub
    rw [Holds, heq, addr_hearing] at hx
    rcases hx with rfl | rfl
    · exact .inl rfl
    · exact polledAddr_hearing hi.1 hi.2.1 _
  · refine .inr ⟨hnone, ?_⟩
    rw [Holds, haddr, polledAddr_congr hslot haddr] at hx
    exact hx
  · refine .inr ⟨hnone, ?_⟩
    rw [Holds, hwaiting, or_self] at hx
    exact hx ▸ haddr

/-- The requests that wait after a step: those that waited, or, in a module that hears the hub, the hub's. -/
theorem requested_step (hids : ∀ m, readUniqueId (chips m) ≠ 0) (h : Exclusive chips before b)
    (hi : Orderly chips b i) {k : M} (hk : Requested ((line chips i b).1 k)) :
    (∃ f, HearsHub i k f ∧ byteAt f 0 ≠ registerCode ∧ byteAt f 0 = (b k).moduleInfo.addr ∧
        ((line chips i b).1 k).uart1Msg.frame = f) ∨
      ((∀ f, ¬ HearsHub i k f) ∧ Requested (b k) ∧ ((line chips i b).1 k).uart1Msg = (b k).uart1Msg) := by
  rcases line_cases hids h hi k with ⟨f, hhub, heq⟩ | ⟨hnone, ⟨hslot, haddr⟩ | ⟨-, hquiet, -⟩⟩
  · left
    refine ⟨f, hhub, ?_⟩
    obtain ⟨hears, rfl, -⟩ := hhub
    rw [heq] at hk ⊢
    obtain ⟨hcode, hfirst⟩ := requested_hearing hi.1 hk
    exact ⟨hcode, hfirst, frame_hearing f (b k)⟩
  · exact .inr ⟨hnone, (requested_congr hslot haddr).mp hk, hslot⟩
  · exact absurd hk hquiet

/-- Who is given an address by a request is the one it is sent to. -/
theorem given_request {f : List U8} {id : U32} {addr x : U8} (hcode : byteAt f 0 ≠ registerCode)
    (h : given f id addr = some x) : byteAt f 0 = addr := by
  rw [given, if_neg hcode] at h
  split at h
  case isTrue hwrite => exact hwrite.1
  case isFalse => cases h

/-- Who is given an address by a registration frame is the one it names. -/
theorem given_registration {f : List U8} {id : U32} {addr x : U8} (hcode : byteAt f 0 = registerCode)
    (h : given f id addr = some x) : frameUuid f = id := by
  rw [given, if_pos hcode] at h
  split at h
  case isTrue huuid => exact huuid
  case isFalse => cases h

/-- **One step.** -/
theorem Exclusive.step (hids : ∀ m, readUniqueId (chips m) ≠ 0) (h : Exclusive chips before b)
    (hi : Orderly chips b i) : Exclusive chips (before ++ [i]) (line chips i b).1 where
  addresses m x hx := by
    rcases holds_step hids h hi hx with ⟨f, ⟨hears, rfl, hm⟩, rfl | hgiven⟩ | ⟨-, hold⟩
    · exact h.addresses m _ (.inl rfl)
    · exact (hi.2.2.1 m hm x hgiven).1
    · exact h.addresses m x hold
  requests m hm := by
    rcases requested_step hids h hi hm with ⟨f, hhub, hcode, hfirst, hframe⟩ | ⟨hnone, hold, hslot⟩
    · have hlast := (HearsHub.lastHub hhub : LastHub (before ++ [i]) m f)
      obtain ⟨hears, rfl, hhears⟩ := hhub
      refine ⟨by rwa [hframe], by rw [hframe]; exact hi.1, fun k hkm x hmx hkx => ?_⟩
      have hsole : ¬ Holds chips b k (byteAt f 0) := hi.2.2.2 hcode m k hkm (.inl hfirst)
      -- what the other one holds now it held before: the request gives it nothing
      have hother : Holds chips b k x := by
        rcases holds_step hids h hi hkx with ⟨g, ⟨hears', heq, -⟩, rfl | hgiven⟩ | ⟨-, hkept⟩
        · exact .inl rfl
        · cases heq
          exact absurd (.inl (given_request hcode hgiven)) hsole
        · exact hkept
      rcases holds_step hids h hi hmx with ⟨g, ⟨hears', heq, -⟩, rfl | hgiven⟩ | ⟨hnone, -⟩
      · exact hsole (hfirst ▸ hother)
      · cases heq
        exact (hi.2.2.1 m hhears x hgiven).2 k hkm hother
      · exact hnone f ⟨hears, rfl, hhears⟩
    · obtain ⟨hlast, hne, hapart⟩ := h.requests m hold
      refine ⟨?_, by rwa [hslot], fun k hkm x hmx hkx => ?_⟩
      · rw [hslot]
        exact hlast.concat hnone
      · have hmine : Holds chips b m x := by
          rcases holds_step hids h hi hmx with ⟨g, hhub, -⟩ | ⟨-, hkept⟩
          · exact absurd hhub (hnone g)
          · exact hkept
        rcases holds_step hids h hi hkx with ⟨g, ⟨hears', rfl, hk⟩, rfl | hgiven⟩ | ⟨-, hkept⟩
        · exact hapart k hkm _ hmine (.inl rfl)
        · exact (hi.2.2.1 k hk x hgiven).2 m hkm.symm hmine
        · exact hapart k hkm x hmine hkept

/-- **Two modules that are apart stay apart.** -/
theorem Apart.step (hids : ∀ m, readUniqueId (chips m) ≠ 0)
    (hdistinct : Function.Injective fun m => readUniqueId (chips m)) (h : Exclusive chips before b)
    (hi : Orderly chips b i) {m k : M} (hkm : k ≠ m) (hapart : Apart chips b m k) :
    Apart chips (line chips i b).1 m k := by
  intro x hmx hkx
  rcases holds_step hids h hi hmx with ⟨f, ⟨hears, rfl, hm⟩, hmine⟩ | ⟨-, hmine⟩
  · rcases holds_step hids h hi hkx with ⟨g, ⟨hears', heq, hk⟩, hother⟩ | ⟨-, hother⟩
    · cases heq
      rcases hmine with rfl | hmine
      · rcases hother with hsame | hother
        · exact hapart _ (.inl rfl) (.inl hsame)
        · exact (hi.2.2.1 k hk _ hother).2 m hkm.symm (.inl rfl)
      · rcases hother with rfl | hother
        · exact (hi.2.2.1 m hm _ hmine).2 k hkm (.inl rfl)
        · -- one frame gives to one module only
          by_cases hcode : byteAt f 0 = registerCode
          · exact hkm (hdistinct ((given_registration hcode hother).symm.trans (given_registration hcode hmine)))
          · exact hapart _ (.inl (given_request hcode hmine)) (.inl (given_request hcode hother))
    · rcases hmine with rfl | hmine
      · exact hapart _ (.inl rfl) hother
      · exact (hi.2.2.1 m hm _ hmine).2 k hkm hother
  · rcases holds_step hids h hi hkx with ⟨g, ⟨hears', rfl, hk⟩, rfl | hother⟩ | ⟨-, hother⟩
    · exact hapart _ hmine (.inl rfl)
    · exact (hi.2.2.1 k hk _ hother).2 m hkm.symm hmine
    · exact hapart _ hmine hother

/-- The modules at power-on. -/
def powerOn (flash : M → FlashPage) (beyond : M → Vector U8 10) : M → Firmware := fun m =>
  boot (flash m) (beyond m)

omit [DecidableEq M] in
/-- At power-on no request waits, and no address is the registration code. -/
theorem exclusive_boot {flash : M → FlashPage} {beyond : M → Vector U8 10}
    (haddr : ∀ m, (powerOn flash beyond m).moduleInfo.addr ≠ registerCode) :
    Exclusive chips [] (powerOn flash beyond) := by
  have hquiet : ∀ m, ¬ Dispatched (powerOn flash beyond m) := fun m hd => nomatch hd.1
  refine ⟨fun m x hx => ?_, fun m hm => absurd hm.dispatched (hquiet m)⟩
  rw [Holds, polledAddr_of_quiet (hquiet m), or_self] at hx
  exact hx ▸ haddr m

/-- In an orderly run every request that waits is for one module only. -/
theorem exclusive_run (hids : ∀ m, readUniqueId (chips m) ≠ 0) {flash : M → FlashPage}
    {beyond : M → Vector U8 10} (haddr : ∀ m, (powerOn flash beyond m).moduleInfo.addr ≠ registerCode)
    {inputs : List (LineInput M)}
    (h : Along (line chips) (powerOn flash beyond) inputs fun _ b i => Orderly chips b i) :
    Exclusive chips inputs (run (line chips) (powerOn flash beyond) inputs) :=
  run_invariant (fun before b => Exclusive chips before b) (fun _ b i => Orderly chips b i)
    (exclusive_boot haddr) (fun _ _ hex hi => hex.step hids hi) h

/-- **Requests.** Any number of modules with identifiers other than zero share a line with a hub that hands out no
address twice; whatever the line loses, and whenever each of them polls. A request that a module executes is
the last frame of the hub that it heard, never another module's, and was sent to an address that no other
module has, neither before nor after it is executed.
SOURCE: Uart.c:79-110, 260-293, module.c:29-117 -/
theorem line_requests (chips : M → Chip) (hids : ∀ m, readUniqueId (chips m) ≠ 0) (flash : M → FlashPage)
    (beyond : M → Vector U8 10) (haddr : ∀ m, (powerOn flash beyond m).moduleInfo.addr ≠ registerCode)
    (inputs : List (LineInput M))
    (horderly : Along (line chips) (powerOn flash beyond) inputs fun _ b i => Orderly chips b i) :
    Along (line chips) (powerOn flash beyond) inputs fun before b i => ∀ m f n,
      (m, .analyze f n) ∈ (line chips i b).2 →
        LastHub before m f ∧ byteAt f 0 = (b m).moduleInfo.addr ∧
          ∀ k, k ≠ m → (b k).moduleInfo.addr ≠ (b m).moduleInfo.addr ∧
            ((line chips i b).1 k).moduleInfo.addr ≠ ((line chips i b).1 m).moduleInfo.addr := by
  refine along_of_invariant (fun before b => Exclusive chips before b) (fun _ b i => Orderly chips b i) _
    (exclusive_boot haddr) (fun _ _ hex hi => hex.step hids hi) ?_ horderly
  intro before i hex hi m f n hobs
  generalize run (line chips) (powerOn flash beyond) before = b at hex hi hobs ⊢
  cases i with
  | hub g hears => cases hobs
  | peer m' p =>
    obtain ⟨o, ho, heq⟩ := List.mem_map.mp hobs
    cases heq
    exact nomatch hubFrame_peer p _ _ ho
  | iteration m' pin heap heard =>
    obtain ⟨o, ho, heq⟩ := List.mem_map.mp hobs
    cases heq
    obtain ⟨hrequest, rfl⟩ := analyze_iteration ho
    obtain ⟨hlast, hne, hapart⟩ := hex.requests m hrequest
    refine ⟨hlast, ?_, fun k hkm => ⟨fun heq => ?_, fun heq => ?_⟩⟩
    · rw [hrequest.2.2, RxMsg.frame, byteAt_take]
      by_contra hzero
      rw [RxMsg.frame, show (b m).uart1Msg.size = 0 by omega, List.take_zero] at hne
      exact hne rfl
    · exact hapart k hkm _ (.inl rfl) (.inl heq.symm)
    · have hkept : ∀ j x, Holds chips (line chips (.iteration m pin heap heard) b).1 j x → Holds chips b j x := by
        intro j x hx
        -- in an iteration nobody gains an address that it did not hold
        rcases holds_step hids hex hi hx with ⟨g, ⟨_, heq, _⟩, -⟩ | ⟨-, hold⟩
        · cases heq
        · exact hold
      exact hapart k hkm _ (hkept m _ (.inl rfl)) (hkept k _ (.inl heq.symm))

/-- **Addresses.** On the same line, with identifiers that are different: two modules that at some time hold
different addresses, also in what waits for their polls, have different addresses ever after.
SOURCE: Uart.c:79-110, 260-293, module.c:29-117, 160-185 -/
theorem line_addresses (chips : M → Chip) (hids : ∀ m, readUniqueId (chips m) ≠ 0)
    (hdistinct : Function.Injective fun m => readUniqueId (chips m)) (flash : M → FlashPage)
    (beyond : M → Vector U8 10) (haddr : ∀ m, (powerOn flash beyond m).moduleInfo.addr ≠ registerCode)
    (before after : List (LineInput M))
    (horderly : Along (line chips) (powerOn flash beyond) (before ++ after) fun _ b i => Orderly chips b i)
    (m k : M) (hkm : k ≠ m) (hapart : Apart chips (run (line chips) (powerOn flash beyond) before) m k) :
    (run (line chips) (powerOn flash beyond) (before ++ after) m).moduleInfo.addr ≠
      (run (line chips) (powerOn flash beyond) (before ++ after) k).moduleInfo.addr := by
  suffices hstill : Apart chips (run (line chips) (powerOn flash beyond) (before ++ after)) m k from
    fun heq => hstill _ (.inl rfl) (.inl heq)
  induction after using List.reverseRecOn with
  | nil => rwa [List.append_nil]
  | append_singleton after i ih =>
    rw [← List.append_assoc] at horderly ⊢
    obtain ⟨hbefore, hlast⟩ := along_concat.mp horderly
    rw [run_append]
    exact (ih hbefore).step hids hdistinct (exclusive_run hids haddr hbefore) hlast hkm

end Line

/-! ## Two modules -/

/-- The identifiers of two modules. -/
def twoChips : Fin 2 → Chip := ![⟨1, 0, 0⟩, ⟨2, 0, 0⟩]

/-- Both begin with the address 1. -/
def twoFresh : Fin 2 → Firmware := powerOn (fun _ => Vector.replicate 12 0xFF) fun _ => Vector.replicate 10 0

/-- The hub gives the address 2 to the first of them. -/
def registering : List (LineInput (Fin 2)) :=
  [.hub [0xFA, 0x00, 0xE0, 0x70, 0x8A, 0x00, 0x00, 0x02, 0x33, 0x42] fun _ => true,
    .iteration 0 1 Heap.ample fun _ => []]

/-- It asks the address 2 for a register, and the other one hears the reply. -/
def asking : List (LineInput (Fin 2)) :=
  [.hub [0x02, 0x03, 0x00, 0x06, 0x00, 0x01, 0x64, 0x38] fun _ => true,
    .iteration 0 1 Heap.ample fun _ => [[0x02, 0x03, 0x02, 0x00, 0x02, 0x7D, 0x85]]]

/-- The run in which one module is registered and then asked. -/
theorem line_requests_two :
    (∀ m, readUniqueId (twoChips m) ≠ 0) ∧ (∀ m, (twoFresh m).moduleInfo.addr ≠ registerCode) ∧
      Along (line twoChips) twoFresh (registering ++ asking) (fun _ b i => Orderly twoChips b i) ∧
      Along (line twoChips) twoFresh (registering ++ asking) fun before b i => ∀ m f n,
        (m, .analyze f n) ∈ (line twoChips i b).2 →
          LastHub before m f ∧ byteAt f 0 = (b m).moduleInfo.addr ∧
            ∀ k, k ≠ m → (b k).moduleInfo.addr ≠ (b m).moduleInfo.addr ∧
              ((line twoChips i b).1 k).moduleInfo.addr ≠ ((line twoChips i b).1 m).moduleInfo.addr := by
  have hids : ∀ m, readUniqueId (twoChips m) ≠ 0 := by decide +kernel
  have haddr : ∀ m, (twoFresh m).moduleInfo.addr ≠ registerCode := by decide +kernel
  have horderly : Along (line twoChips) twoFresh (registering ++ asking) fun _ b i => Orderly twoChips b i := by
    decide +kernel
  exact ⟨hids, haddr, horderly, line_requests twoChips hids _ _ haddr _ horderly⟩

/-- The two modules have different addresses after it. -/
theorem line_addresses_two :
    Function.Injective (fun m => readUniqueId (twoChips m)) ∧
      Apart twoChips (run (line twoChips) twoFresh registering) 0 1 ∧
      (run (line twoChips) twoFresh (registering ++ asking) 0).moduleInfo.addr ≠
        (run (line twoChips) twoFresh (registering ++ asking) 1).moduleInfo.addr := by
  have hids : ∀ m, readUniqueId (twoChips m) ≠ 0 := by decide +kernel
  have hdistinct : Function.Injective fun m => readUniqueId (twoChips m) := by decide +kernel
  have haddr : ∀ m, (twoFresh m).moduleInfo.addr ≠ registerCode := by decide +kernel
  have horderly : Along (line twoChips) twoFresh (registering ++ asking) fun _ b i => Orderly twoChips b i := by
    decide +kernel
  have hheld : ∀ x, Holds twoChips (run (line twoChips) twoFresh registering) 0 x → x = 2 := by
    have hhave : (run (line twoChips) twoFresh registering 0).moduleInfo.addr = 2 := by decide +kernel
    have hnext : polledAddr (readUniqueId (twoChips 0)) (run (line twoChips) twoFresh registering 0) = 2 := by
      decide +kernel
    intro x hx
    rw [Holds, hhave, hnext, or_self] at hx
    exact hx
  have hother : ¬ Holds twoChips (run (line twoChips) twoFresh registering) 1 2 := by decide +kernel
  have hapart : Apart twoChips (run (line twoChips) twoFresh registering) 0 1 := by
    intro x hx hk
    rw [hheld x hx] at hk
    exact hother hk
  refine ⟨hdistinct, hapart, ?_⟩
  unfold twoFresh
  exact line_addresses twoChips hids hdistinct _ _ haddr registering asking horderly 0 1 (by decide) hapart

end InfraredModule.Analysis
