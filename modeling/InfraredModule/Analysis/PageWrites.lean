import InfraredModule.Analysis.Registration
import InfraredModule.Analysis.LongPress
import InfraredModule.Analysis.Persistence

/-!
# When the page is written

An iteration decides by the copy of the last record it saved, and the copy starts as zeros
instead of as the loaded record. `writesOnChange_iff` says for one iteration when the copy
serves as well as the page itself would, in terms of the state the iteration starts in: what
it will compare are the fields once the frames that wait in the two slots are handled
(`savedFields_comparedInfo`). `pageWrites_iff` says it of runs.
-/

set_option autoImplicit false

namespace InfraredModule.Analysis

open InfraredModule.Foundation InfraredModule.Model

/-! ## What an iteration compares -/

/-- The fields whose change is saved. -/
def savedFields (m : ModuleInfo) : U16 × U8 × U8 := (m.brandCode, m.addr, m.select)

/-- `module_info` when an iteration compares it with the copy. -/
def comparedInfo (chip : Chip) (pin : U8) (heap : Heap) (s : Firmware) : ModuleInfo :=
  (beforeSave (readUniqueId chip) pin heap s).1.moduleInfo

/-- The brand code after the replies: a match reply that waits in the slot while the task's copy is at
the match event sets it. -/
def repliedBrandCode (s : Firmware) : U16 :=
  if s.uart2Msg.messageFlag = true ∧ s.task.infraredEvent.event = .sendMatch ∧ s.uart2Msg.size = 7 ∧
      isMatchReply (s.uart2Msg.data.take 7) = true then
    word16 (byteAt s.uart2Msg.data 4) (byteAt s.uart2Msg.data 5)
  else s.moduleInfo.brandCode

/-- The saved fields once the frames that wait in the two slots are handled. -/
def pendingFields (id : U32) (s : Firmware) : U16 × U8 × U8 :=
  (repliedBrandCode s, polledAddr id s, s.moduleInfo.select)

/-- A callback leaves the brand code. -/
theorem brandCode_invokeCallBack (handled : EventCode) (result : U8) :
    Cmd.Keeps (fun s => s.moduleInfo.brandCode) (invokeCallBack handled result).exec :=
  Stmt.keeps_exec ⟨fun _ => rfl, fun _ => rfl, trivial⟩

/-- The brand code after the match branch. -/
theorem brandCode_matchReply (s : Firmware) :
    (matchReply.exec s).1.moduleInfo.brandCode =
      if s.uart2Msg.size = 7 ∧ isMatchReply (s.uart2Msg.data.take 7) = true then
        word16 (byteAt s.uart2Msg.data 4) (byteAt s.uart2Msg.data 5)
      else s.moduleInfo.brandCode := by
  have hrecv : (copyReply s).1.task.recv = s.uart2Msg.data.take 7 := rfl
  have hbytes : word16 (byteAt (s.uart2Msg.data.take 7) 4) (byteAt (s.uart2Msg.data.take 7) 5) =
      word16 (byteAt s.uart2Msg.data 4) (byteAt s.uart2Msg.data 5) := by
    rw [byteAt_take (by decide), byteAt_take (by decide)]
  simp only [matchReply, Stmt.exec_when, Stmt.exec_seq, Stmt.exec_act, Cmd.andThen_apply, replySized,
    decide_eq_true_eq, Stmt.block_cons, Stmt.block_nil, Stmt.exec_skip, hrecv]
  by_cases hsize : s.uart2Msg.size = 7
  · by_cases hmatch : isMatchReply (s.uart2Msg.data.take 7) = true
    · simp only [hsize, hmatch, if_true, true_and]
      rw [← hbytes]
      exact brandCode_invokeCallBack _ _ _
    · simp only [hsize, hmatch, if_true, if_false, and_false, Bool.false_eq_true]
      rfl
  · simp only [hsize, if_false, false_and]

/-- SOURCE: Uart.c:296-380 -/
theorem brandCode_uart2Replies (s : Firmware) :
    (uart2Replies.exec s).1.moduleInfo.brandCode = repliedBrandCode s := by
  have hsave : Cmd.Keeps (fun s => s.moduleInfo.brandCode) saveReply.exec :=
    Stmt.keeps_exec ⟨⟨fun _ => rfl, ⟨fun _ => rfl, fun _ => rfl, trivial⟩, fun _ => rfl, trivial⟩, trivial⟩
  have hlearn : ∀ code result, Cmd.Keeps (fun s => s.moduleInfo.brandCode) (learnReply code result).exec :=
    fun code result => Stmt.keeps_exec ⟨⟨fun _ => rfl,
      ⟨⟨fun _ => rfl, fun _ => rfl, trivial⟩, fun _ => rfl, trivial⟩,
      ⟨fun _ => rfl, fun _ => rfl, fun _ => rfl, trivial⟩, trivial⟩, trivial⟩
  rw [uart2Replies, Stmt.exec_when, repliedBrandCode]
  by_cases hflag : s.uart2Msg.messageFlag = true
  · rw [if_pos hflag]
    show (handleReply.exec s).1.moduleInfo.brandCode = _
    rw [exec_handleReply]
    cases hevent : s.task.infraredEvent.event with
    | sendMatch => simp only [brandCode_matchReply, hflag, true_and]
    | sendSave => simpa using hsave s
    | sendLearnModeOn => simpa using hlearn _ _ s
    | sendLearnModeOff => simpa using hlearn _ _ s
    | _ => simp
  · rw [if_neg hflag, if_neg fun h => hflag h.1]

/-- The reply branch leaves the address. -/
theorem addr_uart2Replies : Cmd.Keeps (fun s => s.moduleInfo.addr) uart2Replies.exec :=
  Stmt.keeps_exec (all_replyActions (fun _ => rfl) (fun _ => rfl) (fun _ _ => rfl) (fun _ => rfl)
    (fun _ => rfl) (fun _ _ _ => rfl) fun _ => rfl)

/-- The brand code after a reply depends on the slot, the copy and the brand code only. -/
theorem repliedBrandCode_congr {s t : Firmware} (hslot : t.uart2Msg = s.uart2Msg)
    (hcopy : t.task.infraredEvent = s.task.infraredEvent)
    (hbrand : t.moduleInfo.brandCode = s.moduleInfo.brandCode) :
    repliedBrandCode t = repliedBrandCode s := by
  rw [repliedBrandCode, repliedBrandCode, hslot, hcopy, hbrand]

/-- **What an iteration compares** is decided by the state it starts in. -/
theorem savedFields_comparedInfo (chip : Chip) (pin : U8) (heap : Heap) (s : Firmware) :
    savedFields (comparedInfo chip pin heap s) = pendingFields (readUniqueId chip) s := by
  have hstart := vital_atPoll pin s
  obtain ⟨addr, hpoll⟩ := vital_pollUart1 (readUniqueId chip) heap (atPoll pin s)
  rw [hstart] at hpoll
  have hbrand : (comparedInfo chip pin heap s).brandCode = repliedBrandCode s :=
    (brandCode_uart2Replies (atReplies (readUniqueId chip) pin heap s)).trans (repliedBrandCode_congr
      (congrArg Vital.uart2Msg hpoll) (congrArg Vital.copy hpoll) (congrArg Vital.brandCode hpoll))
  have haddr : (comparedInfo chip pin heap s).addr = polledAddr (readUniqueId chip) s :=
    (addr_uart2Replies (atReplies (readUniqueId chip) pin heap s)).trans (addr_polled _ pin heap s)
  have hselect : (comparedInfo chip pin heap s).select = s.moduleInfo.select :=
    congrArg (fun v => v.2.2.1) (keeps_pageView_beforeSave (readUniqueId chip) pin heap s)
  rw [savedFields, hbrand, haddr, hselect, pendingFields]

/-! ## When the page is written -/

/-- An observation that is a write of the flash. -/
def isFlashWrite : Obs → Bool
  | .flashWrite _ => true
  | _ => false

/-- The iteration erases and writes the page. -/
def WritesPage (chip : Chip) (pin : U8) (heap : Heap) (s : Firmware) : Prop :=
  (firmware chip (.iteration pin heap) s).2.any isFlashWrite = true

/-- An iteration writes the page if and only if one of the saved fields differs from the page it
starts with. -/
def WritesOnChange (chip : Chip) (s : Firmware) : Input → Prop
  | .peer _ => True
  | .iteration pin heap => WritesPage chip pin heap s ↔
      savedFields (comparedInfo chip pin heap s) ≠ savedFields (getDataFromFlash s.flash)

/-- Against the copy the iteration decides as it would against the page: the page was written in this
run; or the page found at power-on holds zeros in the saved fields, as the copy does; or what is
compared is neither those zeros nor what the page holds. -/
def CopyServes (chip : Chip) (page : FlashPage) (s : Firmware) : Input → Prop
  | .peer _ => True
  | .iteration _ _ => s.task.modulePre ≠ ModuleInfo.zero ∨
      savedFields (getDataFromFlash page) = (0, 0, 0) ∨
      (pendingFields (readUniqueId chip) s ≠ (0, 0, 0) ∧
        pendingFields (readUniqueId chip) s ≠ savedFields (getDataFromFlash page))

/-- Only the save writes the page. -/
theorem emits_beforeSave_noFlash (id : U32) (pin : U8) (heap : Heap) :
    Cmd.Emits (isFlashWrite · = false) (beforeSave id pin heap) := by
  refine .andThen (Cmd.emits_modify _) (.andThen (kinds_checkIo (fun _ => rfl) pin) (.andThen ?_
    (kinds_uart2Replies (fun _ => rfl) (fun _ _ _ => rfl) fun _ => rfl)))
  exact kinds_pollUart1 (fun _ _ => rfl) (fun _ _ => rfl)
    (kinds_analyzeMasterData (fun _ _ => rfl) fun _ => rfl) id heap

/-- What follows the save writes no flash. -/
theorem emits_afterSave_noFlash (id : U32) :
    Cmd.Emits (isFlashWrite · = false) (afterSave id).exec := by
  have hdispatch : dispatchEvent.All (Cmd.Emits (isFlashWrite · = false)) :=
    ⟨⟨fun _ => emits_singleton rfl, all_sendActions (fun _ _ => emits_singleton rfl)
      (kinds_onTest fun _ => rfl) (kinds_offTest fun _ => rfl) (fun _ => emits_nil)
      fun _ => emits_singleton rfl⟩, trivial⟩
  have htick : (tick1s id).All (Cmd.Emits (isFlashWrite · = false)) :=
    ⟨⟨Cmd.emits_modify _, hdispatch, kinds_lights fun _ _ => rfl,
      kinds_startRegister (fun _ _ => rfl) (fun _ => rfl) id, kinds_monitorConnect,
      kinds_sendThreeTimes (fun _ => rfl) rfl, trivial⟩, trivial⟩
  exact Stmt.emits_exec ⟨kinds_tick100ms fun _ _ => rfl, htick, kinds_tick5s,
    kinds_tick10s (fun _ _ => rfl) (fun _ => rfl) id, trivial⟩

/-- The decision, against the copy as it is at the start of the iteration. -/
theorem writesPage_iff (chip : Chip) (pin : U8) (heap : Heap) (s : Firmware) :
    WritesPage chip pin heap s ↔
      savedFields s.task.modulePre ≠ savedFields (comparedInfo chip pin heap s) := by
  have hpre : (beforeSave (readUniqueId chip) pin heap s).1.task.modulePre = s.task.modulePre :=
    congrArg (fun v => v.2.2.2.1) (keeps_pageView_beforeSave (readUniqueId chip) pin heap s)
  have hbefore : (beforeSave (readUniqueId chip) pin heap s).2.any isFlashWrite = false :=
    List.any_eq_false.mpr fun o ho =>
      Bool.eq_false_iff.mp (emits_beforeSave_noFlash (readUniqueId chip) pin heap s o ho)
  have hafter : ∀ t, ((afterSave (readUniqueId chip)).exec t).2.any isFlashWrite = false := fun t =>
    List.any_eq_false.mpr fun o ho =>
      Bool.eq_false_iff.mp (emits_afterSave_noFlash (readUniqueId chip) t o ho)
  have hsave : ∀ t : Firmware, (saveFlash t).2.any isFlashWrite = true ↔
      savedFields t.task.modulePre ≠ savedFields t.moduleInfo := by
    intro t
    have hfields : savedFields t.task.modulePre ≠ savedFields t.moduleInfo ↔
        t.task.modulePre.brandCode ≠ t.moduleInfo.brandCode ∨
          t.task.modulePre.addr ≠ t.moduleInfo.addr ∨ t.task.modulePre.select ≠ t.moduleInfo.select := by
      simp only [savedFields, ne_eq, Prod.mk.injEq, not_and_or]
    rw [hfields, saveFlash]
    split
    · rename_i hchanged
      exact iff_of_true rfl hchanged
    · rename_i hsame
      exact iff_of_false Bool.false_ne_true hsame
  rw [WritesPage, firmware, exec_uartIteration]
  simp only [Cmd.andThen_apply, List.any_append, hbefore, hafter, Bool.false_or, Bool.or_false]
  rw [hsave, hpre]
  rfl

/-- A comparison with `other` stands in for one with `stored` when the two are equal, or when the value
is neither of them. -/
theorem differs_iff {α : Type} {other stored value : α} :
    (other ≠ value ↔ value ≠ stored) ↔ stored = other ∨ (value ≠ other ∧ value ≠ stored) := by
  by_cases hsame : stored = other
  · subst hsame
    exact iff_of_true ne_comm (.inl rfl)
  · by_cases hother : value = other
    · subst hother
      exact iff_of_false (fun h => h.mpr (Ne.symm hsame) rfl) fun h => h.elim hsame fun h => h.1 rfl
    · exact ⟨fun h => .inr ⟨hother, h.mp (Ne.symm hother)⟩,
        fun h => iff_of_true (Ne.symm hother) (h.resolve_left hsame).2⟩

/-- **One iteration**, in a state that the invariant describes. -/
theorem writesOnChange_iff {page : FlashPage} {s : Firmware} (h : PageInv page s) (chip : Chip)
    (i : Input) :
    WritesOnChange chip s i ↔ CopyServes chip page s i := by
  cases i with
  | peer p => exact Iff.rfl
  | iteration pin heap =>
    rw [WritesOnChange, CopyServes, writesPage_iff, savedFields_comparedInfo]
    generalize pendingFields (readUniqueId chip) s = fields
    rcases h.stored with ⟨hpre, hflash⟩ | ⟨htype, hflash, -⟩
    · -- never written: the copy is all zeros, whatever the page holds
      rw [hpre, hflash, show savedFields ModuleInfo.zero = (0, 0, 0) from rfl]
      rw [differs_iff]
      exact ⟨.inr, fun h => h.resolve_left (not_not.mpr rfl)⟩
    · have hpre : s.task.modulePre ≠ ModuleInfo.zero := fun hnone => by
        rw [hnone] at htype
        exact absurd htype (by decide)
      have hpage : getDataFromFlash s.flash = s.task.modulePre := by
        rw [hflash]
        exact ModuleInfo.ofBytes_toBytes _
      rw [hpage]
      exact iff_of_true ne_comm (.inl hpre)

/-- **When the page is written.** For every page and every memory behind `module_info` at power-on and
every run: each iteration writes the page if and only if a saved field differs from the page it
starts with, exactly when at each iteration

* the page was written earlier in the run; or
* the page at power-on holds brand code 0, address 0 and mode 0; or
* the fields, once the frames that wait in the two slots are handled, are neither all zeros nor
  those of the page at power-on.

SOURCE: Uart.c:209-244, 383-391 -/
theorem pageWrites_iff (chip : Chip) (page : FlashPage) (beyond : Vector U8 10) (inputs : List Input) :
    (Along (firmware chip) (boot page beyond) inputs fun _ s i => WritesOnChange chip s i) ↔
      Along (firmware chip) (boot page beyond) inputs fun _ s i => CopyServes chip page s i := by
  have hstep := fun before i => writesOnChange_iff (pageInv_run chip page beyond before) chip i
  constructor
  · exact fun h before i after hsplit => (hstep before i).mp (h before i after hsplit)
  · exact fun h before i after hsplit => (hstep before i).mpr (h before i after hsplit)

/-- A page that holds what the module starts with is erased and written by the first iteration. -/
theorem unchanged_page_written :
    let page : FlashPage := #v[0x00, 0x00, 0x01, 0xB4, 0x02, 0x00, 0x24, 0x00, 0x00, 0xE0, 0x01, 0x00]
    let s := boot page (Vector.replicate 10 0)
    savedFields (comparedInfo ⟨0, 0, 0⟩ 1 Heap.ample s) = savedFields (getDataFromFlash page) ∧
      WritesPage ⟨0, 0, 0⟩ 1 Heap.ample s ∧
      ¬ Along (firmware ⟨0, 0, 0⟩) s [.iteration 1 Heap.ample] fun _ s i => WritesOnChange ⟨0, 0, 0⟩ s i := by
  intro page s
  have hsame : savedFields (comparedInfo ⟨0, 0, 0⟩ 1 Heap.ample s) = savedFields (getDataFromFlash page) := by
    decide +kernel
  have hwritten : WritesPage ⟨0, 0, 0⟩ 1 Heap.ample s := by
    rw [WritesPage]
    decide +kernel
  exact ⟨hsame, hwritten, fun h => (h [] _ [] rfl).mp hwritten hsame⟩

end InfraredModule.Analysis
