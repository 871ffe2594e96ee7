import InfraredModule.Foundation.History
import InfraredModule.Analysis.Replies

/-!
# Texts on the stack: the code that was learned last

`matchCallBack` writes the decimal text of the brand code into five bytes of its stack. The code
comes from two bytes of a match reply, through `module_info`, to a call in the branch of a later
reply.

* `shown_eq_lastMatch`: whatever the interleaving, the code that is shown is the one of the match
  reply accepted last. A history variable records that code; the outline of an iteration carries
  it to the call, since the event of a save is posted by the match branch alone.
* `textsFit_iff`: a run stays inside its buffers exactly when each code it shows has at most
  four digits. The texts of the home page always fit.
-/

set_option autoImplicit false

namespace InfraredModule.Analysis

open InfraredModule.Foundation InfraredModule.Model

/-! ## The length of a text -/

/-- How long a number in decimal is, with the zero behind it. -/
theorem length_itoa_le_iff {value k : ℕ} (hk : 0 < k) :
    (itoa value).length ≤ k + 1 ↔ value < 10 ^ k := by
  rw [itoa, List.length_append, List.length_singleton, Nat.add_le_add_iff_right, textBytes,
    List.length_map]
  exact Nat.length_toDigits_le_iff (by decide) hk

/-- The text of the home page fits `name`, byte for byte. -/
theorem homePageName_fits : homePageName.length ≤ nameSize := by decide

/-- A temperature is a byte, whatever path it came by. -/
theorem homePageTemp_fits (s : Firmware) : (homePageTemp s).length ≤ tempSize := by
  have hbyte : s.nowTemp.toNat < 10 ^ 4 := Nat.lt_of_lt_of_le s.nowTemp.isLt (by decide)
  exact (length_itoa_le_iff (by decide)).mpr hbyte

/-! ## The match reply accepted last -/

/-- The brand code of a match reply. -/
def replyCode (recv : List U8) : U16 := word16 (byteAt recv 4) (byteAt recv 5)

/-- The history variable: the brand code of the match reply accepted last. The match branch calls
back for an accepted reply only, while `recv_match` still holds it. -/
def noteMatch (last : Option U16) (s : Firmware) : Obs → Option U16
  | .callBack _ .sendMatch _ => some (replyCode s.task.recv)
  | _ => last

/-- Its value after the first inputs of a run. -/
def lastMatch (chip : Chip) (page : FlashPage) (beyond : Vector U8 10) (inputs : List ThreadInput) :
    Option U16 :=
  tally (threads chip) (fun last t i => noteAll noteMatch t.fw last (threads chip i t).2)
    ⟨boot page beyond, .skip⟩ none inputs

/-- The call in which `matchCallBack` builds its text. -/
def showsCode : Obs → Bool
  | .callBack .matchCallBack _ result => decide (result = infraredEventSaveOk)
  | _ => false

/-- A call with another result shows no code. -/
theorem not_showsCode {pointer : CallBack} {handled : EventCode} {result : U8}
    (h : result ≠ infraredEventSaveOk) : showsCode (.callBack pointer handled result) = false := by
  cases pointer with
  | matchCallBack => exact decide_eq_false h
  | _ => rfl

/-- An observation that neither records a code nor shows one. -/
def Mute (o : Obs) : Prop := (∀ last s, noteMatch last s o = last) ∧ showsCode o = false

/-- What is plain records and shows no code. -/
theorem mute_of_plain {o : Obs} (h : Plain o) : Mute o := by
  cases o with
  | callBack _ _ _ => exact h.elim
  | _ => exact ⟨fun _ _ => rfl, rfl⟩

/-- A posted event records and shows no code. -/
theorem mute_setEvent (e : InfraredEvent) : Mute (.setEvent e) := ⟨fun _ _ => rfl, rfl⟩

/-- Mute observations leave the history variable. -/
theorem noteAll_mute {obs : List Obs} (h : ∀ o ∈ obs, Mute o) (s : Firmware) (last : Option U16) :
    noteAll noteMatch s last obs = last :=
  noteAll_ignored (fun o ho last => (h o ho).1 last s) last

/-! ## The outline of an iteration -/

/-- The memory with the history variable beside it. -/
abbrev Noted := Firmware × Option U16

/-- A step of another thread, which leaves the history variable. -/
def NotedPeerStep (x y : Noted) : Prop := PeerStep x.1 y.1 ∧ y.2 = x.2

/-- A code is shown only where it is the recorded one. -/
def ShowsLast (x : Noted) (o : Obs) : Prop :=
  showsCode o = true → x.2 = some x.1.moduleInfo.brandCode

/-- The outlines of the task's statements, over the memory with the history variable. -/
abbrev CodeOutline (P : Noted → Prop) (p : FwStmt) (Q : Noted → Prop) : Prop :=
  Stmt.Watched NotedPeerStep ShowsLast P (p.noted noteMatch) Q

/-- Between replies: where the event is the one of a save, its code is the recorded one. While the
cell holds that event the copy holds it too, or has just been cleared. -/
structure Recorded (x : Noted) : Prop where
  copied : x.1.infraredEvent.event = .sendSave →
    x.1.task.infraredEvent.event = .sendSave ∨ x.1.task.infraredEvent.event = .null
  code : x.1.task.infraredEvent.event = .sendSave ∨ x.1.infraredEvent.event = .sendSave →
    x.2 = some x.1.moduleInfo.brandCode

/-- A match reply is being handled: the copy has this event, the cell not the one of a save, and
the brand code is the one of the reply that was copied. -/
def Handling (code : EventCode) (x : Noted) : Prop :=
  x.1.task.infraredEvent.event = code ∧ x.1.infraredEvent.event ≠ .sendSave ∧
    x.1.moduleInfo.brandCode = replyCode x.1.task.recv

/-- A save reply is being handled: the copy has been cleared, and the code is the recorded one. -/
def Saving (x : Noted) : Prop :=
  x.1.task.infraredEvent.event = .null ∧ x.2 = some x.1.moduleInfo.brandCode

/-- The other threads reach neither the task nor the brand code, and post no save. -/
theorem code_peer (p : Peer) (s : Firmware) :
    (peerStep p s).1.task = s.task ∧
      (peerStep p s).1.moduleInfo.brandCode = s.moduleInfo.brandCode ∧
      ((peerStep p s).1.infraredEvent.event = .sendSave → s.infraredEvent.event = .sendSave) := by
  have hcore : core (peerStep p s).1 = core s := core_peerStep p s
  have htask : (core (peerStep p s).1).task = (core s).task := by rw [hcore]
  have hbrand : (core (peerStep p s).1).moduleInfo.brandCode = (core s).moduleInfo.brandCode := by
    rw [hcore]
  refine ⟨htask, hbrand, fun hsave => ?_⟩
  obtain ⟨-, ⟨hkept, -⟩ | ⟨hposted, -⟩⟩ := event_peer p s
  · rw [← hkept]
    exact hsave
  · exact absurd hsave hposted.not_save

section Stable

/-- The other threads keep the assertion between replies. -/
theorem recorded_stable : Stmt.Stable NotedPeerStep Recorded := by
  rintro ⟨s, last⟩ ⟨t, last'⟩ ⟨⟨p, ht⟩, hlast⟩ ⟨hcopied, hcode⟩
  dsimp only at ht hlast hcopied hcode
  subst ht hlast
  obtain ⟨htask, hbrand, hsave⟩ := code_peer p s
  constructor
  · intro hcell
    rw [htask]
    exact hcopied (hsave hcell)
  · intro hevent
    rw [hbrand]
    exact hcode (hevent.imp (fun hcopy => htask ▸ hcopy) hsave)

/-- The other threads keep the assertion of a match reply. -/
theorem handling_stable (code : EventCode) : Stmt.Stable NotedPeerStep (Handling code) := by
  rintro ⟨s, last⟩ ⟨t, last'⟩ ⟨⟨p, ht⟩, hlast⟩ ⟨hcopy, hcell, hstored⟩
  dsimp only at ht hlast hcopy hcell hstored
  subst ht
  obtain ⟨htask, hbrand, hsave⟩ := code_peer p s
  refine ⟨htask ▸ hcopy, fun h => hcell (hsave h), ?_⟩
  dsimp only
  rw [htask, hbrand]
  exact hstored

/-- The other threads keep the assertion of a save reply. -/
theorem saving_stable : Stmt.Stable NotedPeerStep Saving := by
  rintro ⟨s, last⟩ ⟨t, last'⟩ ⟨⟨p, ht⟩, hlast⟩ ⟨hcopy, hcode⟩
  dsimp only at ht hlast hcopy hcode
  subst ht hlast
  obtain ⟨htask, hbrand, -⟩ := code_peer p s
  exact ⟨htask ▸ hcopy, hbrand ▸ hcode⟩

end Stable

section Actions

/-- An action of the task that keeps the assertion between replies. -/
def KeepsRecorded (c : FwCmd) : Prop := ∀ x, Recorded x →
  Recorded (c.noted noteMatch x).1 ∧ ∀ o ∈ (c x.1).2, ShowsLast x o

/-- A mute observation shows no other code. -/
theorem showsLast_of_mute {o : Obs} (h : Mute o) (x : Noted) : ShowsLast x o := fun hshows => by
  rw [h.2] at hshows
  cases hshows

/-- An action with mute observations that leaves both places of the event and the brand code alone. -/
theorem keepsRecorded_of_kept {c : FwCmd} (copy : ∀ s, (c s).1.task.infraredEvent = s.task.infraredEvent)
    (cell : ∀ s, (c s).1.infraredEvent = s.infraredEvent)
    (brand : ∀ s, (c s).1.moduleInfo.brandCode = s.moduleInfo.brandCode)
    (obs : Cmd.Emits Mute c) : KeepsRecorded c := by
  rintro ⟨s, last⟩ ⟨hcopied, hcode⟩
  dsimp only at hcopied hcode
  refine ⟨⟨?_, ?_⟩, fun o ho => showsLast_of_mute (obs s o ho) _⟩
  · dsimp only [Cmd.noted]
    rw [copy, cell]
    exact hcopied
  · dsimp only [Cmd.noted]
    rw [copy, cell, brand, noteAll_mute (obs s)]
    exact hcode

/-- Incidental code keeps the assertion. -/
theorem Incidental.keepsRecorded {c : FwCmd} (h : Incidental c) : KeepsRecorded c :=
  keepsRecorded_of_kept (fun s => congrArg Vital.copy (h.keeps s))
    (fun s => congrArg Vital.cell (h.keeps s)) (fun s => congrArg Vital.brandCode (h.keeps s))
    fun s o ho => mute_of_plain (h.emits s o ho)

/-- The copies of the shared events at a tick keep the assertion. -/
theorem keepsRecorded_sampleEvents : KeepsRecorded sampleEvents := by
  rintro ⟨s, last⟩ ⟨-, hcode⟩
  exact ⟨⟨fun h => .inl h, fun h => hcode (.inr (h.elim id id))⟩, emits_nil⟩

/-- Clearing the copy keeps the assertion. -/
theorem keepsRecorded_clearLocal : KeepsRecorded (setLocalEvent .null) := by
  rintro ⟨s, last⟩ ⟨-, hcode⟩
  refine ⟨⟨fun _ => .inr rfl, fun h => hcode (.inr ?_)⟩, emits_nil⟩
  rcases h with hcopy | hcell
  · cases hcopy
  · exact hcell

/-- Writing the copy back keeps the assertion. -/
theorem keepsRecorded_writeBack : KeepsRecorded writeBack := by
  rintro ⟨s, last⟩ ⟨-, hcode⟩
  exact ⟨⟨fun h => .inl h, fun h => hcode (.inl (h.elim id id))⟩,
    emits_singleton (showsLast_of_mute (mute_setEvent _) _)⟩

/-- The poll of the hub's port keeps the assertion. -/
theorem keepsRecorded_pollUart1 (id : U32) (heap : Heap) : KeepsRecorded (pollUart1 id heap) := by
  refine keepsRecorded_of_kept (fun s => ?_) (fun s => ?_) (fun s => ?_)
    (emits_pollUart1 (fun _ => mute_of_plain) (fun _ _ => ⟨fun _ _ => rfl, rfl⟩)
      (fun _ _ => ⟨fun _ _ => rfl, rfl⟩) id heap)
  all_goals obtain ⟨_, hvital⟩ := vital_pollUart1 id heap s
  · exact congrArg Vital.copy hvital
  · exact congrArg Vital.cell hvital
  · exact congrArg Vital.brandCode hvital

/-- The save keeps the assertion. -/
theorem keepsRecorded_saveFlash : KeepsRecorded saveFlash := by
  have hcopy : Cmd.Keeps (fun s : Firmware => s.task.infraredEvent) saveFlash :=
    keeps_saveFlash fun _ _ _ => rfl
  have hcell : Cmd.Keeps Firmware.infraredEvent saveFlash := keeps_saveFlash fun _ _ _ => rfl
  have hbrand : Cmd.Keeps (fun s : Firmware => s.moduleInfo.brandCode) saveFlash :=
    keeps_saveFlash fun _ _ _ => rfl
  exact keepsRecorded_of_kept hcopy hcell hbrand (emits_saveFlash fun _ => mute_of_plain)

/-- What follows the save keeps the assertion. -/
theorem keepsRecorded_afterSave (id : U32) : (afterSave id).All KeepsRecorded :=
  all_afterSave id (fun _ hc => hc.keepsRecorded) keepsRecorded_clearLocal keepsRecorded_writeBack
    keepsRecorded_sampleEvents
    (keepsRecorded_of_kept (fun _ => rfl) (fun _ => rfl) (fun _ => rfl)
      fun _ => emits_singleton ⟨fun _ _ => rfl, rfl⟩)

/-- The calls of the learn branches. -/
theorem keepsRecorded_learnCall {handled : EventCode} {result : U8} (hhandled : handled ≠ .sendMatch)
    (hresult : result ≠ infraredEventSaveOk) :
    KeepsRecorded (Cmd.emit fun s => [.callBack s.task.infraredEvent.callBack handled result]) := by
  refine keepsRecorded_of_kept (fun _ => rfl) (fun _ => rfl) (fun _ => rfl) fun s => ?_
  refine emits_singleton ⟨fun last t => ?_, ?_⟩
  · cases handled with
    | sendMatch => exact absurd rfl hhandled
    | _ => rfl
  · exact not_showsCode hresult

/-- The learn replies keep the assertion: they are no match, and show no code. -/
theorem keepsRecorded_learnReply {code : EventCode} {result : U8} (hcode : code ≠ .sendMatch)
    (hresult : result ≠ infraredEventSaveOk) : (learnReply code result).All KeepsRecorded := by
  have hpop := incidental_pageReturn.keepsRecorded
  have hcall : (invokeCallBack code result).All KeepsRecorded :=
    ⟨keepsRecorded_learnCall hcode hresult, hpop, trivial⟩
  exact ⟨⟨incidental_copyReply.keepsRecorded, ⟨hcall, keepsRecorded_writeBack, trivial⟩,
    ⟨keepsRecorded_clearLocal, keepsRecorded_writeBack, hpop, trivial⟩, trivial⟩, trivial⟩

end Actions

/-- A statement whose actions keep the assertion has an outline. -/
theorem codeOutline_of_all {p : FwStmt} (h : p.All KeepsRecorded) : CodeOutline Recorded p Recorded :=
  .of_all recorded_stable (Stmt.all_noted h)

/-- An action that keeps the assertion has an outline. -/
theorem codeOutline_act {c : FwCmd} (h : KeepsRecorded c) : CodeOutline Recorded (.act c) Recorded :=
  codeOutline_of_all h

section Replies

/-- A reply has come and the copy has this event. -/
def Answered (code : EventCode) (x : Noted) : Prop :=
  Recorded x ∧ x.1.task.infraredEvent.event = code

/-- The other threads keep the assertion of a reply. -/
theorem answered_stable (code : EventCode) : Stmt.Stable NotedPeerStep (Answered code) := by
  rintro x y hstep ⟨hx, hcopy⟩
  refine ⟨recorded_stable x y hstep hx, ?_⟩
  obtain ⟨⟨p, hy⟩, -⟩ := hstep
  rw [hy, (code_peer p x.1).1]
  exact hcopy

/-- Two outlines in sequence. -/
theorem codeOutline_seq {P M Q : Noted → Prop} {p q : FwStmt} (hp : CodeOutline P p M)
    (hq : CodeOutline M q Q) : CodeOutline P (.seq p q) Q :=
  Stmt.Watched.seq hp hq

/-- The outlines of two branches. -/
theorem codeOutline_ite {P Q : Noted → Prop} {b : Firmware → Bool} {p q : FwStmt}
    (hp : CodeOutline P p Q) (hq : CodeOutline P q Q) : CodeOutline P (.ite b p q) Q :=
  Stmt.Watched.branch hp hq

/-- A test that may skip its statement. -/
theorem codeOutline_when {P Q : Noted → Prop} {b : Firmware → Bool} {p : FwStmt}
    (hp : CodeOutline P p Q) (hskip : ∀ x, P x → Q x) : CodeOutline P (.when b p) Q :=
  codeOutline_ite hp (.done hp.stable hskip)

/-- A `case` label: in its branch the copy has that event. -/
theorem codeOutline_case {code : EventCode} {p q : FwStmt}
    (hp : CodeOutline (Answered code) p Recorded) (hq : CodeOutline Recorded q Recorded) :
    CodeOutline Recorded (.ite (handles code) p q) Recorded :=
  Stmt.Watched.ite recorded_stable (fun _ hx hb => ⟨hx, of_decide_eq_true hb⟩) (fun _ hx _ => hx) hp hq

/-- The code of the reply is stored. The cell cannot hold the event of a save while the copy has
the one of a match. -/
theorem codeOutline_storeBrandCode :
    CodeOutline (Answered .sendMatch) (.act storeBrandCode) (Handling .sendMatch) := by
  refine .act (answered_stable _) (handling_stable _) ?_ fun _ _ => emits_nil
  rintro ⟨s, last⟩ ⟨hx, hcopy⟩
  refine ⟨hcopy, fun hcell => ?_, rfl⟩
  rcases hx.copied hcell with hsave | hnull
  · cases hcopy.symm.trans hsave
  · cases hcopy.symm.trans hnull

/-- The call of the match branch records the code that has just been stored. -/
theorem codeOutline_matchCall :
    CodeOutline (Handling .sendSave) (.act (Cmd.emit fun s =>
      [.callBack s.task.infraredEvent.callBack .sendMatch infraredEventMatchOk])) Recorded := by
  refine .act (handling_stable _) recorded_stable ?_ fun x _ => ?_
  · rintro ⟨s, last⟩ ⟨hcopy, -, hstored⟩
    exact ⟨fun _ => .inl hcopy, fun _ => congrArg some (Eq.symm hstored)⟩
  · refine emits_singleton fun hshows => ?_
    rw [not_showsCode (by decide)] at hshows
    cases hshows

/-- The outline of the match branch, which records the code. -/
theorem codeOutline_matchReply : CodeOutline (Answered .sendMatch) matchReply Recorded := by
  have hcopy : CodeOutline (Answered .sendMatch) (.act copyReply) (Answered .sendMatch) :=
    .act (answered_stable _) (answered_stable _)
      (fun x hx => ⟨(incidental_copyReply.keepsRecorded x hx.1).1, hx.2⟩) fun _ _ => emits_nil
  have hset : CodeOutline (Handling .sendMatch) (.act (setLocalEvent .sendSave))
      (Handling .sendSave) := by
    refine .act (handling_stable _) (handling_stable _) ?_ fun _ _ => emits_nil
    rintro ⟨s, last⟩ ⟨-, hcell, hstored⟩
    exact ⟨rfl, hcell, hstored⟩
  have hpop : CodeOutline Recorded (.act pageReturn) Recorded :=
    codeOutline_act incidental_pageReturn.keepsRecorded
  have hback : CodeOutline Recorded (.block [.act writeBack]) Recorded :=
    codeOutline_of_all ⟨keepsRecorded_writeBack, trivial⟩
  refine codeOutline_when (codeOutline_seq hcopy (codeOutline_when ?_ fun _ hx => hx.1))
    fun _ hx => hx.1
  apply codeOutline_seq codeOutline_storeBrandCode
  apply codeOutline_seq hset
  apply codeOutline_seq
  · exact codeOutline_seq codeOutline_matchCall (codeOutline_when hpop fun _ hx => hx)
  · exact hback

/-- The outline of the save branch, which shows the code. -/
theorem codeOutline_saveReply : CodeOutline (Answered .sendSave) saveReply Recorded := by
  have hset : CodeOutline (Answered .sendSave) (.act (setLocalEvent .null)) Saving := by
    refine .act (answered_stable _) saving_stable ?_ fun _ _ => emits_nil
    rintro ⟨s, last⟩ ⟨hx, hcopy⟩
    exact ⟨rfl, hx.code (.inl hcopy)⟩
  have hcall : CodeOutline Saving (.act (Cmd.emit fun s =>
      [.callBack s.task.infraredEvent.callBack .sendSave infraredEventSaveOk])) Saving := by
    refine .act saving_stable saving_stable (fun x hx => hx) fun x hx => ?_
    exact emits_singleton fun _ => hx.2
  have hpop : CodeOutline Saving (.act pageReturn) Saving := by
    refine .act saving_stable saving_stable (fun x hx => hx) fun x _ => ?_
    exact fun o ho => showsLast_of_mute (mute_of_plain (incidental_pageReturn.emits x.1 o ho)) x
  have hback : CodeOutline Saving (.block [.act writeBack]) Recorded := by
    refine codeOutline_seq (.act saving_stable recorded_stable ?_ fun x _ => ?_)
      (.done recorded_stable fun _ hx => hx)
    · rintro ⟨s, last⟩ ⟨hcopy, hcode⟩
      exact ⟨fun h => .inl h, fun _ => hcode⟩
    · exact emits_singleton (showsLast_of_mute (mute_setEvent _) x)
  refine codeOutline_when ?_ fun _ hx => hx.1
  apply codeOutline_seq hset
  apply codeOutline_seq
  · exact codeOutline_seq hcall (codeOutline_when hpop fun _ hx => hx)
  · exact hback

/-- The outline of the reply branch. -/
theorem codeOutline_uart2Replies : CodeOutline Recorded uart2Replies Recorded := by
  have hlearn : ∀ {code : EventCode} {result : U8}, code ≠ .sendMatch →
      result ≠ infraredEventSaveOk → CodeOutline Recorded (learnReply code result) Recorded :=
    fun hcode hresult => codeOutline_of_all (keepsRecorded_learnReply hcode hresult)
  have hclear : KeepsRecorded (Cmd.modify fun s =>
      { s with uart2Msg := { s.uart2Msg with messageFlag := false } }) :=
    keepsRecorded_of_kept (fun _ => rfl) (fun _ => rfl) (fun _ => rfl) fun _ => emits_nil
  refine codeOutline_when (codeOutline_seq ?_ (codeOutline_act hclear)) fun _ hx => hx
  apply codeOutline_case codeOutline_matchReply
  apply codeOutline_case codeOutline_saveReply
  apply codeOutline_ite (hlearn (by decide) (by decide))
  apply codeOutline_ite (hlearn (by decide) (by decide))
  exact .done recorded_stable fun _ hx => hx

/-- The outline of an iteration. -/
theorem codeOutline_uartIteration (id : U32) (pin : U8) (heap : Heap) :
    CodeOutline Recorded (uartIteration id pin heap) Recorded := by
  have htimers : KeepsRecorded timers :=
    keepsRecorded_of_kept (fun _ => rfl) (fun _ => rfl) (fun _ => rfl) fun _ => emits_nil
  apply codeOutline_seq (codeOutline_act htimers)
  apply codeOutline_seq (codeOutline_act (incidental_checkIo pin).keepsRecorded)
  apply codeOutline_seq (codeOutline_act (keepsRecorded_pollUart1 id heap))
  apply codeOutline_seq codeOutline_uart2Replies
  apply codeOutline_seq (codeOutline_act keepsRecorded_saveFlash)
  exact codeOutline_of_all (keepsRecorded_afterSave id)

end Replies

/-! ## Every interleaving -/

/-- The invariant of the interleaved system: an outline of what remains of the iteration, whose
assertion holds of the memory and the history variable now. -/
def Tracked (t : Threads) (last : Option U16) : Prop :=
  ∃ P, CodeOutline P t.rest Recorded ∧ P (t.fw, last)

/-- One step of any thread keeps the invariant, and shows no other code. -/
theorem tracked_step (chip : Chip) (i : ThreadInput) {t : Threads} {last : Option U16}
    (h : Tracked t last) :
    Tracked (threads chip i t).1 (noteAll noteMatch t.fw last (threads chip i t).2) ∧
      ∀ o ∈ (threads chip i t).2, ShowsLast (t.fw, last) o := by
  obtain ⟨P, hout, hP⟩ := h
  cases i with
  | peer p =>
    have hmute : ∀ o ∈ (threads chip (.peer p) t).2, Mute o :=
      emits_peer (fun _ => mute_of_plain) mute_setEvent p t.fw
    have hstep : NotedPeerStep (t.fw, last) ((peerStep p t.fw).1, last) := ⟨⟨p, rfl⟩, rfl⟩
    rw [noteAll_mute hmute]
    refine ⟨⟨P, hout, hout.stable _ _ hstep hP⟩, fun o ho => ?_⟩
    exact showsLast_of_mute (hmute o ho) _
  | start pin heap =>
    rcases threads_start chip pin heap t with ⟨hrest, hstart⟩ | hstart
    · -- the iteration before has ended, so its postcondition holds
      rw [hrest] at hout
      rw [hstart]
      exact ⟨⟨_, codeOutline_uartIteration (readUniqueId chip) pin heap, hout.post hP⟩, emits_nil⟩
    · rw [hstart]
      exact ⟨⟨P, hout, hP⟩, emits_nil⟩
  | action =>
    have hnext := hout.next hP
    rw [Stmt.next_noted] at hnext
    exact ⟨hnext.2, hnext.1⟩

/-- After power-on nothing is recorded, and no event of a save is there. -/
theorem tracked_boot (page : FlashPage) (beyond : Vector U8 10) :
    Tracked ⟨boot page beyond, .skip⟩ none := by
  have hrecorded : Recorded (boot page beyond, none) := by
    constructor
    · intro hcell
      cases hcell
    · rintro (hcopy | hcell)
      · cases hcopy
      · cases hcell
  exact ⟨Recorded, .done recorded_stable fun _ hx => hx, hrecorded⟩

/-- **The code shown is the one learned last.** In every interleaving, when `matchCallBack` shows
the brand code of a saved match, that code is the one of the match reply accepted last.
SOURCE: Uart.c:306-334, OledPage.c:344-361 -/
theorem shown_eq_lastMatch (chip : Chip) (page : FlashPage) (beyond : Vector U8 10)
    (inputs : List ThreadInput) :
    Along (threads chip) ⟨boot page beyond, .skip⟩ inputs fun before t i =>
      ∀ o ∈ (threads chip i t).2, showsCode o = true →
        lastMatch chip page beyond before = some t.fw.moduleInfo.brandCode := by
  refine along_of_invariant (fun before t => Tracked t (lastMatch chip page beyond before))
    (fun _ _ _ => True) _ (tracked_boot page beyond) (fun before i h _ => ?_)
    (fun before i h _ => (tracked_step chip i h).2) fun _ _ _ _ => trivial
  have hlast : lastMatch chip page beyond (before ++ [i]) = _ := tally_concat _ _ _ _ _ _
  rw [hlast]
  exact (tracked_step chip i h).1

/-- A run that stays inside its text buffers: where a code is shown its text fits `brand_code`, and
in every state the texts of the home page fit `name` and `temp`. -/
def TextsFit (chip : Chip) (page : FlashPage) (beyond : Vector U8 10) (inputs : List ThreadInput) :
    Prop :=
  Along (threads chip) ⟨boot page beyond, .skip⟩ inputs fun _ t i =>
    (∀ o ∈ (threads chip i t).2, showsCode o = true →
      (matchCallBackCode t.fw).length ≤ brandCodeSize) ∧
      homePageName.length ≤ nameSize ∧ (homePageTemp t.fw).length ≤ tempSize

/-- **Texts and their buffers.** A run stays inside its text buffers exactly when, at every save
reply that is reported, the match reply accepted last had a brand code of at most four digits.
SOURCE: OledPage.c:38-55, 321-361, Uart.c:306-334 -/
theorem textsFit_iff (chip : Chip) (page : FlashPage) (beyond : Vector U8 10)
    (inputs : List ThreadInput) :
    TextsFit chip page beyond inputs ↔
      Along (threads chip) ⟨boot page beyond, .skip⟩ inputs fun before t i =>
        ∀ o ∈ (threads chip i t).2, showsCode o = true →
          ∃ code, lastMatch chip page beyond before = some code ∧ code.toNat < 10000 := by
  have hshown := shown_eq_lastMatch chip page beyond inputs
  constructor
  · intro hfit before i after hin o ho hshows
    refine ⟨_, hshown before i after hin o ho hshows, ?_⟩
    exact (length_itoa_le_iff (by decide)).mp ((hfit before i after hin).1 o ho hshows)
  · intro hcode before i after hin
    refine ⟨fun o ho hshows => ?_, homePageName_fits, homePageTemp_fits _⟩
    obtain ⟨code, hlast, hsmall⟩ := hcode before i after hin o ho hshows
    rw [hshown before i after hin o ho hshows] at hlast
    cases hlast
    exact (length_itoa_le_iff (by decide)).mpr hsmall

/-- From power-on to the match page and to the tick that sends the match command; then a match reply
with the code `0x2710`, which is 10000, and the reply to the save command. -/
def savesTenThousand : List ThreadInput :=
  [.peer .oledIteration, .peer (.enterBtn .shortPress), .peer .oledIteration,
    .peer .oledIteration, .peer (.dowmBtn .shortPress), .peer (.enterBtn .shortPress),
    .peer .oledIteration, .peer .oledIteration] ++ alone 21 ++
    [.peer (.uart2Burst [0xAA, 0x55, 0x04, 0x41, 0x27, 0x10, 0x8D])] ++ alone 1 ++
    [.peer (.uart2Burst savedReply)] ++ alone 1

/-- Five digits and the NUL do not fit five bytes. -/
theorem not_textsFit_tenThousand :
    ¬ TextsFit ⟨0, 0, 0⟩ (Vector.replicate 12 0xFF) (Vector.replicate 10 0) savesTenThousand := by
  unfold TextsFit
  decide +kernel

end InfraredModule.Analysis
