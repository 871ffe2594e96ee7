import InfraredModule.Analysis.Buffers

/-!
# What survives a reboot

At the end of an iteration the flash page either holds the record the serial task saved last,
or was never written since power-on (`PageInv`); and the brand code, the address and the mode
agree with the task's copy (`synced_iteration`). From these, `persists_iff` gives the exact
cuts after which the three are found again: the check stored in the page is compared at boot
with the check of ten bytes that lie behind `module_info`, not in it, and the task's copy
starts as all zeros instead of as the page. `validated_iff` says for which pages the check at
boot does what it is for all the same.
-/

set_option autoImplicit false

namespace InfraredModule.Analysis

open InfraredModule.Foundation InfraredModule.Model

/-! ## Start-up -/

section Boot

variable (page : FlashPage) (beyond : Vector U8 10)

/-- The brand code after the start is the one in the page. -/
theorem bootModuleInfo_brandCode :
    (bootModuleInfo page beyond).brandCode = (getDataFromFlash page).brandCode := by
  simp only [bootModuleInfo, initModuleInfo]
  split <;> rfl

/-- The mode after the start is the one in the page, normalised. -/
theorem bootModuleInfo_select :
    (bootModuleInfo page beyond).select = normaliseSelect (getDataFromFlash page).select := by
  simp only [bootModuleInfo, initModuleInfo]
  split <;> rfl

/-- The type after the start is the type of the module. -/
theorem bootModuleInfo_type : (bootModuleInfo page beyond).type = infraredType := rfl

/-- The address is kept only when the ten bytes behind `module_info` have the stored check. -/
theorem bootModuleInfo_addr :
    (bootModuleInfo page beyond).addr =
      if usModbusRtuCrc beyond.toList 10 = (getDataFromFlash page).crc then
        (getDataFromFlash page).addr
      else 1 := by
  simp only [bootModuleInfo, initModuleInfo]
  by_cases h : usModbusRtuCrc beyond.toList 10 = (getDataFromFlash page).crc
  · simp only [h, ne_eq, not_true, if_false, if_true]
  · simp only [h, ne_eq, not_false_iff, if_true, if_false]

end Boot

/-- Normalising leaves one of the two modes. -/
theorem normaliseSelect_cases (select : U8) :
    normaliseSelect select = selectMatch ∨ normaliseSelect select = selectLearn := by
  unfold normaliseSelect
  split
  · exact .inl rfl
  · rename_i h
    by_cases hmatch : select = selectMatch
    · exact .inl hmatch
    · exact .inr (by_contra fun hlearn => h ⟨hmatch, hlearn⟩)

/-- Normalising leaves a mode. -/
theorem normaliseSelect_of_mode {select : U8} (h : select = selectMatch ∨ select = selectLearn) :
    normaliseSelect select = select := by
  rcases h with rfl | rfl <;> rfl

/-! ## The page and the task's copy -/

/-- What the invariant of the page looks at. -/
def pageView (s : Firmware) : U16 × U8 × U8 × ModuleInfo × FlashPage :=
  (s.moduleInfo.crc, s.moduleInfo.type, s.moduleInfo.select, s.task.modulePre, s.flash)

/-- The invariant: the mode is one of the two, and the page was never written or holds the task's
copy, with the check `module_info` still has. -/
structure PageInv (page : FlashPage) (s : Firmware) : Prop where
  select : s.moduleInfo.select = selectMatch ∨ s.moduleInfo.select = selectLearn
  type : s.moduleInfo.type = infraredType
  stored : (s.task.modulePre = ModuleInfo.zero ∧ s.flash = page) ∨
    (s.task.modulePre.type = infraredType ∧ s.flash = s.task.modulePre.toBytes ∧
      s.task.modulePre.crc = s.moduleInfo.crc)

/-- The invariant depends on its view of the state only. -/
theorem PageInv.congr {page : FlashPage} {s t : Firmware} (h : PageInv page s)
    (hview : pageView t = pageView s) : PageInv page t := by
  simp only [pageView, Prod.mk.injEq] at hview
  obtain ⟨hcrc, htype, hselect, hpre, hflash⟩ := hview
  exact ⟨hselect ▸ h.select, htype ▸ h.type, by rw [hcrc, hpre, hflash]; exact h.stored⟩

/-- The invariant holds after power-on. -/
theorem pageInv_boot (page : FlashPage) (beyond : Vector U8 10) : PageInv page (boot page beyond) where
  select := by
    show (bootModuleInfo page beyond).select = _ ∨ (bootModuleInfo page beyond).select = _
    rw [bootModuleInfo_select]
    exact normaliseSelect_cases _
  type := bootModuleInfo_type page beyond
  stored := .inl ⟨rfl, rfl⟩

/-- The task's copy agrees with `module_info` in what is saved. -/
def Synced (s : Firmware) : Prop :=
  s.task.modulePre.brandCode = s.moduleInfo.brandCode ∧
    s.task.modulePre.addr = s.moduleInfo.addr ∧ s.task.modulePre.select = s.moduleInfo.select

/-- After the comparison with the copy the page is up to date.
SOURCE: Uart.c:384-391 -/
theorem saveFlash_synced {page : FlashPage} {s : Firmware} (h : PageInv page s) :
    PageInv page (saveFlash s).1 ∧ Synced (saveFlash s).1 := by
  unfold saveFlash
  split
  · exact ⟨⟨h.select, h.type, .inr ⟨h.type, setDataToFlah_eq _ _, rfl⟩⟩, rfl, rfl, rfl⟩
  · rename_i hsame
    simp only [ne_eq, not_or, not_not] at hsame
    exact ⟨h, hsame⟩

/-- Nothing before the comparison touches the page or the copy. -/
theorem keeps_pageView_beforeSave (id : U32) (pin : U8) (heap : Heap) :
    Cmd.Keeps pageView (beforeSave id pin heap) := by
  have hview : ∀ s t : Firmware, vital t = vital s → pageView t = pageView s := fun s t h =>
    congrArg (fun v : Vital => (v.crc, v.type, v.select, v.modulePre, v.flash)) h
  have hpoll : Cmd.Keeps pageView (pollUart1 id heap) := fun s => by
    obtain ⟨addr, h⟩ := vital_pollUart1 id heap s
    exact congrArg (fun v : Vital => (v.crc, v.type, v.select, v.modulePre, v.flash)) h
  refine .andThen (fun _ => rfl) (.andThen (fun s => hview _ _ ((incidental_checkIo pin).keeps s))
    (.andThen hpoll (Stmt.keeps_exec ?_)))
  exact all_uart2Replies (fun c hc s => hview _ _ (hc.keeps s)) (fun _ _ => rfl) (fun _ => rfl)
    (fun _ => rfl) (fun _ _ _ => rfl) fun _ => rfl

/-- What follows the save leaves the page, and what is saved in it. -/
theorem keeps_afterSave (id : U32) :
    Cmd.Keeps (fun s => (pageView s, s.moduleInfo.brandCode, s.moduleInfo.addr))
      (afterSave id).exec := by
  refine Stmt.keeps_exec (all_afterSave id (fun c hc s => ?_) (fun _ => rfl) (fun _ => rfl)
    (fun _ => rfl) fun _ => rfl)
  exact congrArg (fun v : Vital => ((v.crc, v.type, v.select, v.modulePre, v.flash), v.brandCode, v.addr))
    (hc.keeps s)

/-- **One iteration.** It keeps the invariant, and at its end the copy agrees. -/
theorem synced_iteration {page : FlashPage} {s : Firmware} (h : PageInv page s) (chip : Chip)
    (pin : U8) (heap : Heap) :
    PageInv page (firmware chip (.iteration pin heap) s).1 ∧
      Synced (firmware chip (.iteration pin heap) s).1 := by
  have hparts : (firmware chip (.iteration pin heap) s).1 = ((afterSave (readUniqueId chip)).exec
      (saveFlash (beforeSave (readUniqueId chip) pin heap s).1).1).1 := by
    simp only [firmware, exec_uartIteration, Cmd.andThen_apply]
  have hbefore := h.congr (keeps_pageView_beforeSave (readUniqueId chip) pin heap s)
  obtain ⟨hinv, hsync⟩ := saveFlash_synced hbefore
  rw [hparts]
  generalize (saveFlash (beforeSave (readUniqueId chip) pin heap s).1).1 = t at hinv hsync ⊢
  have hafter := keeps_afterSave (readUniqueId chip) t
  simp only [Prod.mk.injEq] at hafter
  obtain ⟨hview, hbrand, haddr⟩ := hafter
  refine ⟨hinv.congr hview, ?_⟩
  simp only [pageView, Prod.mk.injEq] at hview
  obtain ⟨-, -, hselect, hpre, -⟩ := hview
  rw [Synced, hbrand, haddr, hselect, hpre]
  exact hsync

/-- A step of a peer keeps the invariant: it selects one of the two modes, if any. -/
theorem pageInv_peer {page : FlashPage} {s : Firmware} (h : PageInv page s) (p : Peer) :
    PageInv page (peerStep p s).1 := by
  rcases peer_cases p with ⟨bytes, rfl⟩ | ⟨bytes, rfl⟩ | hposts
  · exact h.congr (congrArg (fun v : Vital => (v.crc, v.type, v.select, v.modulePre, v.flash))
      (vital_uart1Burst bytes s))
  · exact h.congr (congrArg (fun v : Vital => (v.crc, v.type, v.select, v.modulePre, v.flash))
      (vital_uart2Burst bytes s))
  · obtain ⟨_, select, hvital, hmode, -⟩ := hposts s
    have hcrc : (peerStep p s).1.moduleInfo.crc = s.moduleInfo.crc := congrArg Vital.crc hvital
    have htype : (peerStep p s).1.moduleInfo.type = s.moduleInfo.type := congrArg Vital.type hvital
    have hselect : (peerStep p s).1.moduleInfo.select = select := congrArg Vital.select hvital
    have hpre : (peerStep p s).1.task.modulePre = s.task.modulePre :=
      congrArg Vital.modulePre hvital
    have hflash : (peerStep p s).1.flash = s.flash := congrArg Vital.flash hvital
    refine ⟨?_, htype ▸ h.type, by rw [hcrc, hpre, hflash]; exact h.stored⟩
    rw [hselect]
    rcases hmode with rfl | hmode
    · exact h.select
    · exact hmode

/-- The invariant holds after every run. -/
theorem pageInv_run (chip : Chip) (page : FlashPage) (beyond : Vector U8 10) (inputs : List Input) :
    PageInv page (run (firmware chip) (boot page beyond) inputs) := by
  refine run_invariant (fun _ s => PageInv page s) (fun _ _ _ => True) (pageInv_boot page beyond) ?_
    (fun _ _ _ _ => trivial)
  intro before i h _
  cases i with
  | peer p => exact pageInv_peer h p
  | iteration pin heap => exact (synced_iteration h chip pin heap).1

/-! ## The cut -/

/-- The brand code, the address and the mode after a start from the page of `s`, with `beyond` behind
`module_info`, are those of `s`. -/
def Persists (s : Firmware) (beyond : Vector U8 10) : Prop :=
  (bootModuleInfo s.flash beyond).brandCode = s.moduleInfo.brandCode ∧
    (bootModuleInfo s.flash beyond).addr = s.moduleInfo.addr ∧
    (bootModuleInfo s.flash beyond).select = s.moduleInfo.select

instance (s : Firmware) (beyond : Vector U8 10) : Decidable (Persists s beyond) :=
  inferInstanceAs (Decidable (_ ∧ _ ∧ _))

/-- **What survives a cut at the end of an iteration.** For every page and every memory behind
`module_info` at power-on, every run and every memory there at the next start: the brand code,
the address and the mode are found again exactly when

* the ten bytes behind `module_info` have the check that is stored in the page, or the address is
  1; and
* the page was written in this run, or it holds brand code 0, address 0 and mode 0 already.

SOURCE: Uart.c:59-74, 228-244, 383-391, module.c:222-231 -/
theorem persists_iff (chip : Chip) (page : FlashPage) (beyond : Vector U8 10) (inputs : List Input)
    (pin : U8) (heap : Heap) (beyond' : Vector U8 10) :
    let s := run (firmware chip) (boot page beyond) (inputs ++ [.iteration pin heap])
    Persists s beyond' ↔
      (usModbusRtuCrc beyond'.toList 10 = (getDataFromFlash s.flash).crc ∨ s.moduleInfo.addr = 1) ∧
      (s.task.modulePre ≠ ModuleInfo.zero ∨ (getDataFromFlash page).brandCode = 0 ∧
        (getDataFromFlash page).addr = 0 ∧
        normaliseSelect (getDataFromFlash page).select = selectMatch) := by
  intro s
  have hs : s = (firmware chip (.iteration pin heap)
      (run (firmware chip) (boot page beyond) inputs)).1 := by
    rw [show s = _ from run_append _ _ inputs _]
    rfl
  obtain ⟨hinv, hbrand, haddr, hselect⟩ :=
    synced_iteration (pageInv_run chip page beyond inputs) chip pin heap
  rw [← hs] at hinv hbrand haddr hselect
  rw [Persists, bootModuleInfo_brandCode, bootModuleInfo_addr, bootModuleInfo_select]
  rcases hinv.stored with ⟨hpre, hflash⟩ | ⟨htype, hflash, -⟩
  · -- never written: everything compared equal to the zeros of the copy
    rw [hpre] at hbrand haddr hselect
    rw [hflash, ← hbrand, ← haddr, ← hselect, hpre]
    simp only [ne_eq, not_true, false_or, ModuleInfo.zero, show ¬ (0 : U8) = 1 by decide, or_false]
    by_cases hcrc : usModbusRtuCrc beyond'.toList 10 = (getDataFromFlash page).crc
    · simp only [hcrc, if_true, true_and]
      rfl
    · simp only [hcrc, if_false, false_and, show ¬ (1 : U8) = 0 by decide, and_false]
  · -- written: the page is the copy, which agrees with `module_info`
    have hpre : s.task.modulePre ≠ ModuleInfo.zero := fun h => by
      rw [h] at htype
      exact absurd htype (by decide)
    have hmode : normaliseSelect s.task.modulePre.select = s.moduleInfo.select := by
      rw [hselect]
      exact normaliseSelect_of_mode hinv.select
    have hpage : getDataFromFlash s.flash = s.task.modulePre := by
      rw [hflash]
      exact ModuleInfo.ofBytes_toBytes _
    rw [hpage, hbrand, haddr, hmode]
    simp only [hpre, ne_eq, not_false_iff, true_or, and_true, true_and]
    by_cases hcrc : usModbusRtuCrc beyond'.toList 10 = s.task.modulePre.crc
    · simp only [hcrc, if_true, true_or]
    · simp only [hcrc, if_false, false_or]
      exact eq_comm

/-- The hub sets the address to 5 and the page is written. At the next start one byte behind
`module_info` is another one, and the module has address 1. -/
theorem address_lost :
    let s := run (firmware ⟨0, 0, 0⟩) (boot (Vector.replicate 12 0xFF) (Vector.replicate 10 0))
      [.peer (.uart1Burst [0x01, 0x06, 0x00, 0x06, 0x00, 0x05, 0xA9, 0xC8]), .iteration 1 Heap.ample]
    let beyond : Vector U8 10 := #v[0x01, 0, 0, 0, 0, 0, 0, 0, 0, 0]
    s.moduleInfo.addr = 0x05 ∧ s.flash = s.moduleInfo.toBytes ∧
      (bootModuleInfo s.flash beyond).addr = 0x01 ∧ ¬ Persists s beyond := by
  decide +kernel

/-! ## The check at start-up -/

/-- The ten bytes of the record that its check is meant for. -/
def body (m : ModuleInfo) : List U8 := m.toBytes.toList.drop 2

/-- What `initModuleInfo` is for, on the record loaded from a page: a record whose check fails is
reset, one whose check passes is kept, the check is right afterwards, and nothing but the record
is written. -/
structure Validated (page : FlashPage) (beyond : Vector U8 10) : Prop where
  reset : (getDataFromFlash page).crc ≠ usModbusRtuCrc (body (getDataFromFlash page)) 10 →
    (initModuleInfo (getDataFromFlash page) beyond).1.addr = 1 ∧
      (initModuleInfo (getDataFromFlash page) beyond).1.brandCode = 0 ∧
      (initModuleInfo (getDataFromFlash page) beyond).1.ctrl = 0 ∧
      (initModuleInfo (getDataFromFlash page) beyond).1.select = 0
  kept : (getDataFromFlash page).crc = usModbusRtuCrc (body (getDataFromFlash page)) 10 →
    (initModuleInfo (getDataFromFlash page) beyond).1.addr = (getDataFromFlash page).addr ∧
      (initModuleInfo (getDataFromFlash page) beyond).1.brandCode = (getDataFromFlash page).brandCode ∧
      (initModuleInfo (getDataFromFlash page) beyond).1.ctrl = (getDataFromFlash page).ctrl ∧
      (initModuleInfo (getDataFromFlash page) beyond).1.select = (getDataFromFlash page).select
  check : (initModuleInfo (getDataFromFlash page) beyond).1.crc =
    usModbusRtuCrc (body (initModuleInfo (getDataFromFlash page) beyond).1) 10
  inside : ∀ i ∈ initModuleInfoStores (getDataFromFlash page) beyond, i < 12

/-- A reset clears memory behind the record. -/
theorem initModuleInfoStores_inside_iff (m : ModuleInfo) (beyond : Vector U8 10) :
    (∀ i ∈ initModuleInfoStores m beyond, i < 12) ↔ usModbusRtuCrc beyond.toList 10 = m.crc := by
  unfold initModuleInfoStores
  by_cases hcrc : usModbusRtuCrc beyond.toList 10 = m.crc
  · rw [if_neg (not_not.mpr hcrc)]
    exact iff_of_true (by decide) hcrc
  · rw [if_pos hcrc]
    refine iff_of_false (fun hall => ?_) hcrc
    exact absurd (hall 24 (by simp [mem_bytesFrom])) (by decide)

/-- When the bytes behind the record have the check stored in it, the record is kept, with the type and the
registration state set. -/
theorem initModuleInfo_of_eq {m : ModuleInfo} {beyond : Vector U8 10}
    (h : usModbusRtuCrc beyond.toList 10 = m.crc) :
    (initModuleInfo m beyond).1 = { m with type := infraredType, registerState := registerNull } := by
  simp only [initModuleInfo, h, ne_eq, not_true, if_false]

/-- **The check at start-up.** For every page and every memory behind the record, `initModuleInfo`
does what it is for exactly when

* the ten bytes behind the record have the check that is stored in the page;
* that check is the one of the record with the type and the registration state set as they are
  set at start-up; and
* if it is not the check of the record as it was stored, the record holds address 1, brand code
  0, control word 0 and mode 0 already.

SOURCE: Uart.c:59-74 -/
theorem validated_iff (page : FlashPage) (beyond : Vector U8 10) :
    let m := getDataFromFlash page
    Validated page beyond ↔
      usModbusRtuCrc beyond.toList 10 = m.crc ∧
      m.crc = usModbusRtuCrc (body { m with type := infraredType, registerState := registerNull }) 10 ∧
      (m.crc ≠ usModbusRtuCrc (body m) 10 →
        m.addr = 1 ∧ m.brandCode = 0 ∧ m.ctrl = 0 ∧ m.select = 0) := by
  intro m
  constructor
  · intro h
    have hcrc := (initModuleInfoStores_inside_iff m beyond).mp h.inside
    have hinit := initModuleInfo_of_eq hcrc
    have hcheck := h.check
    have hreset := h.reset
    rw [show initModuleInfo (getDataFromFlash page) beyond = initModuleInfo m beyond from rfl, hinit]
      at hcheck hreset
    exact ⟨hcrc, hcheck, hreset⟩
  · rintro ⟨hcrc, hcheck, hreset⟩
    have hinit : (initModuleInfo (getDataFromFlash page) beyond).1 =
        { m with type := infraredType, registerState := registerNull } := initModuleInfo_of_eq hcrc
    refine ⟨?_, ?_, ?_, (initModuleInfoStores_inside_iff m beyond).mpr hcrc⟩
    · rw [hinit]
      exact hreset
    · rw [hinit]
      exact fun _ => ⟨rfl, rfl, rfl, rfl⟩
    · rw [hinit]
      exact hcheck

/-- A page with a check that passes, and ten zero bytes behind the record: the address 5 is lost, and
the bytes behind the record are written. -/
theorem valid_page_reset :
    let page : FlashPage := #v[0xE0, 0x4B, 0x05, 0xB4, 0x02, 0x00, 0x24, 0x00, 0x00, 0xE0, 0x01, 0x00]
    let beyond : Vector U8 10 := Vector.replicate 10 0
    (getDataFromFlash page).crc = usModbusRtuCrc (body (getDataFromFlash page)) 10 ∧
      (initModuleInfo (getDataFromFlash page) beyond).1.addr = 1 ∧
      24 ∈ initModuleInfoStores (getDataFromFlash page) beyond ∧ ¬ Validated page beyond := by
  intro page beyond
  have hstored : 24 ∈ initModuleInfoStores (getDataFromFlash page) beyond := by decide +kernel
  exact ⟨by decide +kernel, by decide +kernel, hstored, fun h => absurd (h.inside 24 hstored) (by decide)⟩

end InfraredModule.Analysis
