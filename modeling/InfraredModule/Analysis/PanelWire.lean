import InfraredModule.Analysis.Framebuffer
import InfraredModule.Interface.Panel

/-!
# What the display receives

The bytes that are clocked out by hand arrive as they were sent, with the mode of a command or of
data (`run_writeCommand`, `run_writeData`). `ST7567_UpdateScreen` leaves the framebuffer in the
display memory, whatever was there and wherever the address stood (`run_updateScreen`), and over any
sequence of calls of the driver the glass shows the image of the last refresh, inverted as the
driver believes (`glass_agrees`).
-/

set_option autoImplicit false

namespace InfraredModule.Analysis

open InfraredModule.Foundation InfraredModule.Foundation.ClockedLine InfraredModule.Model
  InfraredModule.Interface

/-! ## Bytes on the line -/

/-- The bits of a byte, the highest first. -/
def bitsOfByte (b : U8) : List Bool := (List.range 8).map b.getMsbD

/-- The test of the loop is the highest bit. -/
theorem test_high_bit (b : U8) : decide (b &&& 0x80 ≠ 0) = b.getMsbD 0 := by
  have hpower : (0x80 : U8) = BitVec.twoPow 8 7 := rfl
  have hmsb : b.getMsbD 0 = b.getLsbD 7 := by simp [BitVec.getMsbD]
  rw [hmsb, hpower, BitVec.and_twoPow]
  cases b.getLsbD 7 <;> simp

/-- After as many shifts as rounds have passed, the bit tested is the next one. -/
theorem transmitRounds_eq (n : ℕ) (dat : U8) :
    transmitRounds n dat = (((List.range n).map dat.getMsbD).flatMap sendBit).map .line := by
  induction n generalizing dat with
  | zero => rfl
  | succ n ih =>
    have hshift : (List.range n).map (dat <<< 1).getMsbD = (List.range n).map fun k => dat.getMsbD (k + 1) := by
      apply List.map_congr_left
      intro k _
      rw [BitVec.getMsbD_shiftLeft]
    rw [transmitRounds, ih, hshift, test_high_bit, List.range_succ_eq_map, List.map_cons, List.flatMap_cons,
      List.map_append, List.map_map]
    rfl

/-- The loop of `ST7567_TransmitByte` sends the bits of the byte. -/
theorem st7567TransmitByte_eq (b : U8) : st7567TransmitByte b = (sendWord (bitsOfByte b)).map .line := by
  rw [st7567TransmitByte, transmitRounds_eq, sendWord, bitsOfByte]
  simp only [List.cons_append, List.map_cons, List.map_append, List.map_nil]
  rfl

/-- A byte from its bits. -/
theorem byteOfBits_bitsOfByte (b : U8) : byteOfBits (bitsOfByte b) = b := by
  have hall : ∀ n < 256, byteOfBits (bitsOfByte (BitVec.ofNat 8 n)) = BitVec.ofNat 8 n := by
    decide +kernel
  have hb := hall b.toNat b.isLt
  rwa [BitVec.ofNat_toNat, BitVec.setWidth_eq] at hb

/-- A byte has eight bits. -/
theorem length_bitsOfByte (b : U8) : (bitsOfByte b).length = 8 := by
  rw [bitsOfByte, List.length_map, List.length_range]

/-- A byte has a bit. -/
theorem bitsOfByte_ne_nil (b : U8) : bitsOfByte b ≠ [] := by
  intro h
  have := length_bitsOfByte b
  rw [h] at this
  cases this

/-! ## The display at the wires -/

variable {pages : U8 → ℕ}

/-- The display after two sequences of levels. -/
theorem Display.run_append (d : Display) (xs ys : List PanelDrive) :
    d.run pages (xs ++ ys) = (d.run pages xs).run pages ys := List.foldl_append

/-- Drives of the line alone. -/
theorem Display.run_line (d : Display) (ds : List Drive) :
    d.run pages (ds.map .line) =
      ⟨(d.receiver.run 8 ds).1, (d.receiver.run 8 ds).2.foldl (Panel.take pages) d.panel⟩ := by
  induction ds generalizing d with
  | nil => rfl
  | cons e ds ih =>
    show (d.step pages (.line e)).run pages (ds.map .line) = _
    rw [ih]
    simp only [Display.step, Receiver.run, List.foldl_append]

/-- No word is begun, and the mode is that of data. -/
structure Awake (d : Display) : Prop where
  begun : d.receiver.bits = []
  mode : d.receiver.mode = true

/-- A command arrives, whatever the levels of the wires were. -/
theorem run_writeCommand {d : Display} (h : d.receiver.bits = []) (b : U8) :
    ∃ d', d.run pages (st7567WriteCommand b) = d' ∧ Awake d' ∧ d'.panel = d.panel.command pages b := by
  obtain ⟨r', hrun, hbegun, hmode⟩ :=
    receive_mode h (bitsOfByte_ne_nil b) (length_bitsOfByte b) false true
  have hdrives : st7567WriteCommand b =
      ((Wire.mode, false) :: sendWord (bitsOfByte b) ++ [(Wire.mode, true)]).map .line := by
    rw [st7567WriteCommand, st7567TransmitByte_eq]
    simp only [List.cons_append, List.map_cons, List.map_append, List.map_nil]
    rfl
  refine ⟨_, rfl, ?_, ?_⟩
  · rw [hdrives, Display.run_line, hrun]
    exact ⟨hbegun, hmode⟩
  · rw [hdrives, Display.run_line, hrun]
    simp [Panel.take, byteOfBits_bitsOfByte]

/-- A data byte arrives. -/
theorem run_writeData {d : Display} (h : Awake d) (b : U8) :
    ∃ d', d.run pages (st7567WriteData b) = d' ∧ Awake d' ∧ d'.panel = d.panel.write b := by
  obtain ⟨r', hrun, hbegun, hmode⟩ :=
    receive_sendWord h.begun (bitsOfByte_ne_nil b) (length_bitsOfByte b)
  refine ⟨_, rfl, ?_, ?_⟩
  · rw [st7567WriteData, st7567TransmitByte_eq, Display.run_line, hrun]
    exact ⟨hbegun, hmode.trans h.mode⟩
  · rw [st7567WriteData, st7567TransmitByte_eq, Display.run_line, hrun]
    simp [Panel.take, h.mode, byteOfBits_bitsOfByte]

/-- What an observation of the driver means for the controller. -/
def Panel.sees (pages : U8 → ℕ) (p : Panel) : ScreenObs → Panel
  | .command b => p.command pages b
  | .data b => p.write b
  | _ => p

/-- **Nothing is lost or changed on the wires**: a sequence of commands and data arrives in order. -/
theorem run_drives {d : Display} (h : Awake d) (out : List ScreenObs) :
    Awake (d.run pages (out.flatMap ScreenObs.drives)) ∧
      (d.run pages (out.flatMap ScreenObs.drives)).panel = out.foldl (Panel.sees pages) d.panel := by
  induction out generalizing d with
  | nil => exact ⟨h, rfl⟩
  | cons o out ih =>
    rw [List.flatMap_cons, Display.run_append, List.foldl_cons]
    have hstep : Awake (d.run pages o.drives) ∧ (d.run pages o.drives).panel = Panel.sees pages d.panel o := by
      cases o with
      | command b =>
        obtain ⟨d', rfl, hawake, hpanel⟩ := run_writeCommand h.begun b
        exact ⟨hawake, hpanel⟩
      | data b =>
        obtain ⟨d', rfl, hawake, hpanel⟩ := run_writeData h b
        exact ⟨hawake, hpanel⟩
      | pixel x y color => exact ⟨h, rfl⟩
      | access i => exact ⟨h, rfl⟩
      | err v => exact ⟨h, rfl⟩
    rw [← hstep.2]
    exact ih hstep.1

/-- Observations that send nothing do not matter to the controller. -/
theorem foldl_sees_sent (out : List ScreenObs) (p : Panel) :
    out.foldl (Panel.sees pages) p = (sent out).foldl (Panel.sees pages) p := by
  induction out generalizing p with
  | nil => rfl
  | cons o out ih =>
    rw [List.foldl_cons, ih]
    cases o <;> rfl

/-! ## A refresh -/

/-- The display memory after a data byte. -/
theorem ram_write (b : U8) (p : Panel) (k j : ℕ) :
    (p.write b).ram k j = if k = p.page ∧ j = p.column then b else p.ram k j := by
  show Function.update p.ram p.page (Function.update (p.ram p.page) p.column b) k j = _
  by_cases hk : k = p.page
  · subst hk
    rw [Function.update_self, Function.update_apply]
    simp
  · rw [Function.update_of_ne hk, if_neg fun h => hk h.1]

/-- Bytes written from a column on, by induction on them: each lies where the column stood when it
came, and nothing else has changed but the column. -/
theorem foldl_write (bytes : List U8) (p : Panel) (h : p.column + bytes.length ≤ lastColumn + 1) :
    let q := (bytes.map ScreenObs.data).foldl (Panel.sees pages) p
    (∀ i (hi : i < bytes.length), q.ram p.page (p.column + i) = bytes[i]) ∧
      (∀ k j, k ≠ p.page ∨ j < p.column → q.ram k j = p.ram k j) ∧
      q = { p with ram := q.ram, column := q.column } := by
  induction bytes generalizing p with
  | nil => exact ⟨by simp, fun _ _ _ => rfl, rfl⟩
  | cons b bytes ih =>
    intro q
    rw [List.length_cons] at h
    have hfirst : (p.write b).ram p.page p.column = b := by rw [ram_write, if_pos ⟨rfl, rfl⟩]
    have hothers₁ : ∀ k j, k ≠ p.page ∨ j < p.column → (p.write b).ram k j = p.ram k j := by
      intro k j hkj
      rw [ram_write, if_neg]
      rintro ⟨rfl, rfl⟩
      exact hkj.elim (fun hk => hk rfl) (Nat.lt_irrefl _)
    cases hbytes : bytes with
    | nil =>
      subst hbytes
      refine ⟨?_, hothers₁, rfl⟩
      intro i hi
      obtain rfl : i = 0 := by simpa using hi
      exact hfirst
    | cons c rest =>
      rw [← hbytes]
      have hlength : 0 < bytes.length := by rw [hbytes]; exact Nat.succ_pos _
      have hcolumn : (p.write b).column = p.column + 1 := if_pos (by omega)
      -- the column has moved on, so the first byte is not written over
      obtain ⟨hplaced, hothers, hrest⟩ := ih (p.write b) (by rw [hcolumn]; omega)
      have hpage : (p.write b).page = p.page := rfl
      rw [hcolumn, hpage] at hplaced hothers
      refine ⟨?_, ?_, hrest⟩
      · intro i hi
        cases i with
        | zero => exact (hothers p.page p.column (.inr (Nat.lt_succ_self _))).trans hfirst
        | succ i =>
          rw [show p.column + (i + 1) = p.column + 1 + i by omega]
          exact hplaced i (by simpa using hi)
      · intro k j hkj
        exact (hothers k j (hkj.imp_right fun hj => by omega)).trans (hothers₁ k j hkj)

/-- What a refresh does not change, besides the display memory and its address. -/
def SameSetup (p q : Panel) : Prop :=
  q.setEv = p.setEv ∧ q.inverse = p.inverse ∧ q.on = p.on ∧ q.allPixels = p.allPixels ∧
    q.startLine = p.startLine

/-- The same setup twice. -/
theorem SameSetup.trans {p q r : Panel} (h : SameSetup p q) (h' : SameSetup q r) : SameSetup p r :=
  ⟨h'.1.trans h.1, h'.2.1.trans h.2.1, h'.2.2.1.trans h.2.2.1, h'.2.2.2.1.trans h.2.2.2.1,
    h'.2.2.2.2.trans h.2.2.2.2⟩

/-- A page command sets the page and nothing else. -/
theorem command_page {p : Panel} (hev : p.setEv = false) {b : U8} (hb : b &&& 0xF0 = 0xB0) :
    p.command pages b = { p with page := pages b } := by
  have hne : b ≠ 0x81 := by
    rintro rfl
    exact absurd hb (by decide)
  rw [Panel.command, if_neg (by simp [hev]), if_neg hne, if_pos hb]

/-- The three commands in front of a page: the page is set, and the column is the first. -/
theorem page_commands {p : Panel} (hev : p.setEv = false) {b : U8} (hb : b &&& 0xF0 = 0xB0) :
    ((p.command pages b).command pages 0x10).command pages 0x00 = { p with page := pages b, column := 0 } := by
  have hmsb : ∀ q : Panel, q.setEv = false → q.command pages 0x10 = { q with column := q.column % 16 } := by
    intro q hq
    simp [Panel.command, hq]
  have hlsb : ∀ q : Panel, q.setEv = false → q.command pages 0x00 = { q with column := q.column / 16 * 16 } := by
    intro q hq
    simp [Panel.command, hq]
  rw [command_page hev hb, hmsb, hlsb]
  · simp only [Panel.mk.injEq, true_and, and_true]
    omega
  · exact hev
  · exact hev

/-- One page of a refresh. -/
theorem foldl_pageStream {p : Panel} (hev : p.setEv = false) (s : Model.Screen) {i : ℕ}
    (hi : (BitVec.ofNat 8 (0xb0 + i)) &&& 0xF0 = 0xB0) :
    let q := (pageStream s i).foldl (Panel.sees pages) p
    (∀ j < 132, q.ram (pages (BitVec.ofNat 8 (0xb0 + i))) j = s.memory (i * 132 + j)) ∧
      (∀ k j, k ≠ pages (BitVec.ofNat 8 (0xb0 + i)) → q.ram k j = p.ram k j) ∧ SameSetup p q := by
  intro q
  have hq : q = (((List.range 132).map fun j => s.memory (i * 132 + j)).map ScreenObs.data).foldl
      (Panel.sees pages) { p with page := pages (BitVec.ofNat 8 (0xb0 + i)), column := 0 } := by
    show (pageStream s i).foldl (Panel.sees pages) p = _
    rw [pageStream, List.foldl_append, List.map_map, ← page_commands hev hi]
    rfl
  obtain ⟨hplaced, hothers, hrest⟩ := foldl_write
    ((List.range 132).map fun j => s.memory (i * 132 + j))
    { p with page := pages (BitVec.ofNat 8 (0xb0 + i)), column := 0 }
    (by simp [lastColumn])
  rw [← hq] at hplaced hothers hrest
  refine ⟨?_, fun k j hk => hothers k j (.inl hk), ?_⟩
  · intro j hj
    have hbyte := hplaced j (by simpa using hj)
    rw [Nat.zero_add] at hbyte
    rw [hbyte]
    simp
  · rw [hrest]
    exact ⟨rfl, rfl, rfl, rfl, rfl⟩

/-- The first pages of a refresh, by induction on their number: those sent so far are in the display
memory. -/
theorem foldl_pageStreams {p : Panel} (hev : p.setEv = false) (s : Model.Screen)
    (hpages : ∀ i < 8, pages (BitVec.ofNat 8 (0xb0 + i)) = i) {n : ℕ} (hn : n ≤ 8) :
    let q := ((List.range n).flatMap (pageStream s)).foldl (Panel.sees pages) p
    (∀ i < n, ∀ j < 132, q.ram i j = s.memory (i * 132 + j)) ∧ SameSetup p q := by
  induction n with
  | zero => exact ⟨fun i hi => absurd hi (Nat.not_lt_zero i), ⟨rfl, rfl, rfl, rfl, rfl⟩⟩
  | succ n ih =>
    intro q
    obtain ⟨hsent, hsetup⟩ := ih (by omega)
    have hpage := hpages n (by omega)
    have hnibble : (BitVec.ofNat 8 (0xb0 + n)) &&& 0xF0 = 0xB0 := by
      have hall : ∀ k < 8, (BitVec.ofNat 8 (0xb0 + k)) &&& 0xF0 = (0xB0 : U8) := by decide
      exact hall n (by omega)
    have hq : q = (pageStream s n).foldl (Panel.sees pages)
        (((List.range n).flatMap (pageStream s)).foldl (Panel.sees pages) p) := by
      show ((List.range (n + 1)).flatMap (pageStream s)).foldl (Panel.sees pages) p = _
      rw [List.range_succ, List.flatMap_append, List.flatMap_singleton, List.foldl_append]
    obtain ⟨hnew, hold, hsetup'⟩ := foldl_pageStream (hsetup.1.trans hev) s hnibble
    rw [← hq, hpage] at hnew hold
    rw [← hq] at hsetup'
    refine ⟨?_, hsetup.trans hsetup'⟩
    intro i hi j hj
    by_cases hin : i = n
    · subst hin
      exact hnew j hj
    · rw [hold i j hin]
      exact hsent i (by omega) j hj

/-- **A refresh leaves the framebuffer in the display memory**, whatever was there and wherever the
address stood. The ninth page goes where the controller takes it. -/
theorem run_updateScreen {d : Display} (h : Awake d) (hev : d.panel.setEv = false) (s : Model.Screen)
    (hpages : ∀ i < 8, pages (BitVec.ofNat 8 (0xb0 + i)) = i) :
    let d' := d.run pages (updateScreenDrives s)
    Awake d' ∧ SameSetup d.panel d'.panel ∧
      ∀ i < 8, i ≠ pages 0xB8 → ∀ j < 132, d'.panel.ram i j = s.memory (i * 132 + j) := by
  intro d'
  obtain ⟨hawake, hpanel⟩ := run_drives h (updateScreen s).2
  have height : st7567Height / 8 = 8 := rfl
  rw [foldl_sees_sent, sent_updateScreen, height, List.foldl_append] at hpanel
  obtain ⟨hsent, hsetup⟩ := foldl_pageStreams hev s hpages (Nat.le_refl 8)
  obtain ⟨-, hold, hsetup'⟩ := foldl_pageStream (i := 8) (hsetup.1.trans hev) s (by decide)
  change d'.panel = _ at hpanel
  refine ⟨hawake, ?_, ?_⟩
  · rw [hpanel]
    exact hsetup.trans hsetup'
  · intro i hi hne j hj
    rw [hpanel, hold i j hne]
    exact hsent i hi j hj

/-! ## Sessions -/

/-- A call of the driver. -/
inductive DriverCall where
  | draw (op : DrawOp)
  | updateScreen
  | toggleInvert
  | setContrast (val : U8)
  | backLight (on : Bool)

/-- The driver's memory, the display, and the framebuffer as it was at the last refresh. -/
structure Session where
  screen : Model.Screen
  inverted : Bool
  display : Display
  shown : Option Model.Screen

/-- What a call does to the driver's memory and to the pins. -/
def DriverCall.effect (s : Model.Screen) (inverted : Bool) : DriverCall → (Model.Screen × Bool) × List PanelDrive
  | .draw op => (((op.cmd s).1, inverted), [])
  | .updateScreen => ((s, inverted), updateScreenDrives s)
  | .toggleInvert => ((s, (st7567ToggleInvert inverted).1), (st7567ToggleInvert inverted).2)
  | .setContrast val => ((s, inverted), st7567SetContrast val)
  | .backLight on => ((s, inverted), if on then st7567BackLightOn else st7567BackLightOff)

/-- A call of the driver. -/
def sessionStep (pages : U8 → ℕ) (t : Session) (call : DriverCall) : Session :=
  let r := call.effect t.screen t.inverted
  ⟨r.1.1, r.1.2, t.display.run pages r.2, match call with
    | .updateScreen => some t.screen
    | _ => t.shown⟩

/-- A refresh sends the framebuffer, which is then the one shown. -/
theorem sessionStep_updateScreen (t : Session) :
    sessionStep pages t .updateScreen =
      ⟨t.screen, t.inverted, t.display.run pages (updateScreenDrives t.screen), some t.screen⟩ := by
  simp only [sessionStep, DriverCall.effect]

/-- From `ST7567_Init` on, with a display in any state. -/
def session (pages : U8 → ℕ) (d : Display) (s : Model.Screen) (calls : List DriverCall) : Session :=
  calls.foldl (sessionStep pages) ⟨s, false, d.run pages st7567Init, none⟩

/-- The display follows the driver: the line is free, the setup is that of `ST7567_Init` but for the
inversion, and the display memory is the framebuffer of the last refresh. -/
structure Shows (pages : U8 → ℕ) (t : Session) : Prop where
  awake : Awake t.display
  setEv : t.display.panel.setEv = false
  inverse : t.display.panel.inverse = t.inverted
  on : t.display.panel.on = true
  allPixels : t.display.panel.allPixels = false
  startLine : t.display.panel.startLine = 0
  shown : ∀ s, t.shown = some s →
    ∀ i < 8, i ≠ pages 0xB8 → ∀ j < 132, t.display.panel.ram i j = s.memory (i * 132 + j)

/-- The glass shows the framebuffer of the last refresh, inverted as the driver believes. -/
theorem Shows.pixel_eq {t : Session} (h : Shows pages t) (hicons : 8 ≤ pages 0xB8) {s : Model.Screen}
    (hs : t.shown = some s) {x y : ℕ} (hon : OnScreen x y) :
    t.display.panel.pixel x y = (image s x y != t.inverted) := by
  have hx : x < 128 := hon.1
  have hy : y < 64 := hon.2
  have hram := h.shown s hs (y / 8) (by omega) (by omega) x (by omega)
  rw [Panel.pixel, h.inverse, hram, image, byteOf, Nat.add_comm x]

/-- Commands one after the other; only the first has to find no word begun. -/
theorem run_commands {d : Display} (h : d.receiver.bits = []) (b : U8) (bs : List U8) :
    Awake (d.run pages ((b :: bs).flatMap st7567WriteCommand)) ∧
      (d.run pages ((b :: bs).flatMap st7567WriteCommand)).panel =
        (b :: bs).foldl (fun p c => p.command pages c) d.panel := by
  have hdrives : bs.flatMap st7567WriteCommand = (bs.map ScreenObs.command).flatMap ScreenObs.drives := by
    rw [List.flatMap_map]
    rfl
  obtain ⟨d', hfirst, hawake, hpanel⟩ := run_writeCommand h b
  obtain ⟨hawake', hpanel'⟩ := run_drives hawake (bs.map ScreenObs.command)
  rw [List.flatMap_cons, Display.run_append, hfirst, hdrives]
  refine ⟨hawake', ?_⟩
  rw [hpanel', hpanel, List.foldl_map, List.foldl_cons]
  rfl

/-- The display after `ST7567_Init`, whatever state it was in. -/
theorem run_init (d : Display) :
    Awake (d.run pages st7567Init) ∧
      (d.run pages st7567Init).panel =
        initCommands.foldl (fun p c => p.command pages c) { d.panel with setEv := false } := by
  have hreset : d.run pages (st7567Reset ++ st7567BackLightOff) =
      ⟨{ d.receiver with bits := [] }, { d.panel with setEv := false }⟩ := rfl
  rw [st7567Init, Display.run_append, hreset]
  exact run_commands
    (d := ⟨{ d.receiver with bits := [] }, { d.panel with setEv := false }⟩) rfl 0xE2 initCommands.tail

/-- After `ST7567_Init` the display follows the driver. -/
theorem shows_init (d : Display) (s : Model.Screen) :
    Shows pages ⟨s, false, d.run pages st7567Init, none⟩ := by
  obtain ⟨hawake, hpanel⟩ := run_init d
  generalize d.run pages st7567Init = d' at hawake hpanel
  refine
    { awake := hawake
      setEv := ?_
      inverse := ?_
      on := ?_
      allPixels := ?_
      startLine := ?_
      shown := fun s hs => absurd hs (Option.some_ne_none s).symm }
  all_goals
    dsimp only
    rw [hpanel]
    rfl

/-- The inversion commands set the inversion and nothing else. -/
theorem command_invert {p : Panel} (hev : p.setEv = false) (v : Bool) :
    p.command pages (if v then 0xA7 else 0xA6) = { p with inverse := v } := by
  cases v <;> simp [Panel.command, hev]

/-- The word behind `ST7567_SET_EV` is the contrast, whatever it is. -/
theorem command_contrast {p : Panel} (hev : p.setEv = false) (val : U8) :
    (p.command pages 0x81).command pages (0x3F &&& val) = { p with contrast := 0x3F &&& val &&& 0x3F } := by
  have hfirst : p.command pages 0x81 = { p with setEv := true } := by
    rw [Panel.command, if_neg (by simp [hev]), if_pos rfl]
  rw [hfirst, Panel.command, if_pos rfl]
  rw [← hev]

/-- Every call of the driver keeps the display following. -/
theorem shows_step (hpages : ∀ i < 8, pages (BitVec.ofNat 8 (0xb0 + i)) = i) {t : Session}
    (h : Shows pages t) (call : DriverCall) : Shows pages (sessionStep pages t call) := by
  cases call with
  | draw op => exact ⟨h.awake, h.setEv, h.inverse, h.on, h.allPixels, h.startLine, h.shown⟩
  | updateScreen =>
    -- only a refresh writes the display memory, and it leaves the setup
    obtain ⟨hawake, ⟨hev, hinverse, hon, hall, hline⟩, hram⟩ := run_updateScreen h.awake h.setEv t.screen hpages
    rw [sessionStep_updateScreen]
    generalize t.display.run pages (updateScreenDrives t.screen) = d' at *
    refine ⟨hawake, ?_, ?_, ?_, ?_, ?_, ?_⟩
    · exact hev.trans h.setEv
    · exact hinverse.trans h.inverse
    · exact hon.trans h.on
    · exact hall.trans h.allPixels
    · exact hline.trans h.startLine
    · intro s hs
      obtain rfl := Option.some.inj hs
      exact hram
  | toggleInvert =>
    obtain ⟨d', hrun, hawake, hpanel⟩ :=
      run_writeCommand h.awake.begun (if !t.inverted then 0xA7 else 0xA6)
    rw [command_invert h.setEv] at hpanel
    have hdisplay : (sessionStep pages t .toggleInvert).display = d' := hrun
    refine ⟨hdisplay ▸ hawake, ?_, ?_, ?_, ?_, ?_, ?_⟩
    all_goals rw [hdisplay, hpanel]
    · exact h.setEv
    · rfl
    · exact h.on
    · exact h.allPixels
    · exact h.startLine
    · exact h.shown
  | setContrast val =>
    -- the contrast is no part of what shows
    obtain ⟨hawake, hpanel⟩ := run_commands h.awake.begun 0x81 [0x3F &&& val]
    have hdisplay : (sessionStep pages t (.setContrast val)).display =
        t.display.run pages ([0x81, 0x3F &&& val].flatMap st7567WriteCommand) := by
      show t.display.run pages (st7567SetContrast val) = _
      rw [st7567SetContrast, List.flatMap_cons, List.flatMap_singleton]
    rw [List.foldl_cons, List.foldl_cons, List.foldl_nil, command_contrast h.setEv] at hpanel
    refine ⟨hdisplay ▸ hawake, ?_, ?_, ?_, ?_, ?_, ?_⟩
    all_goals rw [hdisplay, hpanel]
    · exact h.setEv
    · exact h.inverse
    · exact h.on
    · exact h.allPixels
    · exact h.startLine
    · exact h.shown
  | backLight on =>
    have hdisplay : (sessionStep pages t (.backLight on)).display = t.display := by
      show t.display.run pages (if on then st7567BackLightOn else st7567BackLightOff) = t.display
      cases on <;> rfl
    refine ⟨hdisplay ▸ h.awake, ?_, ?_, ?_, ?_, ?_, ?_⟩
    all_goals rw [hdisplay]
    · exact h.setEv
    · exact h.inverse
    · exact h.on
    · exact h.allPixels
    · exact h.startLine
    · exact h.shown

/-- The display follows the driver in every session. -/
theorem shows_session (hpages : ∀ i < 8, pages (BitVec.ofNat 8 (0xb0 + i)) = i) (d : Display) (s : Model.Screen)
    (calls : List DriverCall) : Shows pages (session pages d s calls) := by
  have hrun : ∀ t, Shows pages t → Shows pages (calls.foldl (sessionStep pages) t) := by
    induction calls with
    | nil => exact fun t ht => ht
    | cons call calls ih => exact fun t ht => ih _ (shows_step hpages ht call)
  exact hrun _ (shows_init d s)

/-- The pixel writes among the calls. -/
def draws : List DriverCall → List DrawOp
  | [] => []
  | .draw op :: calls => op :: draws calls
  | _ :: calls => draws calls

/-- Whether the calls invert the display an odd number of times. -/
def inverts : List DriverCall → Bool
  | [] => false
  | .toggleInvert :: calls => !inverts calls
  | _ :: calls => inverts calls

/-- The driver's own memory after calls: the framebuffer of the pixel writes, and the inversion. -/
theorem foldl_sessionStep_driver (calls : List DriverCall) (t : Session) :
    (calls.foldl (sessionStep pages) t).screen = (runOps (draws calls) t.screen).1 ∧
      (calls.foldl (sessionStep pages) t).inverted = (t.inverted != inverts calls) := by
  induction calls generalizing t with
  | nil => simp [draws, runOps, inverts]
  | cons call calls ih =>
    rw [List.foldl_cons]
    obtain ⟨hscreen, hinverted⟩ := ih (sessionStep pages t call)
    rw [hscreen, hinverted]
    cases call with
    | draw op => exact ⟨rfl, rfl⟩
    | toggleInvert =>
      refine ⟨rfl, ?_⟩
      show ((!t.inverted) != inverts calls) = (t.inverted != !inverts calls)
      cases t.inverted <;> cases inverts calls <;> rfl
    | updateScreen =>
      rw [sessionStep_updateScreen]
      exact ⟨rfl, rfl⟩
    | setContrast val => exact ⟨rfl, rfl⟩
    | backLight on => exact ⟨rfl, rfl⟩

/-- Without a refresh the display memory stays that of the last one. -/
theorem foldl_sessionStep_shown {calls : List DriverCall} (h : DriverCall.updateScreen ∉ calls) (t : Session) :
    (calls.foldl (sessionStep pages) t).shown = t.shown := by
  induction calls generalizing t with
  | nil => rfl
  | cons call calls ih =>
    rw [List.mem_cons, not_or] at h
    rw [List.foldl_cons, ih h.2]
    cases call with
    | updateScreen => exact absurd rfl h.1
    | draw op => rfl
    | toggleInvert => rfl
    | setContrast val => rfl
    | backLight on => rfl

/-- **What is on the glass.** With a display in any state, after `ST7567_Init` and any sequence of calls of
the driver, every pixel shows what had last been written to it at the last refresh, inverted when
the inversion was toggled an odd number of times; the display is on and shows its memory from the
first line on. The controller is asked to keep the pages 0 to 7, and the ninth page of the refresh
apart from them.
SOURCE: ST7567.c:36-195 -/
theorem glass_agrees (hpages : ∀ i < 8, pages (BitVec.ofNat 8 (0xb0 + i)) = i) (hicons : 8 ≤ pages 0xB8)
    (d : Display) (s : Model.Screen) {before after : List DriverCall} (hafter : DriverCall.updateScreen ∉ after) :
    let t := session pages d s (before ++ .updateScreen :: after)
    (∀ x y, OnScreen x y → t.display.panel.pixel x y =
        ((lastWritten x y (draws before)).getD (image s x y) != inverts (before ++ .updateScreen :: after))) ∧
      t.display.panel.on = true ∧ t.display.panel.allPixels = false ∧ t.display.panel.startLine = 0 := by
  intro t
  have hshows : Shows pages t := shows_session hpages d s _
  refine ⟨?_, hshows.on, hshows.allPixels, hshows.startLine⟩
  have hshown : t.shown = some (runOps (draws before) s).1 := by
    show (session pages d s (before ++ .updateScreen :: after)).shown = _
    rw [session, List.foldl_append, List.foldl_cons, foldl_sessionStep_shown hafter, sessionStep_updateScreen]
    rw [(foldl_sessionStep_driver before _).1]
  have hinverted : t.inverted = inverts (before ++ .updateScreen :: after) := by
    rw [show t.inverted = _ from (foldl_sessionStep_driver _ _).2]
    simp
  intro x y hon
  rw [hshows.pixel_eq hicons hshown hon, hinverted, image_runOps (draws before) s hon]

/-- A controller with sixteen pages. -/
def sixteenPages (b : U8) : ℕ := (b &&& 0x0F).toNat

/-- The display at power-on, with the clock high and half a word received. -/
def poweredDisplay : Display :=
  ⟨⟨false, true, true, false, [true, false, true]⟩, ⟨9, 77, fun _ _ => 0x55, 0, true, true, false, true, 12⟩⟩

/-- A session with a pixel write, a refresh, an inversion and a contrast command. -/
theorem glass_agrees_sixteen :
    let t := session sixteenPages poweredDisplay blankScreen
      ([.draw (.drawPixel 3 12 1)] ++ .updateScreen :: [.toggleInvert, .setContrast 0x11])
    (∀ x y, OnScreen x y → t.display.panel.pixel x y =
        ((lastWritten x y (draws [.draw (.drawPixel 3 12 1)])).getD (image blankScreen x y) !=
          inverts ([.draw (.drawPixel 3 12 1)] ++ .updateScreen :: [.toggleInvert, .setContrast 0x11]))) ∧
      t.display.panel.on = true ∧ t.display.panel.allPixels = false ∧ t.display.panel.startLine = 0 :=
  glass_agrees (by decide) (by decide) poweredDisplay blankScreen (by simp)

end InfraredModule.Analysis
