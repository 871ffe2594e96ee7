import InfraredModule.Analysis.Menu
import InfraredModule.Analysis.Pages
import InfraredModule.Analysis.PanelWire
import InfraredModule.Foundation.History

/-!
# What is on the glass

The apparatus with a `Viewer` at the end of its wires, who knows which routine drew last. A routine draws in
one step: what becomes of a drawing that the serial task interrupts is not told. Every routine that is called
draws, and the glass shows its picture until the next one draws (`glass_shows_page`), although the buttons clear
the framebuffer in between. The texts are short enough, and the setting menu draws rows of its table, because
the menu is always placed (`sound_calls`).
-/

set_option autoImplicit false

namespace InfraredModule.Analysis

open InfraredModule.Foundation InfraredModule.Model InfraredModule.Interface

variable {pages : U8 → ℕ}

/-! ## The viewer -/

/-- The display at the end of the wires, and the routine that drew last. -/
structure Viewer where
  display : Display
  last : Option PageCall

/-- What the viewer sees of an observation. -/
def Viewer.see (pages : U8 → ℕ) (v : Viewer) : ApparatusObs → Viewer
  | .call call => { v with last := some call }
  | .drive d => { v with display := v.display.step pages d }

/-- The apparatus and its viewer. -/
def viewed (pages : U8 → ℕ) (chip : Chip) (g : Glyphs) (i : ThreadInput) : Cmd (Apparatus × Viewer) ApparatusObs :=
  (apparatus chip g i).noted fun v _ o => v.see pages o

/-- The routines that draw in an output. -/
def drew (out : List ApparatusObs) : List PageCall :=
  out.filterMap fun
    | .call call => some call
    | .drive _ => none

/-- The viewer of levels sees their display. -/
theorem foldl_see_drives (ds : List PanelDrive) (v : Viewer) :
    (ds.map ApparatusObs.drive).foldl (Viewer.see pages) v = { v with display := v.display.run pages ds } := by
  induction ds generalizing v with
  | nil => rfl
  | cons d ds ih =>
    rw [List.map_cons, List.foldl_cons, ih]
    rfl

/-- Levels draw nothing. -/
theorem drew_drives (ds : List PanelDrive) : drew (ds.map .drive) = [] := by
  rw [drew, List.filterMap_map, List.filterMap_eq_nil_iff]
  exact fun _ _ => rfl

/-- The display is set up, and the glass shows the picture of the routine that drew last. -/
structure ShowsPage (pages : U8 → ℕ) (g : Glyphs) (v : Viewer) : Prop where
  follows : ∀ s, Shows pages ⟨s, false, v.display, none⟩
  sound : ∀ call, v.last = some call → SoundCall call
  pixels : ∀ call, v.last = some call → ∃ elements, call.elements = some elements ∧
    ∀ x y, OnScreen x y → v.display.panel.pixel x y = pagePicture g elements x y

/-! ## A routine draws -/

/-- What a routine leaves of the text of `selectModePage`. -/
theorem shown_perform (g : Glyphs) {call : PageCall} (hcall : SoundCall call) {d : Apparatus}
    (hd : (written d.shown).length ≤ 5) : (written (perform g call d).1.shown).length ≤ 5 := by
  unfold perform
  split
  · cases call with
    | selectModePage shown cnt => exact hcall
    | _ => exact hd
  · exact hd

/-- A refresh leaves the image on a glass that is set up. -/
theorem refresh_glass (hpages : ∀ i < 8, pages (BitVec.ofNat 8 (0xb0 + i)) = i) (hicons : 8 ≤ pages 0xB8)
    {d : Display} (h : ∀ s, Shows pages ⟨s, false, d, none⟩) (s : Model.Screen) :
    (∀ s', Shows pages ⟨s', false, d.run pages (updateScreenDrives s), none⟩) ∧
      ∀ x y, OnScreen x y → (d.run pages (updateScreenDrives s)).panel.pixel x y = image s x y := by
  have hrefreshed : Shows pages ⟨s, false, d.run pages (updateScreenDrives s), some s⟩ := by
    have hstep := shows_step hpages (h s) .updateScreen
    rwa [sessionStep_updateScreen] at hstep
  generalize d.run pages (updateScreenDrives s) = d' at hrefreshed ⊢
  refine ⟨fun s' => ⟨hrefreshed.awake, hrefreshed.setEv, hrefreshed.inverse, hrefreshed.on, hrefreshed.allPixels,
    hrefreshed.startLine, fun _ hs => nomatch hs⟩, fun x y hon => ?_⟩
  rw [hrefreshed.pixel_eq hicons rfl hon, Bool.bne_false]

/-- A routine that has something to draw. -/
theorem perform_some (g : Glyphs) {call : PageCall} {elements : List Element}
    (helements : call.elements = some elements) {cmd : ScreenCmd} (hcmd : showElements g elements = some cmd)
    (d : Apparatus) :
    (perform g call d).2 = .call call :: ((cmd d.screen).2.flatMap ScreenObs.drives).map .drive := by
  rw [perform, helements, Option.bind_some, hcmd]

/-- What the viewer makes of it. -/
theorem showsPage_drawn {g : Glyphs} {call : PageCall} (hcall : SoundCall call) {elements : List Element}
    (helements : call.elements = some elements) {v : Viewer} {ds : List PanelDrive}
    (hfollows : ∀ s, Shows pages ⟨s, false, v.display.run pages ds, none⟩)
    (hglass : ∀ x y, OnScreen x y → (v.display.run pages ds).panel.pixel x y = pagePicture g elements x y) :
    ShowsPage pages g ((.call call :: ds.map .drive).foldl (Viewer.see pages) v) := by
  rw [List.foldl_cons, foldl_see_drives]
  refine ⟨hfollows, ?_, ?_⟩
  · rintro _ ⟨⟩
    exact hcall
  · rintro _ ⟨⟩
    exact ⟨elements, helements, hglass⟩

/-- A routine that draws is then what the display shows. -/
theorem showsPage_perform (hpages : ∀ i < 8, pages (BitVec.ofNat 8 (0xb0 + i)) = i) (hicons : 8 ≤ pages 0xB8)
    (g : Glyphs) {call : PageCall} (hcall : SoundCall call) (d : Apparatus) {v : Viewer} (h : ShowsPage pages g v) :
    ShowsPage pages g ((perform g call d).2.foldl (Viewer.see pages) v) ∧
      drew (perform g call d).2 = if call.elements.isSome then [call] else [] := by
  cases helements : call.elements with
  | none =>
    have hnone : perform g call d = (d, []) := by rw [perform, helements, Option.bind_none]
    rw [hnone]
    exact ⟨h, rfl⟩
  | some elements =>
    obtain ⟨cmd, hcmd, hspec⟩ := showElements_spec g (regular_elements hcall helements)
    obtain ⟨hpicture, hdrives⟩ := hspec d.screen
    obtain ⟨hfollows, hglass⟩ := refresh_glass hpages hicons h.follows (cmd d.screen).1
    rw [← hdrives] at hfollows hglass
    rw [perform_some g helements hcmd, Option.isSome_some, if_pos rfl]
    exact ⟨showsPage_drawn hcall helements hfollows fun x y hon => (hglass x y hon).trans (hpicture x y hon),
      congrArg (call :: ·) (drew_drives _)⟩

/-- Routines one after the other. -/
theorem showsPage_each (hpages : ∀ i < 8, pages (BitVec.ofNat 8 (0xb0 + i)) = i) (hicons : 8 ≤ pages 0xB8)
    (g : Glyphs) {calls : List PageCall} (hcalls : ∀ call ∈ calls, SoundCall call) {d : Apparatus}
    (hd : (written d.shown).length ≤ 5) {v : Viewer} (h : ShowsPage pages g v) :
    (written (Cmd.each (perform g) calls d).1.shown).length ≤ 5 ∧
      ShowsPage pages g ((Cmd.each (perform g) calls d).2.foldl (Viewer.see pages) v) ∧
      drew (Cmd.each (perform g) calls d).2 = calls.filter fun call => call.elements.isSome := by
  induction calls generalizing d v with
  | nil => exact ⟨hd, h, rfl⟩
  | cons call calls ih =>
    have hcall := hcalls call List.mem_cons_self
    obtain ⟨hfirst, hdrew⟩ := showsPage_perform hpages hicons g hcall d h
    obtain ⟨hshown, hrest, hdrews⟩ :=
      ih (fun c hc => hcalls c (List.mem_cons_of_mem call hc)) (shown_perform g hcall hd) hfirst
    rw [Cmd.each_cons, Cmd.andThen_apply]
    refine ⟨hshown, ?_, ?_⟩
    · rw [List.foldl_append]
      exact hrest
    · rw [drew, List.filterMap_append, ← drew, ← drew, hdrew, hdrews, List.filter_cons]
      split <;> rfl

/-! ## The routines that are called -/

/-- The routine of an iteration is called where the program of the page runs. -/
theorem oledCall_eq (shown : List U8) (cnt : U8) (s : Firmware) :
    oledCall shown cnt s = (atProgram s).bind (pageProgramCall s.oled.page shown cnt) := by
  unfold oledCall atProgram
  split
  · rfl
  split
  · rfl
  · rfl

/-- **What the display thread and the callbacks draw is sound**, wherever the menu is. -/
theorem sound_calls (chip : Chip) (i : ThreadInput) {d : Apparatus} (hplaced : Placed (screen d.threads.fw.oled))
    (hshown : (written d.shown).length ≤ 5) : ∀ call ∈ d.calls chip i, SoundCall call := by
  intro call hcall
  unfold Apparatus.calls at hcall
  split at hcall
  · rw [Option.mem_toList, oledCall_eq] at hcall
    obtain ⟨t, ht, hprogram⟩ := Option.bind_eq_some_iff.mp hcall
    unfold pageProgramCall at hprogram
    split at hprogram
    · cases hprogram
      trivial
    split at hprogram
    case isTrue hpage =>
      cases hprogram
      exact (hplaced.atProgram ht hpage).2.2.1
    split at hprogram
    · cases hprogram
      trivial
    split at hprogram
    · cases hprogram
      show (written (selectModePageText _ _)).length ≤ 5
      unfold selectModePageText
      split
      · decide
      split
      · decide
      · exact hshown
    repeat' split at hprogram
    all_goals
      cases hprogram
      try trivial
  · obtain ⟨o, -, ho⟩ := List.mem_filterMap.mp hcall
    unfold callBackCall at ho
    split at ho
    · cases ho
      trivial
    · cases ho
      trivial
    · cases ho

/-- Drawing leaves the threads. -/
theorem threads_each (g : Glyphs) (calls : List PageCall) (d : Apparatus) :
    (Cmd.each (perform g) calls d).1.threads = d.threads := by
  have hperform : ∀ call, Cmd.Keeps Apparatus.threads (perform g call) := by
    intro call d
    unfold perform
    split
    · cases call <;> rfl
    · rfl
  have hall : Cmd.Keeps Apparatus.threads (Cmd.each (perform g) calls) :=
    Cmd.each_induction (fun _ => rfl) (fun _ _ => Cmd.Keeps.andThen) fun call _ => hperform call
  exact hall d

/-! ## Runs -/

/-- What holds of the apparatus and its viewer after a sequence of steps. -/
structure Watched (pages : U8 → ℕ) (chip : Chip) (g : Glyphs) (s : Firmware) (before : List ThreadInput)
    (t : Apparatus × Viewer) : Prop where
  threads : t.1.threads = run (Model.threads chip) ⟨s, .skip⟩ before
  shown : (written t.1.shown).length ≤ 5
  shows : ShowsPage pages g t.2

/-- A step: the routines it calls draw, each of them sound as the menu is placed. -/
theorem Watched.step (hpages : ∀ i < 8, pages (BitVec.ofNat 8 (0xb0 + i)) = i) (hicons : 8 ≤ pages 0xB8)
    {chip : Chip} {g : Glyphs} {flash : FlashPage} {beyond : Vector U8 10} {before : List ThreadInput}
    {t : Apparatus × Viewer} (h : Watched pages chip g (boot flash beyond) before t) (i : ThreadInput) :
    Watched pages chip g (boot flash beyond) (before ++ [i]) (viewed pages chip g i t).1 ∧
      drew (viewed pages chip g i t).2 = (t.1.calls chip i).filter fun call => call.elements.isSome := by
  obtain ⟨steps, hsteps⟩ := menu_of_threads chip flash beyond before
  have hplaced : Placed (screen t.1.threads.fw.oled) := by
    rw [h.threads, hsteps]
    exact placed_run flash beyond steps
  obtain ⟨hshown, hshows, hdrew⟩ := showsPage_each hpages hicons g (sound_calls chip i hplaced h.shown)
    (d := { t.1 with
      threads := (Model.threads chip i t.1.threads).1
      screen := if clearsScreen i then (fill 0 t.1.screen).1 else t.1.screen }) h.shown h.shows
  refine ⟨⟨?_, hshown, hshows⟩, hdrew⟩
  rw [run_append, ← h.threads]
  exact threads_each g _ _

/-- After every run the display shows what was drawn last. -/
theorem watched_run (hpages : ∀ i < 8, pages (BitVec.ofNat 8 (0xb0 + i)) = i) (hicons : 8 ≤ pages 0xB8)
    (chip : Chip) (g : Glyphs) (flash : FlashPage) (beyond : Vector U8 10) (screen : Model.Screen) (d : Display)
    (inputs : List ThreadInput) :
    Watched pages chip g (boot flash beyond) inputs (run (viewed pages chip g)
      (Apparatus.boot (boot flash beyond) screen, ⟨d.run pages st7567Init, none⟩) inputs) := by
  refine run_invariant (fun before t => Watched pages chip g (boot flash beyond) before t) (fun _ _ _ => True)
    ?_ (fun before i h _ => (h.step hpages hicons i).1) fun _ _ _ _ => trivial
  have hinit : ∀ s, Shows pages ⟨s, false, d.run pages st7567Init, none⟩ := shows_init d
  generalize d.run pages st7567Init = d' at hinit ⊢
  have hblank : (written [0x20]).length ≤ 5 := by decide
  exact ⟨rfl, hblank, hinit, fun _ hlast => absurd hlast (by simp), fun _ hlast => absurd hlast (by simp)⟩

/-- **The glass shows the page drawn last.** From power-on, with any display at the wires, whatever the threads do in
whatever order, where a routine draws in one step: every routine that is called and has something to draw
draws; the display is on; and the glass shows the picture of the routine that drew last. As long as a
temperature drawn has two digits, every element of it is seen as far as it lies on the screen, and all of them do
but the two texts that run off it. The controller is asked to keep the pages 0 to 7, and the ninth page of the
refresh apart from them.
SOURCE: Oled1309.c:40-51, 297-356, OledPage.c:38-429 -/
theorem glass_shows_page (hpages : ∀ i < 8, pages (BitVec.ofNat 8 (0xb0 + i)) = i) (hicons : 8 ≤ pages 0xB8)
    (chip : Chip) (g : Glyphs) (flash : FlashPage) (beyond : Vector U8 10) (screen : Model.Screen) (d : Display)
    (inputs : List ThreadInput) :
    let t := run (viewed pages chip g)
      (Apparatus.boot (boot flash beyond) screen, ⟨d.run pages st7567Init, none⟩) inputs
    (∀ i, drew (viewed pages chip g i t).2 = (t.1.calls chip i).filter fun call => call.elements.isSome) ∧
      (t.2.display.panel.on = true ∧ t.2.display.panel.allPixels = false ∧ t.2.display.panel.startLine = 0) ∧
      ∀ call, t.2.last = some call → ∃ elements, call.elements = some elements ∧
        (∀ x y, OnScreen x y → t.2.display.panel.pixel x y = pagePicture g elements x y) ∧
        (Tempered call → ∀ e ∈ elements, ((Element.box e).Whole ↔ ¬ RunsOff call e) ∧
          ∀ x y b, OnScreen x y → Element.picture g e x y = some b → t.2.display.panel.pixel x y = b) := by
  intro t
  have hwatched : Watched pages chip g (boot flash beyond) inputs t :=
    watched_run hpages hicons chip g flash beyond screen d inputs
  have hfollows := hwatched.shows.follows screen
  refine ⟨fun i => (hwatched.step hpages hicons i).2, ⟨hfollows.on, hfollows.allPixels, hfollows.startLine⟩, ?_⟩
  intro call hlast
  obtain ⟨elements, helements, hpixels⟩ := hwatched.shows.pixels call hlast
  refine ⟨elements, helements, hpixels, fun htemp e he => ?_⟩
  obtain ⟨hlaid, hwhole⟩ := laidOut_elements (hwatched.shows.sound call hlast) htemp helements
  refine ⟨hwhole e he, fun x y b hon hb => ?_⟩
  rw [hpixels x y hon, hlaid.picture_of_mem g he hb]

/-- Tables of stripes. -/
def stripes : Glyphs := ⟨fun _ => 0x5A, fun _ => 0x3C, fun _ => 0x99⟩

/-- The home page, and then the setting menu behind a short press. -/
theorem glass_shows_page_sixteen :
    let t := run (viewed sixteenPages ⟨1, 2, 3⟩ stripes)
      (Apparatus.boot (boot (Vector.replicate 12 0xFF) (Vector.replicate 10 0)) blankScreen,
        ⟨poweredDisplay.run sixteenPages st7567Init, none⟩)
      [.peer .oledIteration, .peer (.enterBtn .shortPress), .peer .oledIteration]
    (∀ i, drew (viewed sixteenPages ⟨1, 2, 3⟩ stripes i t).2 =
        (t.1.calls ⟨1, 2, 3⟩ i).filter fun call => call.elements.isSome) ∧
      (t.2.display.panel.on = true ∧ t.2.display.panel.allPixels = false ∧ t.2.display.panel.startLine = 0) ∧
      ∀ call, t.2.last = some call → ∃ elements, call.elements = some elements ∧
        (∀ x y, OnScreen x y → t.2.display.panel.pixel x y = pagePicture stripes elements x y) ∧
        (Tempered call → ∀ e ∈ elements, ((Element.box e).Whole ↔ ¬ RunsOff call e) ∧
          ∀ x y b, OnScreen x y → Element.picture stripes e x y = some b → t.2.display.panel.pixel x y = b) :=
  glass_shows_page (by decide) (by decide) ⟨1, 2, 3⟩ stripes (Vector.replicate 12 0xFF) (Vector.replicate 10 0)
    blankScreen poweredDisplay [.peer .oledIteration, .peer (.enterBtn .shortPress), .peer .oledIteration]

end InfraredModule.Analysis
