import InfraredModule.Analysis.Pictures
import InfraredModule.Analysis.StackTexts

/-!
# The layout of the pages

No element of a page hides another, and all of them lie on the screen but for two texts that are too long
(`laidOut_elements`), so the rest can be read, whatever was on the screen before. Where an element lies is its
`box`, which does not depend on the characters of a text, only on how many there are; so a page is checked with
its texts replaced by their lengths (`Element.shape`).
-/

set_option autoImplicit false

namespace InfraredModule.Analysis

open InfraredModule.Foundation InfraredModule.Foundation.DigitalCircle InfraredModule.Foundation.DigitalLine
  InfraredModule.Model

/-! ## Boxes -/

/-- A rectangle: its corner, its width and its height. -/
structure Box where
  x : ℕ
  y : ℕ
  w : ℕ
  h : ℕ
  deriving DecidableEq

/-- The rectangle an element lies in. -/
def Element.box : Element → Box
  | .text x y str font _ =>
    ⟨x.toNat, y.toNat, (written str).length * FontName.width font, FontName.height font⟩
  | .circle x0 y0 r _ => ⟨(x0 - r).toNat, (y0 - r).toNat, (2 * r + 1).toNat, (2 * r + 1).toNat⟩
  | .line x0 y0 x1 _ _ => ⟨min x0.toNat x1.toNat, y0.toNat, gap x0.toNat x1.toNat + 1, 1⟩

/-- One ends before the other begins. -/
def Box.Clear (p q : Box) : Prop := p.x + p.w ≤ q.x ∨ q.x + q.w ≤ p.x ∨ p.y + p.h ≤ q.y ∨ q.y + q.h ≤ p.y

/-- All of it is on the screen. -/
def Box.Whole (p : Box) : Prop := p.x + p.w ≤ 128 ∧ p.y + p.h ≤ 64

instance (p q : Box) : Decidable (p.Clear q) := inferInstanceAs (Decidable (_ ∨ _ ∨ _ ∨ _))

instance (p : Box) : Decidable p.Whole := inferInstanceAs (Decidable (_ ∧ _))

/-- An element lies in its box. -/
theorem picture_in_box (g : Glyphs) {e : Element} (he : Element.Regular e) {a b : ℕ}
    (h : Element.picture g e a b ≠ none) :
    ((Element.box e).x ≤ a ∧ a < (Element.box e).x + (Element.box e).w) ∧
      (Element.box e).y ≤ b ∧ b < (Element.box e).y + (Element.box e).h := by
  cases e with
  | text x y str font color =>
    obtain ⟨-, hwidth, hheight⟩ := font_sizes g font
    rw [Element.picture, textPatch, hwidth, hheight] at h
    exact Patch.block_ne_none h
  | circle x0 y0 r c =>
    have hon : OnCircle r (a - x0) (b - y0) := by
      by_contra hoff
      exact h (if_neg hoff)
    obtain ⟨ha, hb⟩ := hon.abs_le he.2.2.1.le
    rw [abs_le] at ha hb
    simp only [Element.box]
    omega
  | line x0 y0 x1 y1 c =>
    rw [Element.picture] at h
    exact Patch.block_ne_none h

/-- Elements with clear boxes lie apart. -/
theorem apart_of_clear (g : Glyphs) {e e' : Element} (he : Element.Regular e) (he' : Element.Regular e')
    (hclear : (Element.box e).Clear (Element.box e')) :
    Patch.Apart (Element.picture g e) (Element.picture g e') := by
  intro a b
  by_contra hboth
  rw [not_or] at hboth
  have hin := picture_in_box g he hboth.1
  have hin' := picture_in_box g he' hboth.2
  unfold Box.Clear at hclear
  omega

/-! ## Layouts -/

/-- Elements that are drawn as they should be, none over another. -/
structure LaidOut (elements : List Element) : Prop where
  regular : ∀ e ∈ elements, Element.Regular e
  clear : elements.Pairwise fun e e' => (Element.box e).Clear (Element.box e')

instance (elements : List Element) : Decidable (LaidOut elements) :=
  decidable_of_iff ((∀ e ∈ elements, Element.Regular e) ∧
    elements.Pairwise fun e e' => (Element.box e).Clear (Element.box e'))
    ⟨fun h => ⟨h.1, h.2⟩, fun h => ⟨h.1, h.2⟩⟩

/-- **A page that is laid out can be read**: each of its elements is seen whole. -/
theorem LaidOut.picture_of_mem {elements : List Element} (h : LaidOut elements) (g : Glyphs) {e : Element}
    (he : e ∈ elements) {a b : ℕ} {v : Bool} (hv : Element.picture g e a b = some v) :
    pagePicture g elements a b = v := by
  have hapart : (elements.map (Element.picture g)).Pairwise Patch.Apart := by
    rw [List.pairwise_map]
    exact h.clear.imp_of_mem fun hmem hmem' => apart_of_clear g (h.regular _ hmem) (h.regular _ hmem')
  rw [pagePicture, Patch.stack_of_mem hapart (List.mem_map_of_mem he) hv]
  rfl

/-- Elements that are laid out and lie on the screen, each the whole of it. -/
structure InView (elements : List Element) : Prop extends LaidOut elements where
  whole : ∀ e ∈ elements, (Element.box e).Whole

instance (elements : List Element) : Decidable (InView elements) :=
  decidable_of_iff (LaidOut elements ∧ ∀ e ∈ elements, (Element.box e).Whole) ⟨fun h => ⟨h.1, h.2⟩, fun h => ⟨h.1, h.2⟩⟩

/-- An element with a text of which only the length is left, in one colour. -/
def Element.shape : Element → Element
  | .text x y str font _ => .text x y (List.replicate (written str).length 0x31) font 0
  | .circle x0 y0 r _ => .circle x0 y0 r 0
  | .line x0 y0 x1 y1 _ => .line x0 y0 x1 y1 0

/-- A row of ones is written as it is. -/
theorem written_replicate (n : ℕ) : written (List.replicate n 0x31) = List.replicate n 0x31 := by
  rw [written, List.takeWhile_replicate]
  rfl

/-- An element lies where its shape does. -/
theorem box_shape (e : Element) : Element.box (Element.shape e) = Element.box e := by
  cases e with
  | text x y str font color => simp only [Element.shape, Element.box, written_replicate, List.length_replicate]
  | circle x0 y0 r c => rfl
  | line x0 y0 x1 y1 c => rfl

/-- An element is regular when its shape is. -/
theorem regular_shape (e : Element) : Element.Regular (Element.shape e) ↔ Element.Regular e := by
  cases e with
  | text x y str font color => simp only [Element.shape, Element.Regular, written_replicate, List.length_replicate]
  | circle x0 y0 r c => exact Iff.rfl
  | line x0 y0 x1 y1 c => exact Iff.rfl

/-- A layout depends on the shapes only. -/
theorem laidOut_of_shapes {elements : List Element} (h : LaidOut (elements.map Element.shape)) : LaidOut elements where
  regular := fun e he => (regular_shape e).mp (h.regular _ (List.mem_map_of_mem he))
  clear := by
    have hclear := h.clear
    rw [List.pairwise_map] at hclear
    simpa only [box_shape] using hclear

/-- Elements are in view when their shapes are. -/
theorem inView_of_shapes {elements : List Element} (h : InView (elements.map Element.shape)) : InView elements where
  toLaidOut := laidOut_of_shapes h.toLaidOut
  whole := fun e he => box_shape e ▸ h.whole _ (List.mem_map_of_mem he)

/-! ## The calls -/

/-- The characters of a number are its digits: none of them ends the string. -/
theorem written_itoa (value : ℕ) : written (itoa value) = textBytes (Nat.toDigits 10 value) := by
  have hdigits : ∀ b ∈ textBytes (Nat.toDigits 10 value), b ≠ 0 := by
    intro b hb
    obtain ⟨c, hc, rfl⟩ := List.mem_map.mp hb
    have hdigit := Nat.isDigit_of_mem_toDigits (by decide) (by decide) hc
    simp only [Char.isDigit, ge_iff_le, Bool.and_eq_true, decide_eq_true_eq, UInt32.le_iff_toNat_le] at hdigit
    have hlow : 48 ≤ c.toNat := hdigit.1
    have hhigh : c.toNat ≤ 57 := hdigit.2
    intro hzero
    have hnat : c.toNat % 2 ^ 8 = 0 := by
      rw [← BitVec.toNat_ofNat, hzero]
      rfl
    omega
  rw [itoa, written, List.takeWhile_append_of_pos (by simpa using hdigits), List.takeWhile_cons_of_neg (by decide),
    List.append_nil]

/-- How many digits a number has. -/
theorem length_written_itoa_le_iff {value k : ℕ} (hk : 0 < k) :
    (written (itoa value)).length ≤ k ↔ value < 10 ^ k := by
  rw [written_itoa, textBytes, List.length_map]
  exact Nat.length_toDigits_le_iff (by decide) hk

/-- The text of the mode is one of those `selectModePage` copies, or no longer than they are; the setting menu draws
rows of its table. -/
def SoundCall : PageCall → Prop
  | .settingPage page => ∀ row ∈ settingPageShow page, 0 ≤ row.1 ∧ row.1 ≤ 3
  | .selectModePage shown _ => (written shown).length ≤ 5
  | _ => True

/-- The temperature has two digits. -/
def Tempered : PageCall → Prop
  | .homePage nowTemp _ _ => nowTemp.toNat < 100
  | _ => True

/-- Elements are regular when their shapes are. -/
theorem regular_of_shapes {elements : List Element} (h : ∀ e ∈ elements.map Element.shape, Element.Regular e) :
    ∀ e ∈ elements, Element.Regular e :=
  fun e he => (regular_shape e).mp (h _ (List.mem_map_of_mem he))

/-- The shape of the home page, from the lengths of the temperature, of the switch and of the mode. -/
def homeShape (k j l : ℕ) : List Element :=
  [.text 0 0 (List.replicate 21 0x31) .font6x12 0,
    .text 8 22 (List.replicate k 0x31) .font16x32 0,
    .circle 42 30 1 0,
    .text 44 30 (List.replicate 1 0x31) .font8x16 0,
    .text 78 22 (List.replicate j 0x31) .font8x16 0,
    .line 56 38 127 38 0,
    .text 70 39 (List.replicate l 0x31) .font8x16 0]

/-- The home page has one of the shapes for its temperature. -/
theorem shapes_homePage (nowTemp switchState select : U8) :
    ∃ j ≤ 3, ∃ l ≤ 5, (homePageElements nowTemp switchState select).map Element.shape =
      homeShape (written (itoa nowTemp.toNat)).length j l := by
  have hswitch : ∃ j ≤ 3, (written (textBytes (if switchState = yes then "On" else "Off").toList)).length = j := by
    split
    · exact ⟨2, by decide, by decide⟩
    · exact ⟨3, by decide, by decide⟩
  have hmode : ∃ l ≤ 5, (written (textBytes (if select = selectMatch then "match" else
      if select = selectLearn then "learn" else "").toList)).length = l := by
    split
    · exact ⟨5, by decide, by decide⟩
    split
    · exact ⟨5, by decide, by decide⟩
    · exact ⟨0, by decide, by decide⟩
  obtain ⟨j, hj, hswitch⟩ := hswitch
  obtain ⟨l, hl, hmode⟩ := hmode
  have hname : (written homePageName).length = 21 := by decide
  have hdegree : (written (textBytes "C".toList)).length = 1 := by decide
  refine ⟨j, hj, l, hl, ?_⟩
  simp only [homePageElements, label, List.map_cons, List.map_nil, Element.shape, hswitch, hmode, hname, hdegree]
  rfl

/-- The home page, with a temperature of two digits. -/
theorem inView_homePage {nowTemp : U8} (htemp : nowTemp.toNat < 100) (switchState select : U8) :
    InView (homePageElements nowTemp switchState select) := by
  obtain ⟨j, hj, l, hl, hshapes⟩ := shapes_homePage nowTemp switchState select
  have hk : (written (itoa nowTemp.toNat)).length ≤ 2 := (length_written_itoa_le_iff (by decide)).mpr htemp
  apply inView_of_shapes
  rw [hshapes]
  generalize (written (itoa nowTemp.toNat)).length = k at hk
  have hall : ∀ k ≤ 2, ∀ j ≤ 3, ∀ l ≤ 5, InView (homeShape k j l) := by decide +kernel
  exact hall k hk j hj l hl

/-- With three digits it still has no element that cannot be drawn. -/
theorem regular_homePage (nowTemp switchState select : U8) :
    ∀ e ∈ homePageElements nowTemp switchState select, Element.Regular e := by
  obtain ⟨j, hj, l, hl, hshapes⟩ := shapes_homePage nowTemp switchState select
  have hk : (written (itoa nowTemp.toNat)).length ≤ 3 :=
    (length_written_itoa_le_iff (by decide)).mpr (by have := nowTemp.isLt; omega)
  apply regular_of_shapes
  rw [hshapes]
  generalize (written (itoa nowTemp.toNat)).length = k at hk
  have hall : ∀ k ≤ 3, ∀ j ≤ 3, ∀ l ≤ 5, ∀ e ∈ homeShape k j l, Element.Regular e := by decide +kernel
  exact hall k hk j hj l hl

/-- The three rows of the setting menu. -/
theorem inView_settingPage {page : PageSelect} (hrows : ∀ row ∈ settingPageShow page, 0 ≤ row.1 ∧ row.1 ≤ 3) :
    InView (settingPageElements page) := by
  have hlength : (settingPageShow page).length = 3 := by
    unfold settingPageShow
    split <;> simp
  obtain ⟨r₀, r₁, r₂, hrow⟩ := List.length_eq_three.mp hlength
  rw [hrow] at hrows
  have htitle : ∀ row : Int × U8, 0 ≤ row.1 ∧ row.1 ≤ 3 →
      ∃ n ≤ 13, (written (textBytes (settingShow.getD row.1.toNat "").toList)).length = n := by
    have hall : ∀ n ≤ 3, (written (textBytes (settingShow.getD n "").toList)).length ≤ 13 := by decide
    exact fun row hr => ⟨_, hall _ (by omega), rfl⟩
  obtain ⟨a, ha, hta⟩ := htitle r₀ (hrows r₀ (by simp))
  obtain ⟨b, hb, htb⟩ := htitle r₁ (hrows r₁ (by simp))
  obtain ⟨c, hc, htc⟩ := htitle r₂ (hrows r₂ (by simp))
  apply inView_of_shapes
  have hshapes : (settingPageElements page).map Element.shape =
      [.text 8 16 (List.replicate a 0x31) .font8x16 0, .text 8 32 (List.replicate b 0x31) .font8x16 0,
        .text 8 48 (List.replicate c 0x31) .font8x16 0] := by
    simp only [settingPageElements, hrow, List.mapIdx_cons, List.mapIdx_nil, List.map_cons, List.map_nil, label,
      Element.shape, hta, htb, htc]
    rfl
  rw [hshapes]
  have hall : ∀ a ≤ 13, ∀ b ≤ 13, ∀ c ≤ 13, InView [.text 8 16 (List.replicate a 0x31) .font8x16 0,
      .text 8 32 (List.replicate b 0x31) .font8x16 0, .text 8 48 (List.replicate c 0x31) .font8x16 0] := by
    decide +kernel
  exact hall a ha b hb c hc

/-- The mode that blinks has five letters at most. -/
theorem inView_selectModePage {shown : List U8} (hshown : (written shown).length ≤ 5) (cnt : U8) :
    InView (selectModePageElements shown cnt) := by
  apply inView_of_shapes
  have hselect : (written (textBytes "select".toList)).length = 6 := by decide
  simp only [selectModePageElements, label, List.map_cons, List.map_nil, Element.shape, hselect]
  generalize (written shown).length = k at hshown
  have hall : ∀ k ≤ 5, InView [.text 8 16 (List.replicate 6 0x31) .font8x16 0,
      .text (8 * 8) 16 (List.replicate k 0x31) .font8x16 0] := by
    decide +kernel
  exact hall k hshown

/-- What `learnCallBack` draws. -/
theorem inView_learnCallBack {result : U8} {elements : List Element}
    (h : learnCallBackElements result = some elements) : InView elements := by
  unfold learnCallBackElements at h
  split at h
  · cases h
    decide +kernel
  split at h
  · cases h
    decide +kernel
  · cases h

/-! ## What does not fit -/

/-- The two texts that the screen is too narrow for: the sixteen letters of `Send Off Command`, and a brand
code of five digits behind `key code = `.
SOURCE: OledPage.c:218-252, 348-357 -/
def RunsOff : PageCall → Element → Prop
  | .testPage page, e => e = label 8 (16 * 2) "Send Off Command" (if page.cusor = 2 then 0 else 1)
  | .matchCallBack _ brandCode, e =>
    e = .text (12 * 8) (16 * 2) (itoa brandCode.toNat) .font8x16 0 ∧ 10000 ≤ brandCode.toNat
  | _, _ => False

/-- A text in `Font_8x16` is whole when its last cell ends on the screen. -/
theorem whole_text_iff (x y : U16) (str : List U8) (color : U8) :
    (Element.box (.text x y str .font8x16 color)).Whole ↔
      x.toNat + (written str).length * 8 ≤ 128 ∧ y.toNat + 16 ≤ 64 := Iff.rfl

/-- Of the test page the first text is whole and the second is not. -/
theorem whole_testPage (page : PageSelect) :
    ∀ e ∈ testPageElements page, (Element.box e).Whole ↔ ¬ RunsOff (.testPage page) e := by
  have hon : (written (textBytes "Send On Command".toList)).length = 15 := by decide
  have hoff : (written (textBytes "Send Off Command".toList)).length = 16 := by decide
  intro e he
  rcases List.mem_cons.mp he with rfl | he
  · rw [label, whole_text_iff, hon]
    refine iff_of_true (by decide) ?_
    simp [RunsOff, label]
  · obtain rfl := List.mem_singleton.mp he
    rw [label, whole_text_iff, hoff]
    refine iff_of_false (by decide) (not_not_intro ?_)
    rfl

/-- The layout of the test page. -/
theorem laidOut_testPage (page : PageSelect) : LaidOut (testPageElements page) := by
  -- the row of the cursor differs in its colour only
  have hshape : LaidOut ((testPageElements ⟨0, 0, 0, false⟩).map Element.shape) := by decide +kernel
  exact laidOut_of_shapes hshape

/-- What `matchCallBack` draws, with a code of five digits at most. -/
theorem laidOut_matchCallBack {result : U8} {brandCode : U16} {elements : List Element}
    (h : matchCallBackElements result brandCode = some elements) : LaidOut elements := by
  have hcode : (written (itoa brandCode.toNat)).length ≤ 5 :=
    (length_written_itoa_le_iff (by decide)).mpr (by have := brandCode.isLt; omega)
  unfold matchCallBackElements at h
  split at h
  · cases h
    decide +kernel
  split at h
  · cases h
    decide +kernel
  split at h
  · cases h
    apply laidOut_of_shapes
    have hsave : (written (textBytes "Save Sucess".toList)).length = 11 := by decide
    have hkey : (written (textBytes "key code = ".toList)).length = 11 := by decide
    simp only [label, List.map_cons, List.map_nil, Element.shape, hsave, hkey]
    generalize (written (itoa brandCode.toNat)).length = k at hcode
    have hall : ∀ k ≤ 5, LaidOut [.text 8 16 (List.replicate 11 0x31) .font8x16 0,
        .text 8 (16 * 2) (List.replicate 11 0x31) .font8x16 0,
        .text (12 * 8) (16 * 2) (List.replicate k 0x31) .font8x16 0] := by
      decide +kernel
    exact hall k hcode
  split at h
  · cases h
    decide +kernel
  · cases h

/-- Its texts are whole, but for a code of five digits. -/
theorem whole_matchCallBack {result : U8} {brandCode : U16} {elements : List Element}
    (h : matchCallBackElements result brandCode = some elements) :
    ∀ e ∈ elements, (Element.box e).Whole ↔ ¬ RunsOff (.matchCallBack result brandCode) e := by
  -- a text that begins elsewhere is not the code
  have hlabel : ∀ (y : U16) (text : String) (color : U8), (written (textBytes text.toList)).length ≤ 15 →
      y.toNat + 16 ≤ 64 →
      ((Element.box (label 8 y text color)).Whole ↔ ¬ RunsOff (.matchCallBack result brandCode) (label 8 y text color)) := by
    intro y text color hlen hlow
    have hwidth : (8 : U16).toNat = 8 := rfl
    rw [label, whole_text_iff, hwidth]
    refine iff_of_true ⟨by omega, hlow⟩ ?_
    simp [RunsOff]
  unfold matchCallBackElements at h
  split at h
  · cases h
    simpa using hlabel 16 _ _ (by decide) (by decide)
  split at h
  · cases h
    simpa using hlabel 16 _ _ (by decide) (by decide)
  split at h
  · cases h
    intro e he
    simp only [List.mem_cons, List.not_mem_nil, or_false] at he
    rcases he with rfl | rfl | rfl
    · exact hlabel 16 _ _ (by decide) (by decide)
    · exact hlabel (16 * 2) _ _ (by decide) (by decide)
    · have hdigits : (written (itoa brandCode.toNat)).length ≤ 4 ↔ brandCode.toNat < 10 ^ 4 :=
        length_written_itoa_le_iff (by decide)
      have hcorner : ((12 * 8 : U16).toNat = 96) ∧ (16 * 2 : U16).toNat = 32 := by decide
      rw [whole_text_iff, hcorner.1, hcorner.2, RunsOff]
      simp only [true_and]
      omega
  split at h
  · cases h
    simpa using hlabel 16 _ _ (by decide) (by decide)
  · cases h

/-- **No page hides an element of its own**, and every element lies on the screen but for the two texts that run
off it, as long as the temperature has two digits. -/
theorem laidOut_elements {call : PageCall} (hcall : SoundCall call) (htemp : Tempered call)
    {elements : List Element} (h : call.elements = some elements) :
    LaidOut elements ∧ ∀ e ∈ elements, (Element.box e).Whole ↔ ¬ RunsOff call e := by
  have hview : InView elements → (∀ e, ¬ RunsOff call e) →
      LaidOut elements ∧ ∀ e ∈ elements, (Element.box e).Whole ↔ ¬ RunsOff call e := fun hin hnone =>
    ⟨hin.toLaidOut, fun e he => iff_of_true (hin.whole e he) (hnone e)⟩
  cases call with
  | homePage nowTemp switchState select =>
    cases h
    exact hview (inView_homePage htemp switchState select) fun _ => not_false
  | settingPage page =>
    cases h
    exact hview (inView_settingPage hcall) fun _ => not_false
  | oneKeyMatchPage =>
    cases h
    exact hview (by decide +kernel) fun _ => not_false
  | selectModePage shown cnt =>
    cases h
    exact hview (inView_selectModePage hcall cnt) fun _ => not_false
  | testPage page =>
    cases h
    exact ⟨laidOut_testPage page, whole_testPage page⟩
  | learnPage page =>
    cases h
    have hshape : InView ((learnPageElements ⟨0, 0, 0, false⟩).map Element.shape) := by decide +kernel
    exact hview (inView_of_shapes hshape) fun _ => not_false
  | learnOnPage =>
    cases h
    exact hview (by decide +kernel) fun _ => not_false
  | learnOffPage =>
    cases h
    exact hview (by decide +kernel) fun _ => not_false
  | matchCallBack result brandCode => exact ⟨laidOut_matchCallBack h, whole_matchCallBack h⟩
  | learnCallBack result => exact hview (inView_learnCallBack h) fun _ => not_false

/-- Every call draws elements that can be drawn. -/
theorem regular_elements {call : PageCall} (hcall : SoundCall call) {elements : List Element}
    (h : call.elements = some elements) : ∀ e ∈ elements, Element.Regular e := by
  cases call with
  | homePage nowTemp switchState select =>
    cases h
    exact regular_homePage nowTemp switchState select
  | _ => exact (laidOut_elements hcall trivial h).1.regular

end InfraredModule.Analysis
