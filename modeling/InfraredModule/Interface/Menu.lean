import InfraredModule.Model.System

/-!
# The menu the user sees

The pages form a tree under the home page. What the display thread keeps in the shift register
`pageInfor` stands for the path from the root to the page on top, and a row of the setting menu
stands for the page an Enter press on it opens. `menu` is the system in which the display's
memory is changed: the interrupt handlers, the buttons and the display iterations, a call of
`pageReturn` from anywhere at any time, and any change to the rest of the memory.
-/

set_option autoImplicit false

namespace InfraredModule.Interface

open InfraredModule.Foundation InfraredModule.Model

/-- The pages of the tree. -/
inductive Page where
  | home
  | setting
  | onekeyMatch
  | selectMode
  | learnMode
  | learnOn
  | learnOff
  | test
  deriving DecidableEq, Repr

namespace Page

/-- The number of a page.
SOURCE: Oled1309.h:28-39 -/
def code : Page → U8
  | .home => homePage
  | .setting => settingPage
  | .onekeyMatch => onekeyMatchPage
  | .selectMode => selectModePage
  | .learnMode => learnModePage
  | .learnOn => learnOnPage
  | .learnOff => learnOffPage
  | .test => testPage

/-- The pages from the root to a page. -/
def path : Page → List Page
  | .home => [.home]
  | .setting => [.home, .setting]
  | .onekeyMatch => [.home, .setting, .onekeyMatch]
  | .selectMode => [.home, .setting, .selectMode]
  | .learnMode => [.home, .setting, .learnMode]
  | .learnOn => [.home, .setting, .learnMode, .learnOn]
  | .learnOff => [.home, .setting, .learnMode, .learnOff]
  | .test => [.home, .setting, .test]

/-- The page below; the home page has none and stands for itself. -/
def parent : Page → Page
  | .home | .setting => .home
  | .onekeyMatch | .selectMode | .learnMode | .test => .setting
  | .learnOn | .learnOff => .learnMode

/-- The title under which the setting menu lists a page.
SOURCE: Oled1309.h:42-47 -/
def title : Page → Option String
  | .onekeyMatch => some "One Key Match"
  | .selectMode => some "Select Mode"
  | .learnMode => some "Learn Mode"
  | .test => some "Test Command"
  | _ => none

end Page

/-- A path as the shift register holds it: the root in the highest byte in use, the page on top in
the lowest. -/
def encode (path : List Page) : U32 :=
  path.foldl (fun pageInfor page => (pageInfor <<< 8) ||| page.code.setWidth 32) 0

/-- A step that may change the display's memory, or what it reads. -/
inductive MenuInput where
  | peer (p : Peer)
  | pageReturn
  | elsewhere (t : Firmware)

/-- The display's memory among everything else. -/
def menu : MenuInput → FwCmd
  | .peer p => peerStep p
  | .pageReturn => pageReturn
  | .elsewhere t => Cmd.modify fun s => { t with oled := s.oled }

/-! ## The tree and its paths -/

/-- The way to a page is the way to its parent and the page. -/
theorem Page.path_eq {page : Page} (h : page ≠ .home) : page.path = page.parent.path ++ [page] := by
  cases page with
  | home => exact absurd rfl h
  | _ => rfl

/-- A page behind a path is one more byte. -/
theorem encode_concat (path : List Page) (page : Page) :
    encode (path ++ [page]) = (encode path <<< 8) ||| page.code.setWidth 32 := by
  rw [encode, List.foldl_append]
  rfl

end InfraredModule.Interface
