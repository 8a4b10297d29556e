import PageRouting.Token.Basic

/-! Pages as routing sees them: their identity, how they came about, and which components they have. -/
namespace PageRouting

/-- A type of page, known by its name. -/
structure PageClass where
  name : Text
  deriving DecidableEq, Repr

/-- The components of a page, by the text of their paths. -/
inductive Components
  | all
  | listed (paths : List Text)
  deriving DecidableEq, Repr

structure Page where
  id : UInt32
  cls : PageClass
  renderCount : UInt32 := 0
  pageMap : Option Text := none
  /-- Whether the page came from an address that names its class. -/
  bookmarkable : Bool := false
  /-- Stateless pages are not kept, so no address carries their id. -/
  stateless : Bool := false
  components : Components := .all
  deriving DecidableEq, Repr

namespace Page

def contains (p : Page) (path : ComponentPath) : Bool :=
  match p.components with
  | .all => true
  | .listed paths => path.render ∈ paths

def version (p : Page) : PageVersion := ⟨p.id, p.renderCount⟩

/-- The page map as a token can carry it; a name that would be misread is left out. -/
def pageMapName? (p : Page) : Option PageMapName := p.pageMap.bind PageMapName.ofText?

/-- The page map that a token cannot carry. -/
def droppedPageMap? (p : Page) : Option Text := p.pageMap.filter fun t => !isPageMapName t

def locator (p : Page) : PageLocator := ⟨p.pageMapName?, some p.version⟩

end Page
end PageRouting
