import PageRouting.Run

/-! Where pages come from, and how references to pages are followed. -/
namespace PageRouting

/-- Creates pages, finds stored ones and knows the classes by name. -/
structure PageSource (W : Type) where
  create : PageClass → Parameters → Run W (Except RoutingError Page)
  /-- The class and the render count are expectations about the stored page. -/
  find : UInt32 → Option PageClass → Option UInt32 → Parameters → Run W (Except RoutingError Page)
  resolve : Text → Run W (Option PageClass)

namespace PageSource
variable {W : Type}

/-- The same source, noting each call before it is made. -/
def recorded (s : PageSource W) : PageSource W where
  create cls p := do
    .record (.create cls p)
    s.create cls p
  find id cls count p := do
    .record (.find id cls count p)
    s.find id cls count p
  resolve name := do
    .record (.resolve name)
    s.resolve name

end PageSource

variable {W : Type}

/-- Follows a reference. A page at hand needs no source, and a reference that was given one asks `s` for it. -/
def PageReference.page (r : PageReference) (s : PageSource W) : Run W (Except RoutingError Page) :=
  match r.target with
  | .loaded page => pure (.ok page)
  | .fresh cls =>
    if r.sourced then s.create cls r.parameters else pure (.error (.noPageSource (some cls.name) none))
  | .stored id cls count =>
    if r.sourced then s.find id cls count r.parameters
    else pure (.error (.noPageSource (cls.map (·.name)) (some id)))

/-- The page of an invocation, provided that it still has the component. -/
def Invocation.resolve (i : Invocation) (s : PageSource W) : Run W (Except RoutingError Page) := do
  match ← i.page.page s with
  | .error e => return .error e
  | .ok page =>
    if page.contains i.path then return .ok page
    else return .error (.staleComponent page.cls.name page.id i.path.render)

namespace Handler

/-- The page that a handler is about. -/
def page (h : Handler) (s : PageSource W) : Run W (Except RoutingError Page) :=
  match h with
  | .bookmarkablePage cls parameters => s.create cls parameters
  | .renderPage page => page.page s
  | .listener call => call.page.page s
  | .bookmarkableListener call => call.page.page s

/-- The page of a handler, and for a callback also that the page still has its component. -/
def resolve (h : Handler) (s : PageSource W) : Run W (Except RoutingError Page) :=
  match h with
  | .listener call => call.resolve s
  | .bookmarkableListener call => call.resolve s
  | h => h.page s

end Handler

/-- The locator of a page for a token; a page map that no token can carry is reported. -/
def Page.locate (p : Page) : Run W PageLocator := do
  .logAll (p.droppedPageMap?.toList.map .pageMapDropped)
  return p.locator

end PageRouting
