import PageRouting.Page

/-! What addresses are about: pages to render and callbacks to invoke. -/
namespace PageRouting

/-- Which page is meant. -/
inductive PageTarget
  /-- A new page. -/
  | fresh (cls : PageClass)
  /-- A stored page; class and render count are what the address expects of it. -/
  | stored (id : UInt32) (cls : Option PageClass) (renderCount : Option UInt32)
  /-- A page at hand. -/
  | loaded (page : Page)
  deriving DecidableEq, Repr

/-- A page that is only created or looked up when it is needed. -/
structure PageReference where
  target : PageTarget
  parameters : Parameters := {}
  /-- Whether the reference was given a page source to ask. It does not hold the source itself: that of the
  application in which it is followed stands for it. -/
  sourced : Bool := true
  deriving DecidableEq, Repr

namespace PageReference

def id? (r : PageReference) : Option UInt32 :=
  match r.target with
  | .fresh _ => none
  | .stored id _ _ => some id
  | .loaded page => some page.id

def cls? (r : PageReference) : Option PageClass :=
  match r.target with
  | .fresh cls => some cls
  | .stored _ cls _ => cls
  | .loaded page => some page.cls

def renderCount? (r : PageReference) : Option UInt32 :=
  match r.target with
  | .fresh _ => none
  | .stored _ _ count => count
  | .loaded page => some page.renderCount

/-- Whether a page will be created. -/
def isFresh (r : PageReference) : Bool :=
  match r.target with
  | .fresh _ => true
  | _ => false

end PageReference

/-- A call of a listener interface on a component of a page. -/
structure Invocation where
  page : PageReference
  path : ComponentPath
  interface : ListenerInterface
  behavior : Option UInt32 := none
  deriving DecidableEq, Repr

inductive HandlerKind
  | bookmarkablePage
  | renderPage
  | listener
  | bookmarkableListener
  deriving DecidableEq, Repr

def HandlerKind.name : HandlerKind → String
  | .bookmarkablePage => "bookmarkable-page"
  | .renderPage => "render-page"
  | .listener => "listener-interface"
  | .bookmarkableListener => "bookmarkable-listener-interface"

inductive Handler
  | bookmarkablePage (cls : PageClass) (parameters : Parameters)
  | renderPage (page : PageReference)
  | listener (call : Invocation)
  /-- A callback whose address also names the class of its page. -/
  | bookmarkableListener (call : Invocation)
  deriving DecidableEq, Repr

namespace Handler

def kind : Handler → HandlerKind
  | .bookmarkablePage .. => .bookmarkablePage
  | .renderPage _ => .renderPage
  | .listener _ => .listener
  | .bookmarkableListener _ => .bookmarkableListener

/-- The page parameters that a handler carries. -/
def parameters : Handler → Parameters
  | .bookmarkablePage _ parameters => parameters
  | .renderPage page => page.parameters
  | .listener call => call.page.parameters
  | .bookmarkableListener call => call.page.parameters

end Handler
end PageRouting
