import PageRouting.ComponentPath

/-! What the token of an address says: a page instance, and perhaps a callback on one of its
components. -/
namespace PageRouting

/-- Letters, digits or `_`, and not digits alone, which would read as a page id. -/
def isPageMapName (t : Text) : Bool :=
  t.all (fun c => c.isAlphanum || c == '_') && t.any (!·.isDigit)

structure PageMapName where
  text : Text
  valid : isPageMapName text
  deriving DecidableEq, Repr

def PageMapName.ofText? (t : Text) : Option PageMapName :=
  if h : isPageMapName t then some ⟨t, h⟩ else none

/-- The name of a page map, where one is given. -/
def PageMapName.check : Option Text → Except RoutingError (Option PageMapName)
  | none => .ok none
  | some t =>
    match ofText? t with
    | some name => .ok (some name)
    | none => .error (.invalidPageMapName t)

/-- A page instance at one of its renderings. -/
structure PageVersion where
  id : UInt32
  renderCount : UInt32 := 0
  deriving DecidableEq, Repr

/-- A page map and a page instance, each of them optional. Only an instance has a render count. -/
structure PageLocator where
  pageMap : Option PageMapName := none
  version : Option PageVersion := none
  deriving DecidableEq, Repr

namespace PageLocator

def isEmpty (l : PageLocator) : Bool := l.pageMap.isNone && l.version.isNone

def id? (l : PageLocator) : Option UInt32 := l.version.map (·.id)

def renderCount (l : PageLocator) : UInt32 := (l.version.map (·.renderCount)).getD 0

/-- A bad page map name is reported before a render count that belongs to no page. -/
def ofParts (pageMap : Option Text) (id : Option UInt32) (renderCount : UInt32) :
    Except RoutingError PageLocator := do
  let name ← PageMapName.check pageMap
  match id with
  | some id => return ⟨name, some ⟨id, renderCount⟩⟩
  | none => if renderCount ≠ 0 then throw (.renderCountWithoutPage renderCount) else return ⟨name, none⟩

end PageLocator

/-- A call of a listener interface on a component or on one of its behaviors. -/
structure Callback where
  interface : Text
  behavior : Option UInt32
  path : ComponentPath
  deriving DecidableEq, Repr

/-- A callback always concerns a page instance. -/
inductive Token
  | page (locator : PageLocator)
  | callback (pageMap : Option PageMapName) (version : PageVersion) (target : Callback)
  deriving DecidableEq, Repr

namespace Token

def locator : Token → PageLocator
  | .page locator => locator
  | .callback pageMap version _ => ⟨pageMap, some version⟩

def callback? : Token → Option Callback
  | .page _ => none
  | .callback _ _ target => some target

def isEmpty : Token → Bool
  | .page locator => locator.isEmpty
  | .callback .. => false

/-- A locator with the callback that was rendered at the given count. The two share one render
count, and the callback's wins. -/
def ofParts (locator : PageLocator) (target : Option (UInt32 × Callback)) : Except RoutingError Token :=
  match target, locator.version with
  | none, _ => .ok (.page locator)
  | some _, none => .error .callbackWithoutPage
  | some (count, target), some version =>
    .ok (.callback locator.pageMap { version with renderCount := count } target)

end Token
end PageRouting
