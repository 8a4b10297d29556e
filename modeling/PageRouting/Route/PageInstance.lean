import PageRouting.Application
import PageRouting.Route
import PageRouting.Token.Query

/-! The route of page instances, whatever their class. -/
namespace PageRouting

variable {W : Type}

namespace PageInstance

/-- Whether an address lies below the reserved segments; what follows these does not matter. -/
def fits (s : Settings) (u : Url) : Bool := [s.rootSegment, s.pageSegment].isPrefixOf u.path

def dispatch (app : Application W) (u : Url) : Run W (Option Handler) :=
  if fits app.settings u then
    match Token.ofQuery u.query with
    | (none, _) => return none
    | (some token, parameters) =>
      match token.locator.version with
      | none => return none
      | some v => app.resume none parameters v token.callback?
  else return none

/-- The page of a reference, unless it is stateless and so has no address. -/
def storedPage (app : Application W) (r : PageReference) : Run W (Option Page) := do
  match ← r.page app.pages with
  | .ok page => return if page.stateless then none else some page
  | .error e =>
    .log (.pageUnavailable .instanceAddress e)
    return none

def write (s : Settings) (token : Token) : Url :=
  ⟨[s.rootSegment, s.pageSegment], Token.toQuery (some token) {}⟩

def linkPage (app : Application W) (r : PageReference) : Run W (Option Url) := do
  match ← storedPage app r with
  | none => return none
  | some page => return some (write app.settings (.page (← page.locate)))

def linkCallback (app : Application W) (call : Invocation) : Run W (Option Url) := do
  match ← storedPage app call.page with
  | none => return none
  | some page => return (← app.callbackToken page call).map (write app.settings)

end PageInstance

/-- Page instances, and callbacks that do not name a page class. -/
def Route.pageInstance (app : Application W) : Route W where
  score u := return if PageInstance.fits app.settings u then 2 else 0
  dispatch := PageInstance.dispatch app
  link h :=
    match h with
    | .renderPage r => PageInstance.linkPage app r
    | .listener call => PageInstance.linkCallback app call
    | .bookmarkablePage .. => return none
    | .bookmarkableListener _ => return none

end PageRouting
