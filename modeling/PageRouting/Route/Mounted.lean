import PageRouting.Mount
import PageRouting.Route

/-! The route of a mount. -/
namespace PageRouting

variable {W : Type}

/-- What an address means: without a page id it asks for a new page. -/
def PageAddress.handler (a : PageAddress) (app : Application W) : Run W (Option Handler) :=
  match a.token.bind (·.locator.version) with
  | none => return some (.renderPage ⟨.fresh a.cls, a.parameters, true⟩)
  | some v => app.resume (some a.cls) a.parameters v (a.token.bind Token.callback?)

/-- The token of a page's own address. A stateless page has none, since its id would not be found. -/
def Page.token (p : Page) : Run W (Option Token) :=
  if p.stateless then return none else return some (.page (← p.locate))

namespace Mount

/-- Writes an address, and reports why where it cannot. -/
def link (m : Mount) (s : Settings) (a : PageAddress) : Run W (Option Url) :=
  match m.write s a with
  | .ok u => return some u
  | .error gap => do
    .logAll (gap.events a.cls)
    return none

def linkPage (m : Mount) (app : Application W) (r : PageReference) : Run W (Option Url) := do
  match ← r.page app.pages with
  | .error e =>
    .log (.pageUnavailable .rendering e)
    return none
  | .ok page =>
    if m.accepts page.cls && (page.bookmarkable || !m.onlyBookmarkable) then
      m.link app.settings ⟨← page.token, page.cls, r.parameters⟩
    else return none

def linkCallback (m : Mount) (app : Application W) (call : Invocation) : Run W (Option Url) := do
  match ← call.page.page app.pages with
  | .error e =>
    .log (.pageUnavailable .callback e)
    return none
  | .ok page =>
    if m.accepts page.cls then
      match ← app.callbackToken page call with
      | none => return none
      | some token => m.link app.settings ⟨some token, page.cls, call.page.parameters⟩
    else return none

end Mount

/-- The addresses of a mount. Callbacks get one only if they are to name their page class. -/
def Route.mounted (app : Application W) (m : Mount) : Route W where
  score u := return m.score app.settings u
  dispatch u := do
    match ← m.read app u with
    | none => return none
    | some a => a.handler app
  link h :=
    match h with
    | .bookmarkablePage cls parameters =>
      if m.accepts cls then m.link app.settings ⟨some (.page {}), cls, parameters⟩ else return none
    | .renderPage r => m.linkPage app r
    | .bookmarkableListener call => m.linkCallback app call
    | .listener _ => return none

end PageRouting
