import PageRouting.PageSource
import PageRouting.Registry

/-! What all routes of an application share. -/
namespace PageRouting

structure Application (W : Type) where
  settings : Settings
  registry : Registry
  pages : PageSource W

variable {W : Type}

/-- Registers interfaces one by one and reports each. -/
def Registry.declare : Registry → List ListenerInterface → Run W (Except RoutingError Registry)
  | r, [] => return .ok r
  | r, i :: is => do
    match r.register i with
    | (.error e, _) => return .error e
    | (.ok (), r) =>
      .log (.interfaceRegistered i.name)
      r.declare is

/-- Valid settings and the registry that they declare. -/
def Application.ofSettings (settings : Settings) (pages : PageSource W) :
    Run W (Except RoutingError (Application W)) := do
  match settings.validate with
  | .error fault => return .error (.invalidSettings fault)
  | .ok () =>
    match ← Registry.builtins.declare settings.interfaces with
    | .error e => return .error e
    | .ok registry => return .ok ⟨settings, registry, pages⟩

namespace Application

/-- The handler of an address that names a page instance, of a class if it names one too. A callback
needs a registered interface. -/
def resume (app : Application W) (cls : Option PageClass) (parameters : Parameters) (v : PageVersion) :
    Option Callback → Run W (Option Handler)
  | none => return some (.renderPage ⟨.stored v.id cls (some v.renderCount), parameters, true⟩)
  | some target =>
    match app.registry.resolve target.interface with
    | some interface =>
      return some (.listener ⟨⟨.stored v.id cls (some v.renderCount), parameters, true⟩,
        target.path, interface, target.behavior⟩)
    | none => do
      .log (.unknownInterface target.interface ((cls.map .ofClass).getD (.ofInstance v.id)))
      return none

/-- The token of a callback on a page. Only registered interfaces have one. -/
def callbackToken (app : Application W) (page : Page) (call : Invocation) : Run W (Option Token) :=
  match app.registry.nameOf call.interface with
  | none => return none
  | some name => do
    let locator ← page.locate
    return some (.callback locator.pageMap page.version ⟨name, call.behavior, call.path⟩)

end Application
end PageRouting
