import PageRouting.Route.Chain
import PageRouting.Route.Mounted
import PageRouting.Route.PageInstance

/-! Routing tables: trees of chains over mounts and page instances, of one application or of several. -/
namespace PageRouting

variable {W α : Type}

/-- A route of an application, as data. -/
inductive RouteShape
  | mount (mount : Mount)
  | pageInstance
  deriving DecidableEq, Repr

def RouteShape.toRoute (app : Application W) : RouteShape → Route W
  | .mount m => .mounted app m
  | .pageInstance => .pageInstance app

abbrev RoutingTable := RouteTree RouteShape

/-- A route with settings and a registry of its own. -/
structure RouteSetup where
  settings : Settings := {}
  registry : Registry := .builtins
  shape : RouteShape
  deriving DecidableEq, Repr

def RouteSetup.toRoute (s : PageSource W) (r : RouteSetup) : Route W := r.shape.toRoute ⟨r.settings, r.registry, s⟩

/-- A tree whose leaves are set up one by one, as a route over the pages of one source. -/
def RouteTree.route (setup : α → RouteSetup) (s : PageSource W) (t : RouteTree α) : Route W :=
  t.toRoute fun a => (setup a).toRoute s

end PageRouting
