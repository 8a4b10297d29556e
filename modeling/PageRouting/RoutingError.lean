import PageRouting.MountPath
import PageRouting.Settings
import PageRouting.Text.Decimal

/-! What can go wrong outside of reading addresses. An address that does not fit is no error: it is
left to the next route. -/
namespace PageRouting

inductive RoutingError
  | invalidPageMapName (name : Text)
  | renderCountWithoutPage (count : UInt32)
  | callbackWithoutPage
  | invalidComponentPath (path : Text)
  | invalidInterfaceName (name : Text)
  | interfaceTaken (name : Text)
  | invalidMountPath (path : Text) (fault : MountFault)
  | invalidSettings (fault : SettingsFault)
  /-- A page was asked for by class or id where nothing provides pages. -/
  | noPageSource (cls : Option Text) (id : Option UInt32)
  | unknownClass (cls : Text)
  | unknownPage (id : UInt32)
  | expiredPage (id requested : UInt32)
  /-- A component that is not, or no longer, on its page. -/
  | staleComponent (cls : Text) (id : UInt32) (path : Text)
  | handlerFailed (reason : Text)
  deriving DecidableEq, Repr

namespace RoutingError

/-- A page by its class and id, as far as they are known. -/
def pageLabel : Option Text → Option UInt32 → String
  | some cls, some id => s!"{String.ofList cls}#{id}"
  | some cls, none => s!"new {String.ofList cls}"
  | none, some id => s!"page #{id}"
  | none, none => "an unspecified page"

def message : RoutingError → String
  | .invalidPageMapName name =>
    s!"invalid page map name '{String.ofList name}': expected letters, digits or '_' with "
      ++ "at least one non-digit"
  | .renderCountWithoutPage count => s!"render count {count} given without a page id"
  | .callbackWithoutPage => "component info requires a page id"
  | .invalidComponentPath path => s!"invalid component path '{String.ofList path}'"
  | .invalidInterfaceName name => s!"invalid listener interface name '{String.ofList name}'"
  | .interfaceTaken name => s!"listener interface '{String.ofList name}' is already registered"
  | .invalidMountPath path fault => s!"invalid mount path '{String.ofList path}': {fault.message}"
  | .invalidSettings fault => s!"invalid mapper settings: {fault.message}"
  | .noPageSource cls id => s!"no page source available to provide {pageLabel cls id}"
  | .unknownClass cls => s!"page class '{String.ofList cls}' not found"
  | .unknownPage id => s!"page {id} not found"
  | .expiredPage id requested => s!"page {id} expired (requested render count {requested})"
  | .staleComponent cls id path =>
    s!"listener target '{String.ofList path}' does not exist on page {pageLabel cls id}; "
      ++ "the component hierarchy may have changed since the URL was rendered"
  | .handlerFailed reason => s!"request handler failed: {String.ofList reason}"

end RoutingError
end PageRouting
