import PageRouting.Handler
import PageRouting.Url

/-! What routing reports about itself. -/
namespace PageRouting

/-- From the most to the least severe. -/
inductive Severity
  | warn
  | debug
  | trace
  deriving DecidableEq, Repr

namespace Severity

def name : Severity → String
  | .warn => "WARN"
  | .debug => "DEBUG"
  | .trace => "TRACE"

def rank : Severity → Nat
  | .warn => 0
  | .debug => 1
  | .trace => 2

end Severity

/-- Where a callback of an unknown interface was addressed to. -/
inductive CallbackSite
  | ofClass (cls : PageClass)
  | ofInstance (id : UInt32)
  deriving DecidableEq, Repr

/-- What a page was wanted for when an address was to be written. -/
inductive PageUse
  | rendering
  | callback
  | instanceAddress
  deriving DecidableEq, Repr

def PageUse.message : PageUse → String
  | .rendering => "page for render-page handler unavailable"
  | .callback => "page for listener handler unavailable"
  | .instanceAddress => "page for handler unavailable"

inductive Event
  | interfaceRegistered (name : Text)
  | pageMapDropped (name : Text)
  | unknownClass (name : Text)
  | unknownInterface (name : Text) (site : CallbackSite)
  | pageUnavailable (use : PageUse) (error : RoutingError)
  | placeholderMissing (mountPath placeholder : Text)
  | addressRefused (cls : PageClass)
  | requestMapped (index : Nat) (score : Int) (kind : HandlerKind)
  | handlerMapped (index : Nat) (kind : HandlerKind) (url : Url)
  | requestStarted (url : Url)
  | requestUnmatched (url : Url)
  | responseFailed (kind : HandlerKind) (error : RoutingError)
  | recoveryFailed (kind : HandlerKind) (error : RoutingError)
  | requestFinished (url : Url) (handled : Bool)
  deriving DecidableEq, Repr

namespace Event

def severity : Event → Severity
  | .unknownInterface .. | .responseFailed .. | .recoveryFailed .. => .warn
  | .requestMapped .. | .handlerMapped .. => .trace
  | _ => .debug

def message : Event → String
  | .interfaceRegistered _ => "listener interface registered"
  | .pageMapDropped _ => "page map name cannot be encoded, dropping it"
  | .unknownClass _ => "no page class for bookmarkable URL"
  | .unknownInterface .. => "unknown listener interface in request URL"
  | .pageUnavailable use _ => use.message
  | .placeholderMissing .. => "missing value for mount placeholder"
  | .addressRefused _ => "mount strategy could not build URL"
  | .requestMapped .. => "request mapped"
  | .handlerMapped .. => "handler mapped"
  | .requestStarted _ => "request cycle started"
  | .requestUnmatched _ => "no mapper matched request"
  | .responseFailed .. => "request handler failed"
  | .recoveryFailed .. => "exception handler failed"
  | .requestFinished .. => "request cycle finished"

/-- The details of an event, by name. -/
def fields : Event → List (String × String)
  | .interfaceRegistered name => [("name", String.ofList name)]
  | .pageMapDropped name => [("page_map", String.ofList name)]
  | .unknownClass name => [("class", String.ofList name)]
  | .unknownInterface name (.ofClass cls) =>
    [("listener_interface", String.ofList name), ("page_class", String.ofList cls.name)]
  | .unknownInterface name (.ofInstance id) =>
    [("listener_interface", String.ofList name), ("page_id", toString id)]
  | .pageUnavailable _ error => [("error", error.message)]
  | .placeholderMissing mountPath placeholder =>
    [("mount_path", String.ofList mountPath), ("placeholder", String.ofList placeholder)]
  | .addressRefused cls => [("page_class", String.ofList cls.name)]
  | .requestMapped index score kind =>
    [("mapper", toString index), ("score", toString score), ("handler", kind.name)]
  | .handlerMapped index kind url =>
    [("mapper", toString index), ("handler", kind.name), ("url", String.ofList url.render)]
  | .requestStarted url => [("url", String.ofList url.render)]
  | .requestUnmatched url => [("url", String.ofList url.render)]
  | .responseFailed kind error => [("error", error.message), ("handler", kind.name)]
  | .recoveryFailed kind error => [("error", error.message), ("handler", kind.name)]
  | .requestFinished url handled => [("url", String.ofList url.render), ("handled", toString handled)]

end Event
end PageRouting
