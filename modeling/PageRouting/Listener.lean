import PageRouting.Text

/-! Listener interfaces: the callback contracts that addresses name. -/
namespace PageRouting

/-- A name that addresses carry, and whether the page is rendered again after the callback. -/
structure ListenerInterface where
  name : Text
  rendersPage : Bool := false
  deriving DecidableEq, Repr

namespace ListenerInterface

def link : ListenerInterface := ⟨"ILinkListener".toList, true⟩
def formSubmit : ListenerInterface := ⟨"IFormSubmitListener".toList, true⟩
def onChange : ListenerInterface := ⟨"IOnChangeListener".toList, true⟩
def behavior : ListenerInterface := ⟨"IBehaviorListener".toList, false⟩
def redirect : ListenerInterface := ⟨"IRedirectListener".toList, true⟩
def resource : ListenerInterface := ⟨"IResourceListener".toList, false⟩

/-- Those that every application knows. -/
def builtins : List ListenerInterface := [link, formSubmit, onChange, behavior, redirect, resource]

end ListenerInterface
end PageRouting
