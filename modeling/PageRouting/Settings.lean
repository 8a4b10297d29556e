import PageRouting.Text.Identifier
import PageRouting.Listener

/-! Settings of an application: the path segments it reserves, the listener interfaces it declares
and its logging. -/
namespace PageRouting

structure Logging where
  level : Text := "info".toList
  withTarget : Bool := true
  deriving DecidableEq, Repr

structure Settings where
  /-- First segment of every reserved address. -/
  rootSegment : Text := "wicket".toList
  /-- Second segment of addresses of page instances. -/
  pageSegment : Text := "page".toList
  /-- Second segment of addresses that name a page class. -/
  classSegment : Text := "bookmarkable".toList
  interfaces : List ListenerInterface := []
  logging : Logging := {}
  deriving DecidableEq, Repr

/-- A reserved segment, by its key in a settings document. -/
inductive ReservedSegment
  | root
  | page
  | byClass
  deriving DecidableEq, Repr

def ReservedSegment.key : ReservedSegment → String
  | .root => "namespace"
  | .page => "page_identifier"
  | .byClass => "bookmarkable_identifier"

/-- What is wrong with settings. -/
inductive SettingsFault
  | badSegment (segment : ReservedSegment) (value : Text)
  | sameSegments (value : Text)
  | notIdentifier (interface : Text)
  | declaredTwice (interface : Text)
  deriving DecidableEq, Repr

def SettingsFault.message : SettingsFault → String
  | .badSegment segment value =>
    s!"invalid settings: {segment.key} must be a non-empty path segment, got '{String.ofList value}'"
  | .sameSegments value =>
    "invalid settings: page_identifier and bookmarkable_identifier must differ (both '"
      ++ String.ofList value ++ "')"
  | .notIdentifier interface =>
    s!"invalid settings: listener interface name '{String.ofList interface}' is not an identifier"
  | .declaredTwice interface =>
    s!"invalid settings: listener interface '{String.ofList interface}' declared twice"

namespace Settings

/-- A reserved segment has to survive in an address as it stands. -/
def isSegment (t : Text) : Bool := !t.isEmpty && t.all fun c => c ∉ ['/', '?', '#', '&', '=']

def checkSegment (segment : ReservedSegment) (value : Text) : Except SettingsFault Unit :=
  if isSegment value then .ok () else .error (.badSegment segment value)

/-- Declared interfaces in order, given the names declared before them. -/
def checkInterfaces : List Text → List ListenerInterface → Except SettingsFault Unit
  | _, [] => .ok ()
  | seen, i :: rest =>
    if !i.name.isIdentifier then .error (.notIdentifier i.name)
    else if i.name ∈ seen then .error (.declaredTwice i.name)
    else checkInterfaces (i.name :: seen) rest

/-- The first fault, in the order of the fields. -/
def validate (s : Settings) : Except SettingsFault Unit := do
  checkSegment .root s.rootSegment
  checkSegment .page s.pageSegment
  checkSegment .byClass s.classSegment
  if s.pageSegment = s.classSegment then throw (.sameSegments s.pageSegment)
  checkInterfaces [] s.interfaces

end Settings
end PageRouting
