import PageRouting.Application
import PageRouting.Token.Query

/-! Mounts: shapes of addresses that lead to page classes. -/
namespace PageRouting

/-- What an address of a mount says. -/
structure PageAddress where
  token : Option Token
  cls : PageClass
  parameters : Parameters
  deriving DecidableEq, Repr

inductive Mount
  /-- One class at a path of its own. -/
  | path (path : MountPath) (cls : PageClass)
  /-- One class at the application root. -/
  | home (cls : PageClass)
  /-- Every class, by its name below the reserved segments. -/
  | byClass
  deriving DecidableEq, Repr

/-- What an address would need and does not get. -/
inductive MountGap
  | placeholder (mountPath name : Text)
  /-- The application root has no room for positional values. -/
  | positional
  deriving DecidableEq, Repr

/-- What is reported when an address cannot be written. -/
def MountGap.events (cls : PageClass) : MountGap → List Event
  | .placeholder mountPath name => [.placeholderMissing mountPath name, .addressRefused cls]
  | .positional => [.addressRefused cls]

/-- The largest score of a route. -/
def maxScore : Nat := 0x7FFFFFFF

namespace Mount

/-- The class name below the reserved segments, and the segments after it. -/
def className? (s : Settings) (u : Url) : Option (Text × List Text) :=
  match u.path with
  | first :: second :: name :: rest =>
    if first = s.rootSegment ∧ second = s.classSegment ∧ name ≠ [] then some (name, rest) else none
  | _ => none

def isRoot (u : Url) : Bool := u.path.all (·.isEmpty)

/-- How well an address fits: paths count their literals. -/
def score (m : Mount) (s : Settings) (u : Url) : Int :=
  match m with
  | .path p _ =>
    if (MountSegment.read? p.segments u.path).isSome then (min p.literalCount maxScore : Nat) else 0
  | .home _ => if isRoot u then 1 else 0
  | .byClass => if (className? s u).isSome then 1 else 0

/-- Whether addresses of a page class may be written. -/
def accepts (m : Mount) (cls : PageClass) : Bool :=
  match m with
  | .path _ mounted => cls = mounted
  | .home mounted => cls = mounted
  | .byClass => true

/-- Whether only pages that came from an address of their class have addresses here. -/
def onlyBookmarkable : Mount → Bool
  | .byClass => true
  | _ => false

def address (u : Url) (cls : PageClass) (bound : List (Text × Text)) (rest : List Text) : PageAddress :=
  let (token, named) := Token.ofQuery u.query
  let parameters := ((Parameters.addAll {} bound).merge named).pushAll (rest.filter (!·.isEmpty))
  ⟨token, cls, parameters⟩

/-- Reads an address of this mount. Values of placeholders come before all values of the query, and
the segments after the mount's own are positional. -/
def read {W : Type} (m : Mount) (app : Application W) (u : Url) : Run W (Option PageAddress) :=
  match m with
  | .path p cls =>
    return (MountSegment.read? p.segments u.path).map fun r => address u cls r.1 r.2
  | .home cls => return if isRoot u then some (address u cls [] []) else none
  | .byClass =>
    match className? app.settings u with
    | none => return none
    | some (name, rest) => do
      match ← app.pages.resolve name with
      | some cls => return some (address u cls [] rest)
      | none =>
        .log (.unknownClass name)
        return none

/-- Writes an address. -/
def write (m : Mount) (s : Settings) (a : PageAddress) : Except MountGap Url :=
  match m with
  | .path p _ =>
    match MountSegment.fill p.segments a.parameters with
    | .ok (segments, rest) => .ok ⟨segments ++ rest.indexed, Token.toQuery a.token rest⟩
    | .error name => .error (.placeholder p.text name)
  | .home _ =>
    if a.parameters.indexed.isEmpty then .ok ⟨[], Token.toQuery a.token a.parameters⟩
    else .error .positional
  | .byClass =>
    .ok ⟨s.rootSegment :: s.classSegment :: a.cls.name :: a.parameters.indexed,
      Token.toQuery a.token a.parameters⟩

end Mount
end PageRouting
