import PageRouting.RoutingError

/-! The listener interfaces that an application knows, each entered under a name. -/
namespace PageRouting

structure Registry where
  entries : List (Text × ListenerInterface) := []
  deriving DecidableEq, Repr

namespace Registry

def resolve (r : Registry) (name : Text) : Option ListenerInterface := r.entries.lookup name

/-- Enters an interface under a name, in place of the one that stands there. -/
def insert (r : Registry) (name : Text) (i : ListenerInterface) : Registry :=
  ⟨r.entries.filter (·.1 ≠ name) ++ [(name, i)]⟩

def builtins : Registry := ListenerInterface.builtins.foldl (fun r i => r.insert i.name i) {}

/-- The name of an interface, unless another one or none is registered under it. -/
def nameOf (r : Registry) (i : ListenerInterface) : Option Text :=
  ((r.resolve i.name).filter (· = i)).map (·.name)

def size (r : Registry) : Nat := r.entries.length

/-- Enters an interface under its own name. The registry is given back beside the result, whether the interface
is refused or not. -/
def register (r : Registry) (i : ListenerInterface) : Except RoutingError Unit × Registry :=
  if !i.name.isIdentifier then (.error (.invalidInterfaceName i.name), r)
  else if (r.resolve i.name).isSome then (.error (.interfaceTaken i.name), r)
  else (.ok (), r.insert i.name i)

/-- The registry with all of the interfaces, unless one of them is refused. -/
def registerAll (r : Registry) : List ListenerInterface → Except RoutingError Registry
  | [] => .ok r
  | i :: is =>
    match r.register i with
    | (.ok (), r) => r.registerAll is
    | (.error e, _) => .error e

/-- The built-in interfaces and those that the settings declare. -/
def ofSettings (s : Settings) : Except RoutingError Registry := builtins.registerAll s.interfaces

/-- All interfaces in the order of their names. -/
def sorted (r : Registry) : List ListenerInterface :=
  (r.entries.map (·.2)).mergeSort fun i j => !(decide (j.name < i.name))

end Registry
end PageRouting
