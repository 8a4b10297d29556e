import PageRouting.Query

/-! Page parameters: positional values, and named values in the order in which their names came. -/
namespace PageRouting

/-- Each name with its values, as a map that keeps the order of insertion: a name has the place at which it first
came, a new value for it does not move it, and when one goes the others move up in their order. -/
abbrev NamedValues := List (Text × List Text)

namespace NamedValues

/-- Under a new name at the end, else after the values of that name. -/
def add : NamedValues → Text → Text → NamedValues
  | [], n, v => [(n, [v])]
  | (m, vs) :: rest, n, v => if m = n then (m, vs ++ [v]) :: rest else (m, vs) :: add rest n v

/-- Replaces the values of a name where it stands, or adds it at the end. -/
def set : NamedValues → Text → List Text → NamedValues
  | [], n, vs => [(n, vs)]
  | (m, ws) :: rest, n, vs => if m = n then (m, vs) :: rest else (m, ws) :: set rest n vs

def erase (nv : NamedValues) (n : Text) : NamedValues := nv.filter (·.1 ≠ n)

def values? (nv : NamedValues) (n : Text) : Option (List Text) := nv.lookup n

/-- One pair for each value, name by name. -/
def pairs (nv : NamedValues) : List (Text × Text) := nv.flatMap fun e => e.2.map (e.1, ·)

end NamedValues

structure Parameters where
  indexed : List Text := []
  named : NamedValues := []
  deriving DecidableEq, Repr

namespace Parameters

def isEmpty (p : Parameters) : Bool := p.indexed.isEmpty && p.named.isEmpty

def push (p : Parameters) (value : Text) : Parameters := { p with indexed := p.indexed ++ [value] }

def add (p : Parameters) (name value : Text) : Parameters := { p with named := p.named.add name value }

def set (p : Parameters) (name value : Text) : Parameters :=
  { p with named := p.named.set name [value] }

def erase (p : Parameters) (name : Text) : Parameters := { p with named := p.named.erase name }

def values? (p : Parameters) (name : Text) : Option (List Text) := p.named.values? name

def values (p : Parameters) (name : Text) : List Text := (p.values? name).getD []

def get? (p : Parameters) (name : Text) : Option Text := (p.values name).head?

def names (p : Parameters) : List Text := p.named.map Prod.fst

def pairs (p : Parameters) : List (Text × Text) := p.named.pairs

/-- The first value of a name, and the parameters without it. A name goes with its last value. -/
def takeFirst (p : Parameters) (name : Text) : Option Text × Parameters :=
  match p.values? name with
  | none => (none, p)
  | some [] => (none, p.erase name)
  | some [v] => (some v, p.erase name)
  | some (v :: vs) => (some v, { p with named := p.named.set name vs })

def pushAll (p : Parameters) (values : List Text) : Parameters := values.foldl push p

def addAll (p : Parameters) (pairs : List (Text × Text)) : Parameters :=
  pairs.foldl (fun p e => p.add e.1 e.2) p

/-- The positional values of `q` after those of `p`, and each of its named values added to `p`. -/
def merge (p q : Parameters) : Parameters := (p.pushAll q.indexed).addAll q.pairs

/-- Equality as maps have it that keep the order of insertion. The order does not count: there are as many names, and
each of them has the same values, in the same order. -/
def same (p q : Parameters) : Bool :=
  p.indexed == q.indexed && p.named.length == q.named.length &&
    p.named.all fun e => q.values? e.1 == some e.2

/-- Every entry as a named value; a flag has an empty one. -/
def ofQuery (q : Query) : Parameters :=
  Parameters.addAll {} (q.map fun e => (e.name, e.content))

/-- Adds what one pair of a query text says. Without a `=` it is a name with an empty value. -/
def addText (p : Parameters) (pair : Text) : Parameters :=
  let (name, value) := (pair.cut? '=').getD (pair, [])
  p.add (QueryEntry.decode name) (QueryEntry.decode value)

/-- The pairs of a query text, with or without its leading `?`, added one by one. Empty ones are skipped. -/
def ofQueryText (t : Text) : Parameters :=
  let pairs : Text := if t.head? = some '?' then t.tail else t
  ((pairs.splitOn '&').filter (!·.isEmpty)).foldl addText {}

end Parameters
end PageRouting
