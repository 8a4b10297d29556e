import PageRouting.Text

/-! Values of TOML documents, and the rules by which tables grow. -/
namespace PageRouting.Toml

/-- How a table came about, which decides what may still be added to it. -/
inductive TableKind
  /-- By a header of its own. -/
  | header
  /-- By the header of a table below it. -/
  | implied
  /-- By a dotted key. -/
  | dotted
  /-- Between braces. -/
  | inline
  deriving DecidableEq, Repr

inductive Value
  | text (t : Text)
  | boolean (b : Bool)
  | integer (n : Int)
  | float
  /-- Starts out as a number, but is none or is beyond all machine types. This matters only where
  the value is looked at. -/
  | illegible
  /-- A date, a time or both. -/
  | moment
  | array (items : List Value)
  | table (kind : TableKind) (entries : List (Text × Value))
  /-- Tables that share one header, one for each time that it occurs. -/
  | tables (items : List Value)

namespace Value

mutual

/-- Whether all numbers in a value can be read. -/
def isLegible : Value → Bool
  | .illegible => false
  | .array items => allLegible items
  | .tables items => allLegible items
  | .table _ entries => entriesLegible entries
  | _ => true

def allLegible : List Value → Bool
  | [] => true
  | v :: vs => v.isLegible && allLegible vs

def entriesLegible : List (Text × Value) → Bool
  | [] => true
  | (_, v) :: es => v.isLegible && entriesLegible es

end

end Value

structure Table where
  kind : TableKind := .header
  entries : List (Text × Value) := []

namespace Table

def toValue (t : Table) : Value := .table t.kind t.entries

def find? (t : Table) (key : Text) : Option Value := t.entries.lookup key

/-- In place of the value of that key, or at the end. -/
def set (t : Table) (key : Text) (v : Value) : Table :=
  if (t.find? key).isSome then
    { t with entries := t.entries.map fun e => if e.1 = key then (key, v) else e }
  else { t with entries := t.entries ++ [(key, v)] }

/-- Changes the table at the end of a path, opening those that are missing. Of tables that share a
header the last one is meant. A dotted key does not lead through tables that have a header, and
nothing leads through an inline table. -/
def descend (dotted : Bool) (f : Table → Option Table) : List Text → Table → Option Table
  | [], t => f t
  | key :: path, t =>
    match t.find? key with
    | none => do
      let u ← descend dotted f path ⟨if dotted then .dotted else .implied, []⟩
      return t.set key u.toValue
    | some (.table kind entries) =>
      if kind = .inline || (dotted && kind = .header) then none
      else do
        let u ← descend dotted f path ⟨kind, entries⟩
        return t.set key u.toValue
    | some (.tables us) =>
      match us.getLast? with
      | some (.table kind entries) => do
        let u ← descend dotted f path ⟨kind, entries⟩
        return t.set key (.tables (us.dropLast ++ [u.toValue]))
      | _ => none
    | some _ => none

/-- A key gets its value once. A dotted key ends in a table of dotted keys, a plain one does not. -/
def insert (path : List Text) (key : Text) (v : Value) : Table → Option Table :=
  descend true (fun t =>
    if decide (t.kind = .dotted) == path.isEmpty || (t.find? key).isSome then none
    else some (t.set key v)) path

/-- A header gives a table its own place once; headers below it may have come first. -/
def openTable (path : List Text) (key : Text) : Table → Option Table :=
  descend false (fun t =>
    match t.find? key with
    | none => some (t.set key (.table .header []))
    | some (.table .implied entries) => some (t.set key (.table .header entries))
    | some _ => none) path

/-- One more of the tables that share a header. -/
def openNext (path : List Text) (key : Text) : Table → Option Table :=
  descend false (fun t =>
    match t.find? key with
    | none => some (t.set key (.tables [.table .header []]))
    | some (.tables us) => some (t.set key (.tables (us ++ [.table .header []])))
    | some _ => none) path

end Table
end PageRouting.Toml
