import PageRouting.Settings
import PageRouting.Text.Utf8
import PageRouting.Toml.Document

/-! Settings as TOML documents. Unknown keys are ignored and missing ones have defaults. -/
namespace PageRouting

/-- Why settings could not be loaded. -/
inductive LoadError
  | unreadable
  | malformed
  | invalid (fault : SettingsFault)
  deriving DecidableEq, Repr

namespace Toml.Value

/-- The fields of a record of the given names, by position: those of a table, or of an array in the
same order. Values under other names only have to be legible, and items after the last field are not
looked at. A date or time is a record without any of its fields. -/
def fields? (names : List String) : Value → Option (Nat → Option Value)
  | .table _ entries =>
    let known := names.map String.toList
    if entries.all fun e => e.1 ∈ known || e.2.isLegible then some fun i => known[i]?.bind (List.lookup · entries)
    else none
  | .array items => some fun i => items[i]?
  | .tables items => some fun i => items[i]?
  | .moment => some fun _ => none
  | _ => none

def text? : Value → Option Text
  | .text t => some t
  | _ => none

def boolean? : Value → Option Bool
  | .boolean b => some b
  | _ => none

def items? : Value → Option (List Value)
  | .array items => some items
  | .tables items => some items
  | _ => none

end Toml.Value

namespace Toml

/-- The default where there is no value; a value has to be readable. -/
def fieldOr {α : Type} (v : Option Value) (read : Value → Option α) (fallback : α) : Option α :=
  match v with
  | none => some fallback
  | some v => read v

end Toml

open Toml (Value fieldOr)

/-- The name is required. -/
def ListenerInterface.ofValue? (v : Value) : Option ListenerInterface := do
  let field ← v.fields? ["name", "renders_page"]
  return ⟨← (← field 0).text?, ← fieldOr (field 1) Value.boolean? false⟩

def Logging.ofValue? (v : Value) : Option Logging := do
  let field ← v.fields? ["level", "with_target"]
  let d : Logging := {}
  return ⟨← fieldOr (field 0) Value.text? d.level, ← fieldOr (field 1) Value.boolean? d.withTarget⟩

namespace Settings

def ofValue? (v : Value) : Option Settings := do
  let field ← v.fields? [ReservedSegment.root.key, ReservedSegment.page.key, ReservedSegment.byClass.key,
    "listener_interfaces", "logging"]
  let d : Settings := {}
  return {
    rootSegment := ← fieldOr (field 0) Value.text? d.rootSegment
    pageSegment := ← fieldOr (field 1) Value.text? d.pageSegment
    classSegment := ← fieldOr (field 2) Value.text? d.classSegment
    interfaces := ← fieldOr (field 3)
      (fun v => do (← v.items?).mapM ListenerInterface.ofValue?) d.interfaces
    logging := ← fieldOr (field 4) Logging.ofValue? d.logging }

/-- Reads and validates the settings of a document. -/
def ofDocument (t : Text) : Except LoadError Settings :=
  match (Toml.parse t).bind fun table => ofValue? table.toValue with
  | none => .error .malformed
  | some s =>
    match s.validate with
    | .ok () => .ok s
    | .error fault => .error (.invalid fault)

/-- The same from the octets of a file, if there is one. -/
def ofFile (octets : Option (List UInt8)) : Except LoadError Settings :=
  match octets.bind Utf8.decode? with
  | none => .error .unreadable
  | some t => ofDocument t

end Settings
end PageRouting
