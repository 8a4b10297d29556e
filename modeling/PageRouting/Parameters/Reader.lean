import PageRouting.Parameters
import PageRouting.Text.Decimal
import PageRouting.Text.IntegerRange

/-! Typed reading of page parameters. -/
namespace PageRouting

/-- What makes a text unreadable as a value of a type. -/
inductive ReadFault
  | integer (fault : IntegerFault)
  | notBoolean
  deriving DecidableEq, Repr

def ReadFault.message : ReadFault → String
  | .integer fault => fault.message
  | .notBoolean => "provided string was not \x60true\x60 or \x60false\x60"

/-- A type of parameter: its name and how its values are read. -/
structure Reader (α : Type) where
  typeName : String
  read : Text → Except ReadFault α

namespace Reader

def integer (range : IntegerRange) : Reader Int where
  typeName := range.name
  read t := (range.read t).mapError .integer

def boolean : Reader Bool where
  typeName := "bool"
  read t :=
    if t = "true".toList then .ok true
    else if t = "false".toList then .ok false
    else .error .notBoolean

def text : Reader Text where
  typeName := "String"
  read := .ok

end Reader

/-- Why a parameter could not be read. A positional value is named by its index. -/
inductive ParameterError
  | missing (name : Text)
  | indexOutOfRange (index length : Nat)
  | unreadable (name : Text) (typeName : String) (value : Text) (fault : ReadFault)
  deriving DecidableEq, Repr

def ParameterError.message : ParameterError → String
  | .missing name => s!"missing page parameter: {String.ofList name}"
  | .indexOutOfRange index length => s!"indexed parameter {index} out of range (have {length})"
  | .unreadable name typeName value fault =>
    s!"failed to parse parameter '{String.ofList name}' value '{String.ofList value}' as {typeName}: "
      ++ fault.message

namespace Reader
variable {α : Type}

/-- Reads a present value; `name` only serves the error. -/
def readAs (r : Reader α) (name value : Text) : Except ParameterError α :=
  (r.read value).mapError fun fault => .unreadable name r.typeName value fault

end Reader

namespace Parameters
variable {α : Type}

def getAs (p : Parameters) (r : Reader α) (name : Text) : Except ParameterError α :=
  match p.get? name with
  | some value => r.readAs name value
  | none => .error (.missing name)

def indexedAs (p : Parameters) (r : Reader α) (index : Nat) : Except ParameterError α :=
  match p.indexed[index]? with
  | some value => r.readAs (Decimal.ofNat index) value
  | none => .error (.indexOutOfRange index p.indexed.length)

end Parameters
end PageRouting
