import PageRouting.Parameters

/-! Mount paths: literal segments, and placeholders that bind a segment to a named parameter. -/
namespace PageRouting

inductive MountSegment
  | literal (text : Text)
  | placeholder (name : Text)
  deriving DecidableEq, Repr

namespace MountSegment

def name? : MountSegment → Option Text
  | .literal _ => none
  | .placeholder name => some name

def isLiteral : MountSegment → Bool
  | .literal _ => true
  | .placeholder _ => false

/-- The values of the placeholders at the front of a path, and the rest of the path. Literals have
to be there as they stand, placeholders take any segment but the empty one. -/
def read? : List MountSegment → List Text → Option (List (Text × Text) × List Text)
  | [], path => some ([], path)
  | _ :: _, [] => none
  | .literal text :: ms, s :: path => if text = s then read? ms path else none
  | .placeholder name :: ms, s :: path =>
    if s.isEmpty then none else (read? ms path).map fun r => ((name, s) :: r.1, r.2)

/-- The path with the first value of each placeholder's name, and the parameters left over. Fails
with the first placeholder that has no value or an empty one. -/
def fill : List MountSegment → Parameters → Except Text (List Text × Parameters)
  | [], p => .ok ([], p)
  | .literal text :: ms, p => (fill ms p).map fun r => (text :: r.1, r.2)
  | .placeholder name :: ms, p =>
    match p.takeFirst name with
    | (some (c :: v), q) => (fill ms q).map fun r => ((c :: v) :: r.1, r.2)
    | _ => .error name

end MountSegment

/-- What is wrong with the text of a mount path. -/
inductive MountFault
  | empty
  | emptySegment
  | malformedPlaceholder
  | repeatedPlaceholder
  deriving DecidableEq, Repr

def MountFault.message : MountFault → String
  | .empty => "mount path is empty"
  | .emptySegment => "empty segment"
  | .malformedPlaceholder => "malformed placeholder"
  | .repeatedPlaceholder => "placeholder used twice"

namespace MountPath

def isBrace (c : Char) : Bool := c = '\x7b' || c = '\x7d'

/-- The text between a leading and a closing brace. -/
def braced? : Text → Option Text
  | '\x7b' :: t => if t.getLast? = some '\x7d' then some t.dropLast else none
  | _ => none

/-- One segment after placeholders of the names `taken`. -/
def spellSegment (taken : List Text) (t : Text) : Except MountFault MountSegment :=
  if t.isEmpty then .error .emptySegment
  else match braced? t with
    | some name =>
      if name.isEmpty || name.any isBrace then .error .malformedPlaceholder
      else if name ∈ taken then .error .repeatedPlaceholder
      else .ok (.placeholder name)
    | none => if t.any isBrace then .error .malformedPlaceholder else .ok (.literal t)

def spellSegments : List Text → List Text → Except MountFault (List MountSegment)
  | _, [] => .ok []
  | taken, t :: ts => do
    let m ← spellSegment taken t
    return m :: (← spellSegments (m.name?.toList ++ taken) ts)

/-- The segments that a text spells; a `/` at either end does not count. -/
def spell (t : Text) : Except MountFault (List MountSegment) :=
  let inner := Text.trim '/' t
  if inner.isEmpty then .error .empty else spellSegments [] (inner.splitOn '/')

end MountPath

/-- A mount path as it was written, with its segments. -/
structure MountPath where
  text : Text
  segments : List MountSegment
  spelled : MountPath.spell text = .ok segments
  deriving DecidableEq, Repr

namespace MountPath

def parse (t : Text) : Except MountFault MountPath :=
  match h : spell t with
  | .ok segments => .ok ⟨t, segments, h⟩
  | .error fault => .error fault

/-- The names of the placeholders from left to right. -/
def placeholders (m : MountPath) : List Text := m.segments.filterMap MountSegment.name?

def literalCount (m : MountPath) : Nat := m.segments.countP MountSegment.isLiteral

end MountPath
end PageRouting
