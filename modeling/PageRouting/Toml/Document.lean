import PageRouting.Toml.Quoted
import PageRouting.Toml.Scalar

/-! TOML documents: statements one to a line, and the table that they build. The whole of TOML 1.1 is read, with
`maxDepth` as the bound on nesting. Texts, booleans, integers, arrays and tables have their values. Of floats,
dates and times only their kind is kept, since no setting is one. A number is looked at twice: where it stands,
only as far as it takes to find its end and its kind, and for good when its value is asked for. -/
namespace PageRouting.Toml

/-- The text after blanks, line ends and comments. `inComment` says that a comment is under way,
which runs to the end of its line and holds plain characters only. -/
def trivia (inComment : Bool) : Text → Option Text
  | [] => some []
  | '\n' :: t => trivia false t
  | '\r' :: '\n' :: t => trivia false t
  | c :: t =>
    if inComment then (if isPlain c then trivia true t else none)
    else if c = '#' then trivia true t
    else if isBlank c then trivia false t
    else some (c :: t)

/-- The text after the current line, in which only blanks and a comment may follow. -/
def lineEnd (t : Text) : Option Text := do
  let rest ← match t.dropWhile isBlank with
    | '#' :: t =>
      let (comment, rest) := t.span fun c => c ≠ '\n' && c ≠ '\r'
      if comment.all isPlain then some rest else none
    | t => some t
  match rest with
  | [] => some []
  | '\n' :: t => some t
  | '\r' :: '\n' :: t => some t
  | _ => none

def isBare (c : Char) : Bool := c.isAlphanum || c = '_' || c = '-'

/-- One part of a key: bare, or quoted within a line. -/
def keyPart (t : Text) : Option (Text × Text) :=
  match t with
  | '\x22' :: t => Quoted.read.line true '\x22' t
  | '\x27' :: t => Quoted.read.line false '\x27' t
  | t =>
    let (part, rest) := t.span isBare
    if part.isEmpty then none else some (part, rest)

/-- The parts of a key from left to right, with blanks around the dots. -/
def keyParts (t : Text) : Option (List Text × Text) :=
  match keyPart t with
  | none => none
  | some (part, rest) =>
    match rest.dropWhile isBlank with
    | '.' :: more =>
      let next : Text := more.dropWhile isBlank
      if _h : next.length < t.length then (keyParts next).map fun r => (part :: r.1, r.2) else none
    | rest => some ([part], rest)
termination_by t.length

/-- How deep arrays and inline tables are nested, and how many parts a key has. -/
def maxDepth : Nat := 80

/-- A key as the path to its table and its last part, and the text after it and after blanks. -/
def key (t : Text) : Option ((List Text × Text) × Text) := do
  let (parts, rest) ← keyParts t
  if maxDepth < parts.length then none
  return ((parts.dropLast, ← parts.getLast?), rest)

/-- Items between commas up to a closing character. A comma may follow the last one. -/
def items {α : Type} (item : Text → Option (α × Text)) (close : Char) (t : Text) :
    Option (List α × Text) :=
  match trivia false t with
  | none | some [] => none
  | some (c :: rest) =>
    if c = close then some ([], rest)
    else match item (c :: rest) with
      | none => none
      | some (a, rest) =>
        match trivia false rest with
        | none | some [] => none
        | some (d :: rest) =>
          if d = close then some ([a], rest)
          else if _h : d = ',' ∧ rest.length < t.length then
            (items item close rest).map fun r => (a :: r.1, r.2)
          else none
termination_by t.length
decreasing_by exact _h.2

/-- A key, an equals sign and a value, with what `skip` passes over around the sign. -/
def entry (skip : Text → Option Text) (value : Text → Option (Value × Text)) (t : Text) :
    Option ((List Text × Text × Value) × Text) := do
  let ((path, last), rest) ← key t
  match ← skip rest with
  | '=' :: rest =>
    let (v, rest) ← value (← skip rest)
    return ((path, last, v), rest)
  | _ => none

/-- An inline table is complete as it is written. -/
def inlineTable (entries : List (List Text × Text × Value)) : Option Value := do
  let t ← entries.foldlM (fun t (path, key, v) => Table.insert path key v t) { kind := .header }
  return .table .inline t.entries

/-- A value, in which arrays and inline tables are nested no deeper than `depth`. -/
def value : Nat → Text → Option (Value × Text)
  | depth, t =>
    match t with
    | '\x22' :: _ => (Quoted.read true '\x22' t).map fun r => (.text r.1, r.2)
    | '\x27' :: _ => (Quoted.read false '\x27' t).map fun r => (.text r.1, r.2)
    | '[' :: t =>
      match depth with
      | 0 => none
      | depth + 1 => (items (value depth) ']' t).map fun r => (.array r.1, r.2)
    | '\x7b' :: t =>
      match depth with
      | 0 => none
      | depth + 1 => do
        let (entries, rest) ← items (entry (trivia false) (value depth)) '\x7d' t
        return (← inlineTable entries, rest)
    | t => Scalar.read t

inductive Statement
  | entry (path : List Text) (key : Text) (value : Value)
  | header (path : List Text) (key : Text)
  | nextHeader (path : List Text) (key : Text)

/-- A statement and the lines after it. -/
def statement (t : Text) : Option (Statement × Text) :=
  match t with
  | '[' :: '[' :: t => do
    match ← key (t.dropWhile isBlank) with
    | ((path, last), ']' :: ']' :: rest) => return (.nextHeader path last, ← lineEnd rest)
    | _ => none
  | '[' :: t => do
    match ← key (t.dropWhile isBlank) with
    | ((path, last), ']' :: rest) => return (.header path last, ← lineEnd rest)
    | _ => none
  | t => do
    let ((path, last, v), rest) ← entry (fun t => some (t.dropWhile isBlank)) (value maxDepth) t
    return (.entry path last v, ← lineEnd rest)

def statements (t : Text) : Option (List Statement) :=
  match trivia false t with
  | none => none
  | some [] => some []
  | some (c :: rest) =>
    match statement (c :: rest) with
    | none => none
    | some (s, rest) => if _h : rest.length < t.length then (statements rest).map (s :: ·) else none
termination_by t.length

/-- A document under way: its table and the table of the last header. -/
structure Draft where
  root : Table := {}
  current : List Text := []

def Draft.add (d : Draft) : Statement → Option Draft
  | .entry path key v => do
    return { d with root := ← d.root.descend false (Table.insert path key v) d.current }
  | .header path key => do return ⟨← Table.openTable path key d.root, path ++ [key]⟩
  | .nextHeader path key => do return ⟨← Table.openNext path key d.root, path ++ [key]⟩

/-- The table that a document spells. A byte order mark in front does not count. -/
def parse (t : Text) : Option Table := do
  let t : Text := if t.head? = some '\ufeff' then t.tail else t
  let d ← (← statements t).foldlM Draft.add {}
  return d.root

end PageRouting.Toml
