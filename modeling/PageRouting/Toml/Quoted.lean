import PageRouting.Text.Percent

/-! Quoted text in TOML: in double quotes with escapes, in single quotes as it stands, each also over
several lines between triple quotes. -/
namespace PageRouting.Toml

def isBlank (c : Char) : Bool := c = ' ' || c = '\t'

/-- What may stand in a line: all but the control characters, of which a tab is allowed. -/
def isPlain (c : Char) : Bool := c = '\t' || (0x20 ≤ c.toNat && c.toNat ≠ 0x7F)

namespace Quoted

/-- The text up to the closing quote, and the text after it. Where escapes count, an escaped quote
does not close. -/
def single (escapes : Bool) (q : Char) : Text → Option (Text × Text)
  | [] => none
  | '\\' :: c :: t =>
    if escapes then (single escapes q t).map fun r => ('\\' :: c :: r.1, r.2)
    else (single escapes q (c :: t)).map fun r => ('\\' :: r.1, r.2)
  | c :: t => if c = q then some ([], t) else (single escapes q t).map fun r => (c :: r.1, r.2)

/-- Up to two quotes right after three closing ones belong to the text. -/
def extra (q : Char) : Text → Text × Text
  | a :: b :: t => if a = q then (if b = q then ([q, q], t) else ([q], b :: t)) else ([], a :: b :: t)
  | [a] => if a = q then ([q], []) else ([], [a])
  | [] => ([], [])

/-- The text up to the closing three quotes, and the text after them. -/
def triple (escapes : Bool) (q : Char) : Text → Option (Text × Text)
  | '\\' :: c :: t =>
    if escapes then (triple escapes q t).map fun r => ('\\' :: c :: r.1, r.2)
    else (triple escapes q (c :: t)).map fun r => ('\\' :: r.1, r.2)
  | a :: b :: c :: t =>
    if a = q ∧ b = q ∧ c = q then some (extra q t)
    else (triple escapes q (b :: c :: t)).map fun r => (a :: r.1, r.2)
  | _ => none

/-- Plain characters and line ends. -/
def isLines : Text → Bool
  | [] => true
  | '\r' :: '\n' :: t => isLines t
  | '\n' :: t => isLines t
  | c :: t => isPlain c && isLines t

/-- A line end right after the opening quotes is no part of the text. -/
def dropFirstLineEnd : Text → Text
  | '\n' :: t => t
  | '\r' :: '\n' :: t => t
  | t => t

def simpleEscape? : Char → Option Char
  | 'b' => some '\x08'
  | 't' => some '\t'
  | 'n' => some '\n'
  | 'f' => some '\x0c'
  | 'r' => some '\r'
  | 'e' => some '\x1b'
  | '\x22' => some '\x22'
  | '\\' => some '\\'
  | _ => none

/-- The character of a code in hexadecimal digits, unless it is a surrogate or too large. -/
def character? (digits : Text) : Option Char := do
  let n ← digits.foldlM (fun n c => return n * 16 + (← Percent.hexValue? c)) 0
  if h : n.isValidChar then some (Char.ofNatAux n h) else none

/-- Whether a line ends here, blanks aside. -/
def endsLine (t : Text) : Bool :=
  match t.dropWhile isBlank with
  | '\n' :: _ => true
  | '\r' :: '\n' :: _ => true
  | _ => false

/-- Undoes escapes. A backslash at the end of a line takes with it all blanks and line ends that
follow; `skipping` says that it has just done so. -/
def unescape (skipping : Bool) : Text → Option Text
  | [] => some []
  | '\\' :: 'x' :: a :: b :: t => do return (← character? [a, b]) :: (← unescape false t)
  | '\\' :: 'u' :: a :: b :: c :: d :: t =>
    do return (← character? [a, b, c, d]) :: (← unescape false t)
  | '\\' :: 'U' :: a :: b :: c :: d :: e :: f :: g :: h :: t =>
    do return (← character? [a, b, c, d, e, f, g, h]) :: (← unescape false t)
  | '\\' :: t =>
    match t with
    | [] => none
    | c :: rest =>
      match simpleEscape? c with
      | some d => (unescape false rest).map (d :: ·)
      | none => if endsLine (c :: rest) then unescape true (c :: rest) else none
  | c :: t =>
    if skipping && (isBlank c || c = '\n' || c = '\r') then unescape true t
    else (unescape false t).map (c :: ·)

/-- The body of a quoted text of the given kind, and the text after it. -/
def read (escapes : Bool) (q : Char) : Text → Option (Text × Text)
  | a :: b :: c :: t =>
    if a = q ∧ b = q ∧ c = q then do
      let (body, rest) ← triple escapes q (dropFirstLineEnd t)
      if !isLines body then none
      return (← if escapes then unescape false body else some body, rest)
    else if a = q then line (b :: c :: t) else none
  | a :: t => if a = q then line t else none
  | [] => none
where
  /-- A body within one line. -/
  line (t : Text) : Option (Text × Text) := do
    let (body, rest) ← single escapes q t
    if !body.all isPlain then none
    return (← if escapes then unescape false body else some body, rest)

end Quoted
end PageRouting.Toml
