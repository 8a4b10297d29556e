import PageRouting.Text

/-! Paths as plain text: relative ones resolved against a base, and `..` collapsed. -/
namespace PageRouting.Path

def parent : Text := ['.', '.']

/-- The number of leading `../` and the text after them. -/
def climb : Text → Nat × Text
  | '.' :: '.' :: '/' :: t => ((climb t).1 + 1, (climb t).2)
  | t => (0, t)

/-- The segments that climbing never leaves: scheme and host, or the leading `/`. -/
def rootDepth : List Text → Nat
  | scheme :: [] :: _ :: _ =>
    if scheme.getLast? = some ':' then 3 else if scheme.isEmpty then 1 else 0
  | [] :: _ => 1
  | _ => 0

/-- The segments of a text before its last `/`. -/
def directories (base : Text) : List Text := (base.splitOn '/').dropLast

/-- Replaces what follows the last `/` of the base, one directory higher for each leading `../`,
but never above the root. -/
def resolve (base relative : Text) : Text :=
  let dirs := directories base
  let (levels, rest) := climb relative
  let kept := dirs.take (max (dirs.length - levels) (rootDepth dirs))
  if kept.isEmpty then rest else Text.join '/' kept ++ '/' :: rest

/-- One more segment on the stack of those kept, the last one on top. A `..` takes away an ordinary
segment below it; it stays where that is empty, another `..` or missing. -/
def collapseStep : List Text → Text → List Text
  | top :: kept, s =>
    if s = parent ∧ top ≠ [] ∧ top ≠ parent then kept else s :: top :: kept
  | [], s => [s]

/-- The path without segments that a following `..` undoes. A trailing `/` survives. -/
def collapse (path : Text) : Text :=
  let kept := Text.join '/' ((path.splitOn '/').foldl collapseStep []).reverse
  if path.getLast? = some '/' ∧ kept.getLast? ≠ some '/' then kept ++ ['/'] else kept

end PageRouting.Path
