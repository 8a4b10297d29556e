import PageRouting.Registry
import PageRouting.Token.Basic

/-! The written form of tokens: `[pageMap.]pageId[.renderCount]`, then for a callback
`-Interface[.behavior]` and `-id` for each component. -/
namespace PageRouting

namespace PageVersion

/-- A render count of zero is left out. -/
def render (v : PageVersion) : Text :=
  Decimal.ofNat v.id.toNat ++
    if v.renderCount = 0 then [] else '.' :: Decimal.ofNat v.renderCount.toNat

end PageVersion

namespace PageLocator

def render (l : PageLocator) : Text :=
  match l.pageMap, l.version with
  | none, none => []
  | some name, none => name.text
  | none, some v => v.render
  | some name, some v => name.text ++ '.' :: v.render

/-- The page map, the page id and the render count that a text names, whether or not they go together. Of one or
two fields the first is a page id if it is a number, else a page map. -/
def parts? (t : Text) : Option (Option Text × Option UInt32 × UInt32) :=
  match t.splitOn '.' with
  | [a] =>
    match Decimal.word? a with
    | some id => some (none, some id, 0)
    | none => some (some a, none, 0)
  | [a, b] => do
    let n ← Decimal.word? b
    match Decimal.word? a with
    | some id => return (none, some id, n)
    | none => return (some a, some n, 0)
  | [a, b, c] => do
    let id ← Decimal.word? b
    let count ← Decimal.word? c
    return (some a, some id, count)
  | _ => none

def parse (t : Text) : Option PageLocator := do
  let (pageMap, id, renderCount) ← parts? t
  (ofParts pageMap id renderCount).toOption

end PageLocator

namespace Callback

def escapeChar (c : Char) : Text := if c = '~' ∨ c = '-' then ['~', c] else [c]

/-- A `~` before each `~` and `-` of a component id. -/
def escape (id : Text) : Text := id.flatMap escapeChar

def consHead (c : Char) : List Text → List Text
  | [] => [[c]]
  | f :: fs => (c :: f) :: fs

/-- The fields between bare `-`, with the escapes undone. A `~` before anything else is refused. -/
def fields : Text → Option (List Text)
  | [] => some [[]]
  | '~' :: '~' :: t => (fields t).map (consHead '~')
  | '~' :: '-' :: t => (fields t).map (consHead '-')
  | '~' :: _ => none
  | '-' :: t => (fields t).map ([] :: ·)
  | c :: t => (fields t).map (consHead c)

def render (c : Callback) : Text :=
  c.interface
    ++ (match c.behavior with
      | some n => '.' :: Decimal.ofNat n.toNat
      | none => [])
    ++ c.path.ids.flatMap fun id => '-' :: escape id

/-- An interface name with perhaps the index of a behavior. -/
def parseTarget (t : Text) : Option (Text × Option UInt32) :=
  match t.cut? '.' with
  | some (name, index) => (Decimal.word? index).map fun n => (name, some n)
  | none => some (t, none)

/-- The interface has to be an identifier, whether or not it is registered. -/
def parse (t : Text) : Option Callback :=
  match fields t with
  | some (target :: ids) => do
    let (interface, behavior) ← parseTarget target
    if !interface.isIdentifier then none
    let path ← (ComponentPath.ofIds ids).toOption
    return ⟨interface, behavior, path⟩
  | _ => none

/-- Reads a callback of a registered interface. -/
def decode (r : Registry) (t : Text) : Option Callback :=
  (parse t).filter fun c => (r.resolve c.interface).isSome

end Callback

namespace Token

def render : Token → Text
  | .page locator => locator.render
  | .callback pageMap version target =>
    PageLocator.render ⟨pageMap, some version⟩ ++ '-' :: target.render

/-- The first `-` ends the page part, which has to name an instance if a callback follows. -/
def parse (t : Text) : Option Token :=
  match t.cut? '-' with
  | none => (PageLocator.parse t).map .page
  | some (head, target) => do
    let locator ← PageLocator.parse head
    let _ ← locator.id?
    let target ← Callback.parse target
    (ofParts locator (some (locator.renderCount, target))).toOption

/-- Reads a token whose callback, if any, is of a registered interface. -/
def decode (r : Registry) (t : Text) : Option Token :=
  (parse t).filter fun token => token.callback?.all fun c => (r.resolve c.interface).isSome

end Token
end PageRouting
