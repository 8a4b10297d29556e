import PageRouting.Query

/-! Addresses relative to the application root: decoded path segments and query entries. Every text
is read as some address. -/
namespace PageRouting

structure Url where
  segments : List Text := []
  query : Query := []
  deriving DecidableEq, Repr

namespace Url

def isEmpty (u : Url) : Bool := u.segments.isEmpty && u.query.isEmpty

def push (u : Url) (segment : Text) : Url := { u with segments := u.segments ++ [segment] }

def dropSegments (u : Url) (count : Nat) : Url := { u with segments := u.segments.drop count }

def startsWith (u : Url) (segments : List Text) : Bool := segments.isPrefixOf u.segments

def addPair (u : Url) (name value : Text) : Url := { u with query := u.query ++ [.pair name value] }

def addFlag (u : Url) (name : Text) : Url := { u with query := u.query ++ [.flag name] }

def find? (u : Url) (name : Text) : Option QueryEntry := u.query.find? (·.name = name)

/-- Removes every entry of that name. -/
def erase (u : Url) (name : Text) : Url := { u with query := u.query.filter (·.name ≠ name) }

/-- One entry at the end takes the place of all entries of that name. -/
def setPair (u : Url) (name value : Text) : Url := (u.erase name).addPair name value

/-- The segments without the empty one that a leading `/` leaves. -/
def path (u : Url) : List Text :=
  match u.segments with
  | [] :: rest => rest
  | segments => segments

/-- The ASCII characters that are escaped in segments. -/
def reserved (c : Char) : Bool :=
  c.toNat < 0x20 || c.toNat == 0x7F ||
    c ∈ [' ', '\x22', '#', '%', '/', '<', '>', '?', '\x60', '\x7b', '\x7d']

def encodeSegment (t : Text) : Text := Percent.encode reserved t

/-- An empty path has no segments; any other has one more than it has `/`. -/
def parseSegments (t : Text) : List Text :=
  if t.isEmpty then [] else (t.splitOn '/').map Percent.decode

/-- What follows the first `#` is dropped, then the first `?` opens the query. -/
def parse (t : Text) : Url :=
  let visible : Text := t.takeWhile (· ≠ '#')
  match visible.cut? '?' with
  | some (path, query) => ⟨parseSegments path, Query.parse query⟩
  | none => ⟨parseSegments visible, []⟩

def render (u : Url) : Text :=
  Text.join '/' (u.segments.map encodeSegment) ++
    if u.query.isEmpty then [] else '?' :: Query.render u.query

end Url
end PageRouting
