import PageRouting.Text.Percent

/-! Query strings as lists of entries. `k` and `k=` differ: the first is a flag, the second has an
empty value. -/
namespace PageRouting

structure QueryEntry where
  name : Text
  value : Option Text
  deriving DecidableEq, Repr

namespace QueryEntry

def pair (name value : Text) : QueryEntry := ⟨name, some value⟩

def flag (name : Text) : QueryEntry := ⟨name, none⟩

/-- The value, empty for a flag. -/
def content (e : QueryEntry) : Text := e.value.getD []

/-- The ASCII characters that are escaped in names and values. -/
def reserved (c : Char) : Bool :=
  c.toNat < 0x20 || c.toNat == 0x7F || c ∈ [' ', '\x22', '#', '%', '&', '+', '<', '=', '>', '\x60']

def encode (t : Text) : Text := Percent.encode reserved t

/-- A `+` is a space, then the escapes are undone. -/
def decode (t : Text) : Text := Percent.decode (t.map fun c => if c = '+' then ' ' else c)

/-- Only the first `=` separates, so that values may hold more of them. -/
def parse (t : Text) : QueryEntry :=
  match t.cut? '=' with
  | some (name, value) => pair (decode name) (decode value)
  | none => flag (decode t)

def render (e : QueryEntry) : Text :=
  match e.value with
  | some v => encode e.name ++ '=' :: encode v
  | none => encode e.name

end QueryEntry

abbrev Query := List QueryEntry

namespace Query

/-- Entries stand between `&`; empty ones are skipped. -/
def parse (t : Text) : Query := ((t.splitOn '&').filter (!·.isEmpty)).map QueryEntry.parse

def render (q : Query) : Text := Text.join '&' (q.map QueryEntry.render)

end Query
end PageRouting
