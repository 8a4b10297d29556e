import PageRouting.RoutingError

/-! Paths of components below their page, such as `form:items:0:check`. -/
namespace PageRouting

/-- At least one id, none of them empty or with a `:` in it. -/
structure ComponentPath where
  ids : List Text
  ne_nil : ids ≠ []
  id_ok : ∀ id ∈ ids, id ≠ [] ∧ ':' ∉ id
  deriving DecidableEq, Repr

namespace ComponentPath

def ofIds (ids : List Text) : Except RoutingError ComponentPath :=
  if h : ids ≠ [] ∧ ∀ id ∈ ids, id ≠ [] ∧ ':' ∉ id then .ok ⟨ids, h.1, h.2⟩
  else .error (.invalidComponentPath (Text.join ':' ids))

def parse (t : Text) : Except RoutingError ComponentPath := ofIds (t.splitOn ':')

def render (p : ComponentPath) : Text := Text.join ':' p.ids

end ComponentPath
end PageRouting
