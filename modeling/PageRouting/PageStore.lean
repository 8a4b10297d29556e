import PageRouting.PageSource

/-! Pages kept in memory, by id. -/
namespace PageRouting

structure PageStore where
  /-- The names of the classes that pages can be created of. -/
  classes : List Text := []
  pages : List Page := []
  nextId : UInt32 := 0
  deriving DecidableEq, Repr

namespace PageStore

def find? (s : PageStore) (id : UInt32) : Option Page := s.pages.find? (·.id = id)

def erase (s : PageStore) (id : UInt32) : PageStore := { s with pages := s.pages.filter (·.id ≠ id) }

/-- Takes the place of a page of the same id. -/
def insert (s : PageStore) (page : Page) : PageStore :=
  { s with pages := (s.erase page.id).pages ++ [page] }

/-- All pages by ascending id. -/
def sorted (s : PageStore) : List Page := s.pages.mergeSort fun p q => p.id ≤ q.id

/-- A new page of a known class under the next id, which starts again at zero after the last word. -/
def create (s : PageStore) (cls : PageClass) : Except RoutingError (Page × PageStore) :=
  if cls.name ∈ s.classes then
    let page : Page := { id := s.nextId, cls, bookmarkable := true, components := .listed [] }
    .ok (page, { s.insert page with nextId := s.nextId + 1 })
  else .error (.unknownClass cls.name)

/-- A stored page that has not been rendered less often than the address says. -/
def lookup (s : PageStore) (id : UInt32) (count : Option UInt32) : Except RoutingError Page :=
  match s.find? id, count with
  | none, _ => .error (.unknownPage id)
  | some page, some count =>
    if page.renderCount < count then .error (.expiredPage id count) else .ok page
  | some page, none => .ok page

def source : PageSource PageStore where
  create cls _ := do
    match (← .world).create cls with
    | .ok (page, s) =>
      .setWorld s
      return .ok page
    | .error e => return .error e
  find id _ count _ := return (← .world).lookup id count
  resolve name := return if name ∈ (← .world).classes then some ⟨name⟩ else none

end PageStore
end PageRouting
