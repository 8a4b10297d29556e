import Mathlib.Data.List.Basic
import PageRouting.PageStore
import PageRouting.Proofs.Token.Callback

/-! Component paths and their texts stand for each other, so that a page which knows its components by text knows them
one by one. -/
namespace PageRouting

namespace ComponentPath

theorem ofIds_eq_ok_iff {ids : List Text} {p : ComponentPath} : ofIds ids = .ok p ↔ p.ids = ids := by
  rw [← ofIds_toOption_eq_some_iff]
  cases ofIds ids <;> simp [Except.toOption]

theorem exists_ofIds_iff {ids : List Text} :
    (∃ p, ofIds ids = .ok p) ↔ ids ≠ [] ∧ ∀ id ∈ ids, id ≠ [] ∧ ':' ∉ id := by
  simp only [ofIds_eq_ok_iff]
  constructor
  · rintro ⟨p, rfl⟩
    exact ⟨p.ne_nil, p.id_ok⟩
  · rintro ⟨hne, hok⟩
    exact ⟨⟨ids, hne, hok⟩, rfl⟩

theorem eq_invalid_of_ofIds {ids : List Text} {e : RoutingError} (h : ofIds ids = .error e) :
    e = .invalidComponentPath (Text.join ':' ids) := by
  rw [ofIds] at h
  split at h
  · cases h
  · cases h
    rfl

/-- Texts with an id before, between and after their separators. -/
def WellSpelled (t : Text) : Prop :=
  t ≠ [] ∧ t.head? ≠ some ':' ∧ t.getLast? ≠ some ':' ∧ ¬ [':', ':'] <:+: t

theorem wellSpelled_iff {t : Text} : WellSpelled t ↔ [] ∉ t.splitOn ':' := by
  rw [Text.nil_mem_splitOn_iff, WellSpelled]
  simp only [not_or, ne_eq]

theorem exists_parse_iff {t : Text} : (∃ p, parse t = .ok p) ↔ WellSpelled t := by
  rw [parse.eq_def, exists_ofIds_iff, wellSpelled_iff]
  constructor
  · rintro ⟨-, hok⟩ hnil
    exact (hok [] hnil).1 rfl
  · intro hnil
    refine ⟨List.splitOn_ne_nil ':' t, fun id hid => ⟨?_, Text.not_mem_of_mem_splitOn hid⟩⟩
    rintro rfl
    exact hnil hid

theorem parse_render (p : ComponentPath) : parse p.render = .ok p := by
  rw [parse, render, Text.splitOn_join (fun id hid => (p.id_ok id hid).2) p.ne_nil, ofIds_eq_ok_iff]

theorem render_of_parse {t : Text} {p : ComponentPath} (h : parse t = .ok p) : p.render = t := by
  rw [parse, ofIds_eq_ok_iff] at h
  rw [render, h, Text.join_splitOn]

theorem eq_invalid_of_parse {t : Text} {e : RoutingError} (h : parse t = .error e) : e = .invalidComponentPath t := by
  have he := eq_invalid_of_ofIds h
  rwa [Text.join_splitOn] at he

theorem render_injective : Function.Injective render := by
  intro p q h
  have hp := parse_render p
  rw [h, parse_render] at hp
  exact (Except.ok.inj hp).symm

end ComponentPath

section
variable {W : Type} {page : Page} {ps : List ComponentPath}

theorem Page.contains_iff_of_listed (h : page.components = .listed (ps.map ComponentPath.render))
    (p : ComponentPath) : page.contains p ↔ p ∈ ps := by
  simp only [Page.contains, h, decide_eq_true_eq]
  exact List.mem_map_of_injective ComponentPath.render_injective

theorem Invocation.resolve_of_listed {i : Invocation} {s : PageSource W} {w : W}
    (hpage : (i.page.page s w).answer = .ok page) (h : page.components = .listed (ps.map ComponentPath.render)) :
    (i.resolve s w).answer =
      if i.path ∈ ps then .ok page else .error (.staleComponent page.cls.name page.id i.path.render) := by
  rw [Invocation.resolve, Run.bind_answer, hpage]
  simp only [← Page.contains_iff_of_listed h]
  split <;> rfl

end

namespace ComponentPath

/-- Ids make a path if there are any and none is empty or holds a `:`, and a text reads as one if it has an id before,
between and after its separators. Paths and such texts stand for each other, while any other text is reported as it is.
So no two paths share a text, and a page that knows its components by text takes none for another. -/
theorem text_correspondence :
    (∀ ids, ((∃ p, ofIds ids = .ok p) ↔ ids ≠ [] ∧ ∀ id ∈ ids, id ≠ [] ∧ ':' ∉ id) ∧
      ∀ p, ofIds ids = .ok p → p.ids = ids) ∧
    (∀ p : ComponentPath, parse p.render = .ok p) ∧
    (∀ t, ((∃ p, parse t = .ok p) ↔ WellSpelled t) ∧ (∀ p, parse t = .ok p → p.render = t) ∧
      ∀ e, parse t = .error e → e = .invalidComponentPath t) ∧
    Function.Injective render ∧
    ∀ (W : Type) (s : PageSource W) (w : W) (i : Invocation) (page : Page) (ps : List ComponentPath),
      (i.page.page s w).answer = .ok page → page.components = .listed (ps.map render) →
        (i.resolve s w).answer =
          if i.path ∈ ps then .ok page else .error (.staleComponent page.cls.name page.id i.path.render) := by
  refine ⟨fun ids => ⟨exists_ofIds_iff, fun p => ofIds_eq_ok_iff.mp⟩, parse_render, fun t => ?_, render_injective, ?_⟩
  · exact ⟨exists_parse_iff, fun p => render_of_parse, fun e => eq_invalid_of_parse⟩
  · intro W s w i page ps hpage hlisted
    exact Invocation.resolve_of_listed hpage hlisted

namespace Nested

def cart : ComponentPath := ⟨["cart".toList], by decide, by decide⟩

def items : ComponentPath := ⟨["cart".toList, "items".toList], by decide, by decide⟩

def page : Page :=
  { id := 4, cls := ⟨"Shop".toList⟩, components := .listed ["cart".toList, "cart:items".toList] }

/-- A call on a component that was once at the top of the page. -/
def stale : Invocation := ⟨⟨.loaded page, {}, true⟩, ⟨["items".toList], by decide, by decide⟩, .link, none⟩

theorem text_correspondence_nested :
    ofIds ["cart".toList, "items".toList] = .ok items ∧ items.ids = ["cart".toList, "items".toList] ∧
      parse "cart:items".toList = .ok items ∧ items.render = "cart:items".toList ∧
      parse "cart::items".toList = .error (.invalidComponentPath "cart::items".toList) ∧
      (∀ w, (stale.page.page PageStore.source w).answer = .ok page) ∧
      page.components = .listed ([cart, items].map render) ∧
      ∀ w, (stale.resolve PageStore.source w).answer = .error (.staleComponent "Shop".toList 4 "items".toList) := by
  obtain ⟨hids, hpaths, htexts, -, hstale⟩ := text_correspondence
  have hitems : parse "cart:items".toList = .ok items := hpaths items
  have hbuilt : ofIds ["cart".toList, "items".toList] = .ok items := hitems
  have hlisted : page.components = .listed ([cart, items].map render) := rfl
  refine ⟨hbuilt, (hids _).2 _ hbuilt, hitems, (htexts _).2.1 _ hitems, ?_, fun w => rfl, hlisted, fun w => ?_⟩
  · cases h : parse "cart::items".toList with
    | ok p =>
      obtain ⟨-, -, -, hpair⟩ := (htexts _).1.mp ⟨p, h⟩
      exact absurd ⟨"cart".toList, "items".toList, rfl⟩ hpair
    | error e => rw [(htexts _).2.2 e h]
  · exact (hstale PageStore PageStore.source w stale page [cart, items] rfl hlisted).trans (by decide)

end Nested

end ComponentPath
end PageRouting
