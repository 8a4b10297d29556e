import PageRouting.Proofs.Route.Chain
import PageRouting.Proofs.Route.PageInstance
import PageRouting.Route.Table

/-! Page ids in addresses. A stateless page is not kept, and of all handlers only a callback that is to
name its page class gets an address with the id of one. -/
namespace PageRouting

variable {W : Type} {app : Application W} {w : W} {u : Url} {h : Handler} {p : Page}

/-- The page id that an address carries. -/
def Url.pageId? (u : Url) : Option UInt32 := (Token.ofQuery u.query).1.bind (·.locator.id?)

theorem Token.id?_of_isEmpty {t : Token} (he : t.isEmpty) : t.locator.id? = none := by
  cases t with
  | page l =>
    have hv : l.version = none := Option.isNone_iff_eq_none.mp (Bool.and_eq_true_iff.mp he).2
    rw [locator, PageLocator.id?, hv, Option.map_none]
  | callback _ _ _ => cases he

theorem Mount.query_of_write {m : Mount} {s : Settings} {a : PageAddress} (hw : m.write s a = .ok u) :
    ∃ rest, u.query = Token.toQuery a.token rest := by
  cases m with
  | path mp cls =>
    rw [write] at hw
    cases hf : MountSegment.fill mp.segments a.parameters with
    | error name =>
      rw [hf] at hw
      cases hw
    | ok r =>
      rw [hf] at hw
      cases hw
      exact ⟨_, rfl⟩
  | home cls =>
    rw [write] at hw
    split at hw
    · cases hw
      exact ⟨_, rfl⟩
    · cases hw
  | byClass =>
    cases hw
    exact ⟨_, rfl⟩

/-- A written address carries the id that it was written with. -/
theorem Mount.pageId?_of_write {m : Mount} {s : Settings} {a : PageAddress}
    (ht : ∀ token ∈ a.token, token.Callable) (hw : m.write s a = .ok u) :
    u.pageId? = a.token.bind (·.locator.id?) := by
  obtain ⟨rest, hq⟩ := query_of_write hw
  rw [Url.pageId?, hq, Token.ofQuery_toQuery_split ht]
  cases a.token with
  | none => rfl
  | some token =>
    cases he : token.isEmpty with
    | true => rw [Option.filter_some, he, Option.bind_some, Token.id?_of_isEmpty he]; rfl
    | false => rw [Option.filter_some, he]; rfl

namespace Handler

theorem Addressed.id?_of_stateless {a : PageAddress} (ha : h.Addressed app w a)
    (hp : (h.page app.pages w).answer = .ok p) (hs : p.stateless) :
    a.token.bind (·.locator.id?) = if h.kind = .bookmarkableListener then some p.id else none := by
  cases ha with
  | bookmarkablePage cls ps => rfl
  | stateless _ _ => rfl
  | stored hp' hs' =>
    cases hp.symm.trans hp'
    rw [hs] at hs'
    cases hs'
  | callback hp' hi =>
    cases hp.symm.trans hp'
    rfl

theorem Concerns.not_stateless {p' : Page} (hc : h.Concerns app w p')
    (hp : (h.page app.pages w).answer = .ok p) : p.stateless = false := by
  cases hc with
  | renderPage hp' hs =>
    cases hp.symm.trans hp'
    exact hs
  | listener hp' hs _ =>
    cases hp.symm.trans hp'
    exact hs

end Handler

/-- What a route writes for a handler of a stateless page. -/
theorem RouteShape.pageId?_of_link (hreg : app.registry.Reachable) {r : RouteShape}
    (hl : ((r.toRoute app).link h w).answer = some u) (hp : (h.page app.pages w).answer = .ok p)
    (hs : p.stateless) : u.pageId? = if h.kind = .bookmarkableListener then some p.id else none := by
  cases r with
  | mount m =>
    obtain ⟨a, ha, -, hw⟩ := Route.mounted_link hl
    rw [Mount.pageId?_of_write (ha.callable hreg) hw, ha.id?_of_stateless hp hs]
  | pageInstance =>
    obtain ⟨p', hc, -⟩ := Route.pageInstance_link_eq_some_iff.mp hl
    rw [hc.not_stateless hp] at hs
    cases hs

namespace RouteTree

/-- An address for a handler of a stateless page carries the id of the page if the handler is a callback
that is to name its page class, and otherwise no id. Which page a handler has is decided by the page
source when the route is asked that answers. Each route may go by settings and interfaces of its own. -/
theorem pageId?_of_link_stateless {α : Type} {setup : α → RouteSetup} {s : PageSource W} {t : RouteTree α}
    (hreg : ∀ a ∈ t.leaves, (setup a).registry.Reachable)
    (hl : ((t.route setup s).link h w).answer = some u) :
    ∃ before a after asked, t.leaves = before ++ a :: after ∧
      (Route.chain (before.map fun b => (setup b).toRoute s)).link h w = asked ∧ asked.answer = none ∧
      (((setup a).toRoute s).link h asked.world).answer = some u ∧
      ∀ p, (h.page s asked.world).answer = .ok p → p.stateless →
        u.pageId? = if h.kind = .bookmarkableListener then some p.id else none := by
  obtain ⟨before, a, after, asked, hleaves, hasked, hb, ha⟩ := link_eq_some_iff.mp hl
  have hmem : a ∈ t.leaves := hleaves ▸ List.mem_append_right before List.mem_cons_self
  exact ⟨before, a, after, asked, hleaves, hasked, hb, ha,
    fun p hp hs => RouteShape.pageId?_of_link (hreg a hmem) ha hp hs⟩

/-- A page that is not kept. -/
def passing : Page where
  id := 4
  cls := ⟨"Shop".toList⟩
  renderCount := 2
  bookmarkable := true
  stateless := true
  components := .listed ["form".toList]

def passingCall : Invocation where
  page := { target := .loaded passing }
  path := ⟨["form".toList], by decide, by decide⟩
  interface := .link

def shopPath : MountPath where
  text := "/shop".toList
  segments := [.literal "shop".toList]
  spelled := rfl

/-- A mount behind the route of page instances. -/
def shop : RouteTree RouteSetup :=
  .chain [.leaf { shape := .pageInstance }, .leaf { shape := .mount (.path shopPath ⟨"Shop".toList⟩) }]

theorem link_passing :
    (∀ r ∈ shop.leaves, r.registry.Reachable) ∧ passing.stateless ∧
      ((shop.route id PageStore.source).link (.renderPage passingCall.page) PageStore.sample).answer =
        some ⟨["shop".toList], []⟩ ∧
      Url.pageId? ⟨["shop".toList], []⟩ = none := by
  have hreg : ∀ r ∈ shop.leaves, r.registry.Reachable :=
    List.forall_mem_cons.mpr ⟨.builtins, List.forall_mem_singleton.mpr .builtins⟩
  have hl : ((shop.route id PageStore.source).link (.renderPage passingCall.page) PageStore.sample).answer =
      some ⟨["shop".toList], []⟩ := by rfl
  obtain ⟨_, _, _, asked, -, -, -, -, hid⟩ := pageId?_of_link_stateless hreg hl
  exact ⟨hreg, rfl, hl, hid passing rfl rfl⟩

/-- The address of a callback on the same page carries its id. -/
theorem link_passingCall :
    (∀ r ∈ shop.leaves, r.settings.validate = .ok () ∧ r.registry.Reachable) ∧ passing.stateless ∧
      (Handler.page (.bookmarkableListener passingCall) PageStore.source PageStore.sample).answer = .ok passing ∧
      ∃ u, ((shop.route id PageStore.source).link (.bookmarkableListener passingCall) PageStore.sample).answer =
          some u ∧
        u.render = "shop?4.2-ILinkListener-form".toList ∧ u.pageId? = some 4 :=
  ⟨List.forall_mem_cons.mpr ⟨⟨by decide, .builtins⟩, List.forall_mem_singleton.mpr ⟨by decide, .builtins⟩⟩,
    rfl, rfl, _, rfl, rfl, rfl⟩

end RouteTree
end PageRouting
