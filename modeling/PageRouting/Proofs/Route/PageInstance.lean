import PageRouting.Proofs.Route.Mounted
import PageRouting.Route.PageInstance

/-! Addresses of page instances. A handler has one exactly if its page is stored and what it calls is
registered, and the address leads back to the same page and callback. -/
namespace PageRouting

variable {W : Type} {app : Application W} {w : W} {u : Url}

/-- The reference that the address of a stored page leads to. -/
def PageReference.ofStored (p : Page) : PageReference where
  target := .stored p.id none (some p.renderCount)

/-- A page map is carried if it has a valid name, and left out otherwise. -/
theorem Page.pageMapName?_text (p : Page) :
    p.pageMapName?.map PageMapName.text = p.pageMap.filter isPageMapName := by
  rw [pageMapName?]
  cases p.pageMap with
  | none => rfl
  | some t =>
    rw [Option.bind_some, PageMapName.ofText?, Option.filter_some]
    split <;> rfl

theorem Application.callbackToken_answer (app : Application W) (p : Page) (call : Invocation) (w : W) :
    (app.callbackToken p call w).answer =
      (app.registry.nameOf call.interface).map fun name =>
        .callback p.pageMapName? p.version ⟨name, call.behavior, call.path⟩ := by
  rw [callbackToken]
  cases app.registry.nameOf call.interface <;> rfl

namespace Handler

/-- The page instance that a handler concerns: its page, if that is stored. A callback has to be of the
interface that is registered under its name. -/
inductive Concerns (app : Application W) (w : W) : Handler → Page → Prop
  | renderPage {r : PageReference} {p : Page} (hp : (r.page app.pages w).answer = .ok p)
      (hs : p.stateless = false) : Concerns app w (.renderPage r) p
  | listener {call : Invocation} {p : Page} (hp : (call.page.page app.pages w).answer = .ok p)
      (hs : p.stateless = false) (hi : app.registry.resolve call.interface.name = some call.interface) :
      Concerns app w (.listener call) p

/-- What a handler calls, as tokens say it. -/
def callback? : Handler → Option Callback
  | .listener call => some ⟨call.interface.name, call.behavior, call.path⟩
  | _ => none

/-- The token of a handler about a page instance. -/
def instanceToken (h : Handler) (p : Page) : Token :=
  match h.callback? with
  | some target => .callback p.pageMapName? p.version target
  | none => .page p.locator

/-- The handler that finds a page instance again, with the same callback. -/
def resumedAt (h : Handler) (p : Page) : Handler :=
  match h with
  | .listener call => .listener { call with page := .ofStored p }
  | _ => .renderPage (.ofStored p)

theorem isEmpty_instanceToken (h : Handler) (p : Page) : (h.instanceToken p).isEmpty = false := by
  rw [instanceToken]
  cases h.callback? with
  | none => exact Bool.and_false _
  | some target => rfl

theorem locator_instanceToken (h : Handler) (p : Page) : (h.instanceToken p).locator = p.locator := by
  rw [instanceToken]
  cases h.callback? <;> rfl

theorem callback?_instanceToken (h : Handler) (p : Page) : (h.instanceToken p).callback? = h.callback? := by
  rw [instanceToken]
  cases hc : h.callback? <;> rfl

theorem Concerns.callable {h : Handler} {p : Page} (hc : h.Concerns app w p) (hv : app.Valid) :
    (h.instanceToken p).Callable := by
  intro c hm
  rw [callback?_instanceToken] at hm
  cases hc with
  | renderPage _ _ => cases hm
  | listener _ _ hi =>
    cases hm
    exact hv.registry.isIdentifier_of_resolve (Option.isSome_of_eq_some hi)

end Handler

namespace PageInstance

theorem storedPage_answer_eq_some_iff {r : PageReference} {p : Page} :
    (storedPage app r w).answer = some p ↔ (r.page app.pages w).answer = .ok p ∧ p.stateless = false := by
  rw [storedPage, Run.bind_answer]
  cases (r.page app.pages w).answer with
  | error e => exact ⟨fun h => (by cases h), fun h => (by cases h.1)⟩
  | ok q =>
    dsimp only
    cases hs : q.stateless with
    | true =>
      refine ⟨fun h => (by cases h), ?_⟩
      rintro ⟨⟨⟩, hp⟩
      rw [hs] at hp
      cases hp
    | false =>
      constructor
      · rintro ⟨⟩
        exact ⟨rfl, hs⟩
      · rintro ⟨⟨⟩, -⟩
        rfl

theorem linkPage_answer_eq_some_iff {r : PageReference} :
    (linkPage app r w).answer = some u ↔
      ∃ p, (r.page app.pages w).answer = .ok p ∧ p.stateless = false ∧
        u = write app.settings (.page p.locator) := by
  simp only [← and_assoc, ← storedPage_answer_eq_some_iff]
  rw [linkPage, Run.bind_answer]
  cases (storedPage app r w).answer with
  | none => exact ⟨fun h => (by cases h), fun ⟨p, h, _⟩ => (by cases h)⟩
  | some p =>
    constructor
    · rintro ⟨⟩
      exact ⟨p, rfl, rfl⟩
    · rintro ⟨q, ⟨⟩, rfl⟩
      rfl

theorem linkCallback_answer_eq_some_iff {call : Invocation} :
    (linkCallback app call w).answer = some u ↔
      ∃ p, (call.page.page app.pages w).answer = .ok p ∧ p.stateless = false ∧
        app.registry.resolve call.interface.name = some call.interface ∧
        u = write app.settings (.callback p.pageMapName? p.version
          ⟨call.interface.name, call.behavior, call.path⟩) := by
  simp only [← and_assoc, ← storedPage_answer_eq_some_iff]
  rw [linkCallback, Run.bind_answer]
  cases (storedPage app call.page w).answer with
  | none => exact ⟨fun h => (by cases h), fun ⟨p, h, _⟩ => (by cases h.1)⟩
  | some p =>
    dsimp only
    rw [Run.bind_answer, Run.pure_apply, Application.callbackToken_answer]
    cases hn : app.registry.nameOf call.interface with
    | none =>
      refine ⟨fun h => (by cases h), ?_⟩
      rintro ⟨q, ⟨-, hr⟩, -⟩
      rw [Registry.nameOf_eq_some_iff.mpr ⟨rfl, hr⟩] at hn
      cases hn
    | some name =>
      obtain ⟨rfl, hr⟩ := Registry.nameOf_eq_some_iff.mp hn
      constructor
      · rintro ⟨⟩
        exact ⟨p, ⟨rfl, hr⟩, rfl⟩
      · rintro ⟨q, ⟨⟨⟩, -⟩, rfl⟩
        rfl

end PageInstance

theorem Route.pageInstance_link_eq_some_iff {h : Handler} :
    ((Route.pageInstance app).link h w).answer = some u ↔
      ∃ p, h.Concerns app w p ∧ u = PageInstance.write app.settings (h.instanceToken p) := by
  cases h with
  | bookmarkablePage cls ps => exact ⟨fun h => (by cases h), fun ⟨p, h, _⟩ => (by cases h)⟩
  | renderPage r =>
    refine PageInstance.linkPage_answer_eq_some_iff.trans (exists_congr fun p => ?_)
    constructor
    · rintro ⟨hp, hs, rfl⟩
      exact ⟨.renderPage hp hs, rfl⟩
    · rintro ⟨hc, rfl⟩
      cases hc with
      | renderPage hp hs => exact ⟨hp, hs, rfl⟩
  | listener call =>
    refine PageInstance.linkCallback_answer_eq_some_iff.trans (exists_congr fun p => ?_)
    constructor
    · rintro ⟨hp, hs, hi, rfl⟩
      exact ⟨.listener hp hs hi, rfl⟩
    · rintro ⟨hc, rfl⟩
      cases hc with
      | listener hp hs hi => exact ⟨hp, hs, hi, rfl⟩
  | bookmarkableListener call => exact ⟨fun h => (by cases h), fun ⟨p, h, _⟩ => (by cases h)⟩

namespace PageInstance

theorem write_of_not_isEmpty (s : Settings) {token : Token} (h : token.isEmpty = false) :
    write s token = ⟨[s.rootSegment, s.pageSegment], [.flag token.render]⟩ := by
  rw [write, Token.toQuery, Option.filter_some, h]
  rfl

theorem legible_write (s : Settings) {token : Token} (hc : token.Callable) : (write s token).Legible := by
  refine ⟨fun h => List.cons_ne_nil _ _ (List.cons.inj h).2, Token.flag_nil_not_mem_toQuery ?_ {}⟩
  rintro _ ⟨⟩
  exact hc

theorem fits_write {s : Settings} (hr : s.rootSegment ≠ []) (token : Token) : fits s (write s token) := by
  rw [fits, write, Url.path_cons hr]
  exact List.isPrefixOf_iff_prefix.mpr (List.prefix_refl _)

/-- What is resumed is the instance that the token of an address names. -/
theorem dispatch_of_fits (hf : fits app.settings u) :
    dispatch app u = match (Token.ofQuery u.query).1.bind (·.locator.version) with
      | none => pure none
      | some v => app.resume none (Token.ofQuery u.query).2 v ((Token.ofQuery u.query).1.bind Token.callback?) := by
  rw [dispatch, if_pos hf]
  obtain ⟨token, ps⟩ := Token.ofQuery u.query
  cases token with
  | none => rfl
  | some token => rfl

end PageInstance

namespace Handler.Concerns
variable {h : Handler} {p : Page} (hc : h.Concerns app w p) (hv : app.Valid)
include hc hv

/-- The token of a page instance is enough to find it again, in any state of the page source. -/
theorem dispatch_write :
    PageInstance.dispatch app (PageInstance.write app.settings (h.instanceToken p)) =
      pure (some (h.resumedAt p)) := by
  have hq : Token.ofQuery (PageInstance.write app.settings (h.instanceToken p)).query =
      (some (h.instanceToken p), {}) := by
    rw [PageInstance.write_of_not_isEmpty _ (h.isEmpty_instanceToken p)]
    exact Token.ofQuery_flag_render (h.isEmpty_instanceToken p) (hc.callable hv) []
  rw [PageInstance.dispatch, if_pos (PageInstance.fits_write hv.rootSegment_ne_nil _), hq]
  cases hc with
  | renderPage hp hs => rfl
  | @listener call p hp hs hi =>
    change app.resume none {} p.version (some _) = _
    rw [Application.resume, hi]
    rfl

theorem parse_render_write :
    Url.parse (PageInstance.write app.settings (h.instanceToken p)).render =
      PageInstance.write app.settings (h.instanceToken p) :=
  (Url.parse_render_eq_self_iff _).mpr (PageInstance.legible_write _ (hc.callable hv))

end Handler.Concerns

/-- A handler has the address of a page instance exactly if it concerns one. The token carries the page
map if its name is valid; one that is not valid is left out, and nothing else depends on it. Mapping the
text of the address back asks no page source, so that it leads to the same page and callback in every
state of one. -/
theorem Route.pageInstance_round_trip (hv : app.Valid) (h : Handler) (w : W) :
    (((Route.pageInstance app).link h w).answer.isSome ↔ ∃ p, h.Concerns app w p) ∧
      ∀ p, h.Concerns app w p → ∃ u token,
        ((Route.pageInstance app).link h w).answer = some u ∧
        u.segments = [app.settings.rootSegment, app.settings.pageSegment] ∧
        u.query = [.flag token.render] ∧
        Token.parse token.render = some token ∧
        token.locator.version = some p.version ∧ token.callback? = h.callback? ∧
        (∀ name, token.locator.pageMap.map PageMapName.text = some name ↔
          p.pageMap = some name ∧ isPageMapName name) ∧
        (Route.pageInstance app).dispatch (Url.parse u.render) = pure (some (h.resumedAt p)) := by
  refine ⟨?_, fun p hc => ?_⟩
  · rw [Option.isSome_iff_exists]
    constructor
    · rintro ⟨u, hu⟩
      obtain ⟨p, hc, -⟩ := pageInstance_link_eq_some_iff.mp hu
      exact ⟨p, hc⟩
    · rintro ⟨p, hc⟩
      exact ⟨_, pageInstance_link_eq_some_iff.mpr ⟨p, hc, rfl⟩⟩
  · have hne := h.isEmpty_instanceToken p
    have hl := pageInstance_link_eq_some_iff.mpr ⟨p, hc, rfl⟩
    have hparse := (Token.parse_render_iff _).mpr ⟨hne, hc.callable hv⟩
    have hq := congrArg Url.query (PageInstance.write_of_not_isEmpty app.settings hne)
    refine ⟨_, h.instanceToken p, hl, rfl, hq, hparse, ?_, h.callback?_instanceToken p, fun name => ?_, ?_⟩
    · rw [h.locator_instanceToken]
      rfl
    · rw [h.locator_instanceToken, Page.locator, Page.pageMapName?_text, Option.filter_eq_some_iff]
    · rw [hc.parse_render_write hv]
      exact hc.dispatch_write hv

/-- A page whose map no token can carry. -/
def Page.sample : Page where
  id := 7
  cls := ⟨"Shop".toList⟩
  renderCount := 3
  pageMap := some "a-b".toList

def Invocation.onSample : Invocation where
  page := { target := .loaded .sample, parameters := ({} : Parameters).add "q".toList "x".toList }
  path := ⟨["a-b".toList, "é&~".toList], by decide, by decide⟩
  interface := .link

theorem Route.pageInstance_sample :
    Application.sample.Valid ∧
      ∃ u, ((Route.pageInstance .sample).link (.listener .onSample) PageStore.sample).answer = some u ∧
        u.query = [.flag "7.3-ILinkListener-a~-b-é&~~".toList] ∧
        (Route.pageInstance Application.sample).dispatch (Url.parse u.render) =
          pure (some (.listener ⟨⟨.stored 7 none (some 3), {}, true⟩, Invocation.onSample.path, .link, none⟩)) := by
  have hv : Application.sample.Valid := ⟨by decide, .builtins⟩
  have hc : (Handler.listener .onSample).Concerns .sample PageStore.sample .sample :=
    .listener rfl rfl (by decide)
  obtain ⟨u, -, hl, -, -, -, -, -, -, hd⟩ := (Route.pageInstance_round_trip hv _ _).2 _ hc
  refine ⟨hv, u, hl, ?_, hd⟩
  cases hl
  rfl

end PageRouting
