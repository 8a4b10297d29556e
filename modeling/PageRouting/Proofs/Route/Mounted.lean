import PageRouting.PageStore
import PageRouting.Proofs.Mount
import PageRouting.Route.Mounted

/-! Handlers, the addresses that mounts write for them, and the handlers that these addresses lead to. -/
namespace PageRouting

variable {W : Type} {app : Application W} {m : Mount} {w : W} {u : Url}

/-- What a mount does with an address that it reads without the page source. -/
theorem Route.mounted_dispatch_of_read {a : Option PageAddress} (h : m.read app u = pure a) :
    (mounted app m).dispatch u = a.elim (pure none) (·.handler app) := by
  rw [mounted]
  dsimp only
  rw [h, pure_bind]
  cases a <;> rfl

theorem Page.token_answer (p : Page) (w : W) :
    (p.token w).answer = if p.stateless then none else some (.page p.locator) := by
  rw [token]
  split <;> rfl

/-- A page always has a token of its own. -/
theorem Token.isEmpty_page_locator (p : Page) : (Token.page p.locator).isEmpty = false :=
  Bool.and_false _

namespace Mount

theorem write_of_link {s : Settings} {a : PageAddress} (h : (m.link s a w).answer = some u) :
    m.write s a = .ok u := by
  rw [link] at h
  cases hw : m.write s a with
  | ok v =>
    rw [hw] at h
    cases h
    rfl
  | error gap =>
    rw [hw] at h
    cases h

theorem linkPage_answer {r : PageReference} (h : (m.linkPage app r w).answer = some u) :
    ∃ p, (r.page app.pages w).answer = .ok p ∧ m.accepts p.cls ∧
      m.write app.settings ⟨if p.stateless then none else some (.page p.locator), p.cls, r.parameters⟩ =
        .ok u := by
  rw [linkPage, Run.bind_answer] at h
  cases hp : (r.page app.pages w).answer with
  | error e =>
    rw [hp] at h
    cases h
  | ok p =>
    rw [hp] at h
    dsimp only at h
    split at h
    · next hc =>
      rw [Run.bind_answer, Page.token_answer] at h
      exact ⟨p, rfl, (Bool.and_eq_true_iff.mp hc).1, write_of_link h⟩
    · cases h

theorem linkCallback_answer {call : Invocation} (h : (m.linkCallback app call w).answer = some u) :
    ∃ p, (call.page.page app.pages w).answer = .ok p ∧ m.accepts p.cls ∧
      app.registry.resolve call.interface.name = some call.interface ∧
      m.write app.settings ⟨some (.callback p.pageMapName? p.version
        ⟨call.interface.name, call.behavior, call.path⟩), p.cls, call.page.parameters⟩ = .ok u := by
  rw [linkCallback, Run.bind_answer] at h
  cases hp : (call.page.page app.pages w).answer with
  | error e =>
    rw [hp] at h
    cases h
  | ok p =>
    rw [hp] at h
    dsimp only at h
    split at h
    · next hc =>
      rw [Application.callbackToken] at h
      cases hn : app.registry.nameOf call.interface with
      | none =>
        rw [hn] at h
        cases h
      | some name =>
        obtain ⟨rfl, hr⟩ := Registry.nameOf_eq_some_iff.mp hn
        rw [hn] at h
        exact ⟨p, rfl, hc, hr, write_of_link h⟩
    · cases h

end Mount

namespace Handler

/-- What the address of a handler says, whichever mount writes it. -/
inductive Addressed (app : Application W) (w : W) : Handler → PageAddress → Prop
  | bookmarkablePage (cls : PageClass) (ps : Parameters) :
      Addressed app w (.bookmarkablePage cls ps) ⟨some (.page {}), cls, ps⟩
  | stateless {r : PageReference} {p : Page} (hp : (r.page app.pages w).answer = .ok p) (hs : p.stateless) :
      Addressed app w (.renderPage r) ⟨none, p.cls, r.parameters⟩
  | stored {r : PageReference} {p : Page} (hp : (r.page app.pages w).answer = .ok p)
      (hs : p.stateless = false) :
      Addressed app w (.renderPage r) ⟨some (.page p.locator), p.cls, r.parameters⟩
  | callback {call : Invocation} {p : Page} (hp : (call.page.page app.pages w).answer = .ok p)
      (hi : app.registry.resolve call.interface.name = some call.interface) :
      Addressed app w (.bookmarkableListener call) ⟨some (.callback p.pageMapName? p.version
        ⟨call.interface.name, call.behavior, call.path⟩), p.cls, call.page.parameters⟩

/-- The page class that an address of a handler names. -/
def class? (h : Handler) (s : PageSource W) (w : W) : Option PageClass :=
  match h with
  | .bookmarkablePage cls _ => some cls
  | .renderPage _ | .listener _ | .bookmarkableListener _ => (h.page s w).answer.toOption.map (·.cls)

/-- Which handler the address of a handler leads to, up to the parameters. What the page of the handler
is, is decided when the address is written. -/
inductive LeadsTo (s : PageSource W) (w : W) : Handler → Handler → Prop
  | bookmarkablePage (cls : PageClass) (ps qs : Parameters) :
      LeadsTo s w (.bookmarkablePage cls ps) (.renderPage ⟨.fresh cls, qs, true⟩)
  /-- The id of a stateless page is of no use, so a new one is asked for. -/
  | stateless {r : PageReference} {p : Page} (hp : (r.page s w).answer = .ok p) (hs : p.stateless)
      (qs : Parameters) :
      LeadsTo s w (.renderPage r) (.renderPage ⟨.fresh p.cls, qs, true⟩)
  | stored {r : PageReference} {p : Page} (hp : (r.page s w).answer = .ok p) (hs : p.stateless = false)
      (qs : Parameters) :
      LeadsTo s w (.renderPage r) (.renderPage ⟨.stored p.id (some p.cls) (some p.renderCount), qs, true⟩)
  | callback {call : Invocation} {p : Page} (hp : (call.page.page s w).answer = .ok p) (qs : Parameters) :
      LeadsTo s w (.bookmarkableListener call)
        (.listener ⟨⟨.stored p.id (some p.cls) (some p.renderCount), qs, true⟩,
          call.path, call.interface, call.behavior⟩)

namespace Addressed
variable {h : Handler} {a : PageAddress}

theorem parameters (ha : h.Addressed app w a) : a.parameters = h.parameters := by
  cases ha <;> rfl

theorem class?_eq (ha : h.Addressed app w a) : h.class? app.pages w = some a.cls := by
  cases ha with
  | bookmarkablePage cls ps => rfl
  | stateless hp _ => exact congrArg (·.toOption.map (·.cls)) hp
  | stored hp _ => exact congrArg (·.toOption.map (·.cls)) hp
  | callback hp _ => exact congrArg (·.toOption.map (·.cls)) hp

theorem callable (ha : h.Addressed app w a) (hr : app.registry.Reachable) : ∀ token ∈ a.token, token.Callable := by
  intro token ht c hc
  cases ha with
  | bookmarkablePage cls ps => cases ht; cases hc
  | stateless hp hs => cases ht
  | stored hp hs => cases ht; cases hc
  | callback hp hi =>
    cases ht
    cases hc
    exact hr.isIdentifier_of_resolve (Option.isSome_of_eq_some hi)

/-- The address is taken for what it was written for. -/
theorem leadsTo (ha : h.Addressed app w a) (qs : Parameters) (w' : W) :
    ∃ h', (PageAddress.handler ⟨a.token.filter (!·.isEmpty), a.cls, qs⟩ app w').answer = some h' ∧
      h.LeadsTo app.pages w h' ∧ h'.parameters = qs := by
  cases ha with
  | bookmarkablePage cls ps => exact ⟨_, rfl, .bookmarkablePage cls ps qs, rfl⟩
  | stateless hp hs => exact ⟨_, rfl, .stateless hp hs qs, rfl⟩
  | @stored r p hp hs =>
    refine ⟨_, ?_, .stored hp hs qs, rfl⟩
    rw [Option.filter_some, Token.isEmpty_page_locator]
    rfl
  | @callback call p hp hi =>
    refine ⟨_, ?_, .callback hp qs, rfl⟩
    change (app.resume (some p.cls) qs p.version (some _) w').answer = _
    rw [Application.resume, hi]
    rfl

end Addressed

end Handler

theorem Route.mounted_link {h : Handler} (hl : ((Route.mounted app m).link h w).answer = some u) :
    ∃ a, h.Addressed app w a ∧ m.accepts a.cls ∧ m.write app.settings a = .ok u := by
  cases h with
  | bookmarkablePage cls ps =>
    change ((if m.accepts cls then _ else _ : Run W (Option Url)) w).answer = _ at hl
    split at hl
    · next hc => exact ⟨_, .bookmarkablePage cls ps, hc, Mount.write_of_link hl⟩
    · cases hl
  | renderPage r =>
    obtain ⟨p, hp, hc, hw⟩ := Mount.linkPage_answer hl
    by_cases hs : p.stateless
    · rw [if_pos hs] at hw
      exact ⟨_, .stateless hp hs, hc, hw⟩
    · rw [if_neg hs] at hw
      exact ⟨_, .stored hp (Bool.eq_false_iff.mpr hs), hc, hw⟩
  | listener call => cases hl
  | bookmarkableListener call =>
    obtain ⟨p, hp, hc, hi, hw⟩ := Mount.linkCallback_answer hl
    exact ⟨_, .callback hp hi, hc, hw⟩

/-- An address that a mount writes for a handler is read back from its text, and leads to a handler for
the same page, with the same parameters but for positional ones that are empty. The page source may
be in another state by then, as long as it knows the class that the address names. -/
theorem Route.mounted_round_trip (hv : app.Valid) {h : Handler} (hp : h.parameters.Reachable) {w' : W}
    (hm : ∀ cls ∈ h.class? app.pages w, m.Reaches app cls w')
    (hl : ((Route.mounted app m).link h w).answer = some u) :
    Url.parse u.render = u ∧
      ∃ h', ((Route.mounted app m).dispatch (Url.parse u.render) w').answer = some h' ∧
        h.LeadsTo app.pages w h' ∧ h.parameters.KeptAs h'.parameters := by
  obtain ⟨a, ha, hc, hw⟩ := mounted_link hl
  have hwf : a.parameters.named.WellFormed := by
    rw [ha.parameters]
    exact hp.wellFormed
  obtain ⟨hu, ps, hps, hread⟩ := Mount.recovers (ha.callable hv.registry) hwf hv hc (hm _ ha.class?_eq) hw
  have hparse : Url.parse u.render = u := (Url.parse_render_eq_self_iff u).mpr hu
  obtain ⟨h', hh, hto, hq⟩ := ha.leadsTo ps (m.read app u w').world
  refine ⟨hparse, h', ?_, hto, ?_⟩
  · rw [hparse, Route.mounted]
    dsimp only
    rw [Run.bind_answer, hread]
    exact hh
  · rw [hq, ← ha.parameters]
    exact hps

/-- An application with nothing but defaults over pages in memory. -/
def Application.sample : Application PageStore := ⟨{}, .builtins, PageStore.source⟩

def PageStore.sample : PageStore where
  classes := ["Shop".toList]
  pages := [{ id := 4, cls := ⟨"Shop".toList⟩, renderCount := 5 }]

def Invocation.sample : Invocation where
  page := {
    target := .stored 4 none none
    parameters := ((({} : Parameters).push "a/b".toList).push []).add "q".toList "x=y".toList }
  path := ⟨["form".toList, "0".toList], by decide, by decide⟩
  interface := .link
  behavior := some 2

def Url.sample : Url where
  segments := ["wicket".toList, "bookmarkable".toList, "Shop".toList, "a/b".toList, []]
  query := [.flag "4.5-ILinkListener.2-form-0".toList, .pair "q".toList "x=y".toList]

theorem Route.mounted_sample :
    ((Route.mounted .sample .byClass).link (.bookmarkableListener .sample) .sample).answer =
        some Url.sample ∧
      Url.parse Url.sample.render = Url.sample ∧
      ∃ h', ((Route.mounted .sample .byClass).dispatch (Url.parse Url.sample.render) .sample).answer =
          some h' ∧
        Handler.LeadsTo Application.sample.pages .sample (.bookmarkableListener .sample) h' ∧
        Invocation.sample.page.parameters.KeptAs h'.parameters := by
  have hl : ((Route.mounted .sample .byClass).link (.bookmarkableListener .sample) .sample).answer =
      some Url.sample := by rfl
  have hv : Application.sample.Valid := ⟨by decide, .builtins⟩
  have hp : (Handler.bookmarkableListener .sample).parameters.Reachable :=
    ((Parameters.Reachable.empty.push _).push _).add _ _
  refine ⟨hl, Route.mounted_round_trip hv hp ?_ hl⟩
  rintro cls ⟨⟩ -
  exact ⟨by decide, rfl⟩

end PageRouting
