import Mathlib.Logic.Function.Iterate
import PageRouting.PageStore
import PageRouting.Proofs.PageSource
import PageRouting.Proofs.Route.Consulted
import PageRouting.Route.Table

/-! What it takes to find the address of a handler. Every route that could have one follows the page reference
of the handler on its own account, whether it answers or not, and nothing else is asked of the page source. -/
namespace PageRouting

variable {W : Type} {app : Application W}

/-- The page that a handler refers to. A page that is still to be made from its class has no reference. -/
def Handler.reference? : Handler → Option PageReference
  | .bookmarkablePage .. => none
  | .renderPage r => some r
  | .listener call => some call.page
  | .bookmarkableListener call => some call.page

/-- Whether a route looks at the page of a handler. -/
def RouteShape.capable : RouteShape → Handler → Bool
  | _, .bookmarkablePage .. => false
  | _, .renderPage _ => true
  | .pageInstance, .listener _ => true
  | .pageInstance, .bookmarkableListener _ => false
  | .mount _, .listener _ => false
  | .mount _, .bookmarkableListener _ => true

namespace Page

theorem inert_locate (p : Page) : (p.locate : Run W PageLocator).Inert :=
  (Run.inert_logAll _).bind fun _ => Run.inert_pure _

theorem inert_token (p : Page) : (p.token : Run W (Option Token)).Inert := by
  rw [token]
  split
  · exact Run.inert_pure none
  · exact p.inert_locate.bind fun _ => Run.inert_pure _

end Page

theorem Application.inert_callbackToken (app : Application W) (p : Page) (call : Invocation) :
    (app.callbackToken p call).Inert := by
  rw [callbackToken]
  split
  · exact Run.inert_pure none
  · exact p.inert_locate.bind fun _ => Run.inert_pure _

namespace Mount
variable {m : Mount}

theorem inert_link (m : Mount) (s : Settings) (a : PageAddress) : (m.link s a : Run W (Option Url)).Inert := by
  rw [link]
  split
  · exact Run.inert_pure _
  · exact (Run.inert_logAll _).bind fun _ => Run.inert_pure none

theorem sameEffects_linkPage (r : PageReference) : (m.linkPage app r).SameEffects (r.page app.pages) := by
  refine Run.sameEffects_bind fun found => ?_
  cases found with
  | error e => exact (Run.inert_log _).bind fun _ => Run.inert_pure none
  | ok page =>
    dsimp only
    split
    · exact page.inert_token.bind fun _ => m.inert_link _ _
    · exact Run.inert_pure none

theorem sameEffects_linkCallback (call : Invocation) :
    (m.linkCallback app call).SameEffects (call.page.page app.pages) := by
  refine Run.sameEffects_bind fun found => ?_
  cases found with
  | error e => exact (Run.inert_log _).bind fun _ => Run.inert_pure none
  | ok page =>
    dsimp only
    split
    · refine (app.inert_callbackToken page call).bind fun token => ?_
      cases token with
      | none => exact Run.inert_pure none
      | some token => exact m.inert_link _ _
    · exact Run.inert_pure none

end Mount

namespace PageInstance

theorem sameEffects_storedPage (r : PageReference) : (storedPage app r).SameEffects (r.page app.pages) := by
  refine Run.sameEffects_bind fun found => ?_
  cases found with
  | error e => exact (Run.inert_log _).bind fun _ => Run.inert_pure none
  | ok page => exact Run.inert_pure _

theorem sameEffects_linkPage (r : PageReference) : (linkPage app r).SameEffects (r.page app.pages) := by
  refine Run.SameEffects.trans ?_ (sameEffects_storedPage r)
  refine Run.sameEffects_bind fun page => ?_
  cases page with
  | none => exact Run.inert_pure none
  | some page => exact page.inert_locate.bind fun _ => Run.inert_pure _

theorem sameEffects_linkCallback (call : Invocation) :
    (linkCallback app call).SameEffects (call.page.page app.pages) := by
  refine Run.SameEffects.trans ?_ (sameEffects_storedPage call.page)
  refine Run.sameEffects_bind fun page => ?_
  cases page with
  | none => exact Run.inert_pure none
  | some page => exact (app.inert_callbackToken page call).bind fun _ => Run.inert_pure _

end PageInstance

namespace RouteShape

theorem sameEffects_link {r : RouteShape} {h : Handler} (hc : r.capable h) :
    ((r.toRoute app).link h).SameEffects (h.page app.pages) := by
  cases r with
  | mount m =>
    cases h with
    | bookmarkablePage cls ps => cases hc
    | renderPage page => exact Mount.sameEffects_linkPage page
    | listener call => cases hc
    | bookmarkableListener call => exact Mount.sameEffects_linkCallback call
  | pageInstance =>
    cases h with
    | bookmarkablePage cls ps => cases hc
    | renderPage page => exact PageInstance.sameEffects_linkPage page
    | listener call => exact PageInstance.sameEffects_linkCallback call
    | bookmarkableListener call => cases hc

theorem inert_link {r : RouteShape} {h : Handler} (hc : r.capable h = false) : ((r.toRoute app).link h).Inert := by
  cases r with
  | mount m =>
    cases h with
    | bookmarkablePage cls ps =>
      change Run.Inert (if m.accepts cls then _ else _)
      split
      · exact m.inert_link _ _
      · exact Run.inert_pure none
    | renderPage page => cases hc
    | listener call => exact Run.inert_pure none
    | bookmarkableListener call => cases hc
  | pageInstance =>
    cases h with
    | bookmarkablePage cls ps => exact Run.inert_pure none
    | renderPage page => cases hc
    | listener call => cases hc
    | bookmarkableListener call => exact Run.inert_pure none

end RouteShape

namespace Handler

/-- The calls that it takes to resolve the page of a handler, for routes that look at it. -/
def lookups (h : Handler) : List Call := (h.reference?.map PageReference.lookups).getD []

theorem lookups_eq {h : Handler} {r : PageReference} (hr : r ∈ h.reference?) : h.lookups = r.lookups := by
  rw [lookups, hr]
  rfl

theorem resolve_not_mem_lookups (h : Handler) (name : Text) : Call.resolve name ∉ h.lookups := by
  cases hr : h.reference? with
  | none =>
    rw [lookups, hr]
    exact List.not_mem_nil
  | some r =>
    rw [lookups_eq hr]
    exact r.resolve_not_mem_lookups name

/-- A handler of a page at hand, or without a source, needs no calls. -/
theorem lookups_eq_nil {h : Handler} (hr : ∀ r ∈ h.reference?, r.sourced = false ∨ ∃ page, r.target = .loaded page) :
    h.lookups = [] := by
  cases hh : h.reference? with
  | none => rw [lookups, hh]; rfl
  | some r =>
    obtain ⟨target, ps, sourced⟩ := r
    rw [lookups_eq hh]
    rcases hr _ hh with hs | ⟨page, ht⟩
    · cases hs
      cases target <;> rfl
    · cases ht
      rfl

theorem calls_page_watched (s : PageSource W) {r : RouteShape} {h : Handler} (hc : r.capable h) (w : W) :
    (h.page s.watched w).calls = h.lookups := by
  cases h with
  | bookmarkablePage => cases hc
  | renderPage page => exact page.calls_page_watched s w
  | listener call => exact call.page.calls_page_watched s w
  | bookmarkableListener call => exact call.page.calls_page_watched s w

theorem world_page_watched (s : PageSource W) (h : Handler) (w : W) :
    (h.page s.watched w).world = (h.page s w).world := by
  cases h with
  | bookmarkablePage cls ps => rfl
  | renderPage page => exact page.world_page_watched s w
  | listener call => exact call.page.world_page_watched s w
  | bookmarkableListener call => exact call.page.world_page_watched s w

end Handler

theorem flatMap_ite_nil {α β : Type} (p : α → Bool) (bs : List β) (as : List α) :
    (as.flatMap fun a => if p a then bs else []) = (List.replicate (as.countP p) bs).flatten := by
  induction as with
  | nil => rfl
  | cons a as ih =>
    rw [List.flatMap_cons, List.countP_cons, ih]
    cases p a <;> rfl

namespace RouteTree
variable {α : Type} (setup : α → RouteSetup)

/-- The leaves that are asked for the address of a handler: from left to right, up to one that answers. -/
def consultedForLink (s : PageSource W) (t : RouteTree α) (h : Handler) (w : W) : List α :=
  Run.consulted (fun a => ((setup a).toRoute s).link h) t.leaves w

theorem calls_link (s : PageSource W) (t : RouteTree α) (h : Handler) (w : W) :
    ((t.route setup s.watched).link h w).calls =
      (List.replicate ((t.consultedForLink setup s.watched h w).countP fun a => (setup a).shape.capable h)
        h.lookups).flatten := by
  have hcalls (a : α) (w : W) : (((setup a).toRoute s.watched).link h w).calls =
      if (setup a).shape.capable h then h.lookups else [] := by
    cases hc : (setup a).shape.capable h with
    | true => exact (RouteShape.sameEffects_link hc w).1.trans (Handler.calls_page_watched s hc w)
    | false => exact (RouteShape.inert_link hc w).1
  rw [route, (asks_link _ t h).calls hcalls, flatMap_ite_nil]
  rfl

theorem world_link (s : PageSource W) (t : RouteTree α) (h : Handler) (w : W) :
    ((t.route setup s).link h w).world =
      Nat.iterate (fun w => (h.page s w).world)
        ((t.consultedForLink setup s h w).countP fun a => (setup a).shape.capable h) w := by
  have hworld (a : α) (w : W) : (((setup a).toRoute s).link h w).world =
      if (setup a).shape.capable h then (h.page s w).world else w := by
    cases hc : (setup a).shape.capable h with
    | true => exact (RouteShape.sameEffects_link hc w).2
    | false => exact (RouteShape.inert_link hc w).2
  rw [route, (asks_link _ t h).world hworld, ← List.foldl_filter, List.foldl_const, ← List.countP_eq_length_filter]
  rfl

/-- Finding the address of a handler never looks up a class. What it asks of the page source are as many
copies of one call as there are capable routes among those asked: to make the page, where the handler
asks for a new one, or to find the page that it names. Where there is no page to ask for, or no source
to ask, it makes no call. The source is left as after so many pages, one after the other. All this holds
whatever settings and interfaces each of the routes goes by. -/
theorem link_effects (t : RouteTree α) (s : PageSource W) (h : Handler) (w : W) :
    let made := (t.route setup s.watched).link h w
    let n := (t.consultedForLink setup s.watched h w).countP fun a => (setup a).shape.capable h
    (∀ name, Call.resolve name ∉ made.calls) ∧
      ((∀ r ∈ h.reference?, r.sourced = false ∨ ∃ page, r.target = .loaded page) → made.calls = []) ∧
      (∀ r ∈ h.reference?, r.sourced →
        (∀ cls, r.target = .fresh cls → made.calls = List.replicate n (.create cls r.parameters)) ∧
        ∀ id cls count, r.target = .stored id cls count →
          made.calls = List.replicate n (.find id cls count r.parameters)) ∧
      made.world = Nat.iterate (fun w => (h.page s w).world) n w := by
  have hcalls := calls_link setup s t h w
  have hworld := world_link setup s.watched t h w
  dsimp only at hcalls hworld ⊢
  rw [hcalls]
  refine ⟨fun name hn => ?_, fun hr => ?_, fun r hr hsourced => ⟨fun cls ht => ?_, fun id cls count ht => ?_⟩, ?_⟩
  · obtain ⟨calls, hcalls, hmem⟩ := List.mem_flatten.mp hn
    rw [List.eq_of_mem_replicate hcalls] at hmem
    exact h.resolve_not_mem_lookups name hmem
  · rw [Handler.lookups_eq_nil hr, List.flatten_replicate_nil]
  · rw [Handler.lookups_eq hr, PageReference.lookups, ht, hsourced]
    exact List.flatten_replicate_singleton
  · rw [Handler.lookups_eq hr, PageReference.lookups, ht, hsourced]
    exact List.flatten_replicate_singleton
  · rw [hworld]
    exact congrArg (Nat.iterate · _ w) (funext (Handler.world_page_watched s h))

-- the mount declines only after it has made a page of its own
example :
    let t : RouteTree RouteSetup :=
      .chain [.leaf { shape := .mount (.home ⟨"Home".toList⟩) },
        .leaf { settings := { rootSegment := "app".toList }, shape := .pageInstance }]
    let made := (t.route id PageStore.source.watched).link
      (.renderPage { target := .fresh ⟨"Shop".toList⟩ }) { classes := ["Shop".toList] }
    made.answer.isSome ∧ made.calls = List.replicate 2 (.create ⟨"Shop".toList⟩ {}) ∧
      made.world.pages.length = 2 :=
  ⟨rfl, rfl, rfl⟩

end RouteTree

end PageRouting
