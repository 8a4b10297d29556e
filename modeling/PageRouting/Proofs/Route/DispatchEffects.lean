import Mathlib.Data.List.Basic
import PageRouting.Proofs.PageSource
import PageRouting.Proofs.Route.Consulted
import PageRouting.Proofs.Route.Table

/-! What it takes to find the handler of an address. Handlers only refer to pages, so that none is made or
looked up for them; all that is asked of the page source are the class names in addresses by class. -/
namespace PageRouting

variable {W W' : Type} {settings : Settings} {registry : Registry} {u : Url}

/-- The handler of an address by class, once its name has been looked up. -/
def Application.handlerOfClass (app : Application W) (u : Url) (name : Text) (rest : List Text) :
    Option PageClass → Run W (Option Handler)
  | some cls => (Mount.address u cls [] rest).handler app
  | none => do
    .log (.unknownClass name)
    return none

-- the handler is named before the source, so that it is the same over all sources and worlds
section
variable (settings : Settings) (registry : Registry)

theorem Application.resume_yields (cls : Option PageClass) (ps : Parameters) (v : PageVersion)
    (target : Option Callback) :
    ∃ h, ∀ {W : Type} (s : PageSource W), (resume ⟨settings, registry, s⟩ cls ps v target).Yields h := by
  cases target with
  | none => exact ⟨_, fun _ => Run.yields_pure _⟩
  | some c =>
    cases hi : registry.resolve c.interface with
    | none =>
      refine ⟨none, fun s => ?_⟩
      rw [resume, hi]
      exact (Run.yields_log _).bind fun _ => Run.yields_pure none
    | some i =>
      refine ⟨some (.listener ⟨⟨.stored v.id cls (some v.renderCount), ps, true⟩, c.path, i, c.behavior⟩),
        fun s => ?_⟩
      rw [resume, hi]
      exact Run.yields_pure _

theorem PageAddress.handler_yields (a : PageAddress) :
    ∃ h, ∀ {W : Type} (s : PageSource W), (a.handler ⟨settings, registry, s⟩).Yields h := by
  cases hv : a.token.bind (·.locator.version) with
  | none =>
    refine ⟨some (.renderPage ⟨.fresh a.cls, a.parameters, true⟩), fun s => ?_⟩
    rw [handler, hv]
    exact Run.yields_pure _
  | some v =>
    obtain ⟨h, hh⟩ := Application.resume_yields settings registry (some a.cls) a.parameters v
      (a.token.bind Token.callback?)
    refine ⟨h, fun s => ?_⟩
    rw [handler, hv]
    exact hh s

theorem Application.handlerOfClass_yields (u : Url) (name : Text) (rest : List Text) (cls : Option PageClass) :
    ∃ h, ∀ {W : Type} (s : PageSource W), (handlerOfClass ⟨settings, registry, s⟩ u name rest cls).Yields h := by
  cases cls with
  | none => exact ⟨none, fun _ => (Run.yields_log _).bind fun _ => Run.yields_pure none⟩
  | some cls => exact (Mount.address u cls [] rest).handler_yields settings registry

theorem PageInstance.dispatch_yields (u : Url) :
    ∃ h, ∀ {W : Type} (s : PageSource W), (dispatch ⟨settings, registry, s⟩ u).Yields h := by
  cases hf : fits settings u with
  | false =>
    refine ⟨none, fun s => ?_⟩
    rw [dispatch, if_neg (Bool.not_eq_true _ ▸ hf)]
    exact Run.yields_pure none
  | true =>
    cases hv : (Token.ofQuery u.query).1.bind (·.locator.version) with
    | none =>
      refine ⟨none, fun s => ?_⟩
      rw [dispatch_of_fits hf, hv]
      exact Run.yields_pure none
    | some v =>
      obtain ⟨h, hh⟩ := Application.resume_yields settings registry none (Token.ofQuery u.query).2 v
        ((Token.ofQuery u.query).1.bind Token.callback?)
      refine ⟨h, fun s => ?_⟩
      rw [dispatch_of_fits hf, hv]
      exact hh s

end

/-- Mounts that read an address without a source answer it by themselves. -/
theorem Route.mounted_yields (registry : Registry) {m : Mount} {a : Option PageAddress}
    (hread : ∀ {W : Type} (s : PageSource W), m.read ⟨settings, registry, s⟩ u = pure a) :
    ∃ h, ∀ {W : Type} (s : PageSource W), ((mounted ⟨settings, registry, s⟩ m).dispatch u).Yields h := by
  cases a with
  | none =>
    refine ⟨none, fun s => ?_⟩
    rw [mounted_dispatch_of_read (hread s)]
    exact Run.yields_pure none
  | some a =>
    obtain ⟨h, hh⟩ := a.handler_yields settings registry
    refine ⟨h, fun s => ?_⟩
    rw [mounted_dispatch_of_read (hread s)]
    exact hh s

theorem Route.mounted_byClass_dispatch {app : Application W} {name : Text} {rest : List Text}
    (hc : Mount.className? app.settings u = some (name, rest)) :
    (mounted app .byClass).dispatch u = app.pages.resolve name >>= app.handlerOfClass u name rest := by
  change Mount.byClass.read app u >>= _ = _
  rw [Mount.read, hc]
  dsimp only
  rw [bind_assoc]
  exact Run.bind_congr_option rfl fun _ => rfl

namespace RouteShape
variable {r : RouteShape} {name : Text}

/-- The class name that a route looks up for an address. -/
def lookup? (s : Settings) (u : Url) (r : RouteShape) : Option Text :=
  if r = .mount .byClass ∧ r.fits s u then u.path[2]? else none

theorem lookup?_eq_some (h : r.lookup? settings u = some name) :
    r = .mount .byClass ∧ ∃ rest, Mount.className? settings u = some (name, rest) := by
  rw [lookup?] at h
  split at h
  · next hr =>
    obtain ⟨rfl, hf⟩ := hr
    obtain ⟨⟨name', rest⟩, hc⟩ := Option.isSome_iff_exists.mp hf
    rw [(Mount.className?_eq_some_iff.mp hc).2] at h
    cases h
    exact ⟨rfl, rest, hc⟩
  · cases h

theorem not_fits_byClass (h : lookup? settings u (.mount .byClass) = none) :
    fits settings u (.mount .byClass) = false := by
  rw [Bool.eq_false_iff]
  intro hf
  obtain ⟨⟨name, rest⟩, hc⟩ := Option.isSome_iff_exists.mp hf
  rw [lookup?, if_pos ⟨rfl, hf⟩, (Mount.className?_eq_some_iff.mp hc).2] at h
  cases h

/-- Where no name is looked up, the handler is fixed by the address. -/
theorem dispatch_yields (registry : Registry) (h : r.lookup? settings u = none) :
    ∃ h, ∀ {W : Type} (s : PageSource W), ((r.toRoute ⟨settings, registry, s⟩).dispatch u).Yields h := by
  match r with
  | .mount (.path p cls) => exact Route.mounted_yields registry fun _ => rfl
  | .mount (.home cls) => exact Route.mounted_yields registry fun _ => rfl
  | .mount .byClass =>
    refine ⟨none, fun s => ?_⟩
    rw [dispatch_of_not_fits (not_fits_byClass h)]
    exact Run.yields_pure none
  | .pageInstance => exact PageInstance.dispatch_yields settings registry u

theorem sameEffects_dispatch {app : Application W} (h : r.lookup? app.settings u = some name) :
    ((r.toRoute app).dispatch u).SameEffects (app.pages.resolve name) := by
  obtain ⟨rfl, rest, hc⟩ := lookup?_eq_some h
  rw [toRoute, Route.mounted_byClass_dispatch hc]
  refine Run.sameEffects_bind fun cls => ?_
  obtain ⟨_, hh⟩ := Application.handlerOfClass_yields app.settings app.registry u name rest cls
  exact (hh app.pages).1

theorem calls_dispatch (settings : Settings) (registry : Registry) (s : PageSource W) (u : Url) (r : RouteShape)
    (w : W) :
    ((r.toRoute ⟨settings, registry, s.watched⟩).dispatch u w).calls =
      (r.lookup? settings u).toList.map .resolve := by
  cases hl : r.lookup? settings u with
  | none =>
    obtain ⟨_, hh⟩ := dispatch_yields registry hl
    exact ((hh s.watched).1 w).1
  | some name => exact (sameEffects_dispatch hl w).1.trans (s.calls_resolve_watched name w)

theorem world_dispatch (app : Application W) (u : Url) (r : RouteShape) (w : W) :
    ((r.toRoute app).dispatch u w).world =
      (r.lookup? app.settings u).toList.foldl (fun w name => (app.pages.resolve name w).world) w := by
  cases hl : r.lookup? app.settings u with
  | none =>
    obtain ⟨_, hh⟩ := dispatch_yields app.registry hl
    exact ((hh app.pages).1 w).2
  | some name => exact (sameEffects_dispatch hl w).2

/-- Over sources that give the same classes, a route answers the same. -/
theorem alike_dispatch (settings : Settings) (registry : Registry) {R : W → W' → Prop} {s : PageSource W}
    {s' : PageSource W'} (hs : ∀ name, Run.Alike R (s.resolve name) (s'.resolve name)) (u : Url) (r : RouteShape) :
    Run.Alike R ((r.toRoute ⟨settings, registry, s⟩).dispatch u)
      ((r.toRoute ⟨settings, registry, s'⟩).dispatch u) := by
  cases hl : r.lookup? settings u with
  | none =>
    obtain ⟨_, hh⟩ := dispatch_yields registry hl
    exact (hh s).alike (hh s')
  | some name =>
    obtain ⟨rfl, rest, hc⟩ := lookup?_eq_some hl
    rw [toRoute, toRoute, Route.mounted_byClass_dispatch hc, Route.mounted_byClass_dispatch hc]
    refine (hs name).bind fun cls => ?_
    obtain ⟨_, hh⟩ := Application.handlerOfClass_yields settings registry u name rest cls
    exact (hh s).alike (hh s')

end RouteShape

namespace RouteSetup

def score (u : Url) (r : RouteSetup) : Int := r.shape.score r.settings u

/-- The class name that a route looks up for an address, which depends on its settings. -/
def lookup? (u : Url) (r : RouteSetup) : Option Text := r.shape.lookup? r.settings u

theorem toRoute_score (s : PageSource W) (u : Url) (r : RouteSetup) :
    (r.toRoute s).score u = pure (r.score u) := r.shape.toRoute_score _ u

end RouteSetup

namespace RouteTree
variable {α : Type} (setup : α → RouteSetup)

/-- The leaves that are asked for the handler of an address: by score at every chain, up to one that answers. -/
def consultedForDispatch (s : PageSource W) (t : RouteTree α) (u : Url) (w : W) : List α :=
  Run.consulted (fun a => ((setup a).toRoute s).dispatch u) (t.order fun a => (setup a).score u) w

/-- The class names that are looked up for an address. -/
def lookups (s : PageSource W) (t : RouteTree α) (u : Url) (w : W) : List Text :=
  (t.consultedForDispatch setup s u w).filterMap fun a => (setup a).lookup? u

theorem asks_route (s : PageSource W) (t : RouteTree α) (u : Url) :
    ((t.route setup s).dispatch u).Asks (fun a => ((setup a).toRoute s).dispatch u)
      (t.order fun a => (setup a).score u) :=
  asks_dispatch (fun a => (setup a).toRoute_score s u) t

theorem calls_dispatch (s : PageSource W) (t : RouteTree α) (u : Url) (w : W) :
    ((t.route setup s.watched).dispatch u w).calls = (t.lookups setup s.watched u w).map .resolve := by
  have hcalls (a : α) (w : W) : (((setup a).toRoute s.watched).dispatch u w).calls =
      ((setup a).lookup? u).toList.map .resolve := RouteShape.calls_dispatch _ _ s u _ w
  rw [(asks_route setup s.watched t u).calls hcalls, lookups, List.filterMap_eq_flatMap_toList, List.map_flatMap]
  rfl

theorem world_dispatch (s : PageSource W) (t : RouteTree α) (u : Url) (w : W) :
    ((t.route setup s).dispatch u w).world =
      (t.lookups setup s u w).foldl (fun w name => (s.resolve name w).world) w := by
  have hworld (a : α) (w : W) : (((setup a).toRoute s).dispatch u w).world =
      ((setup a).lookup? u).toList.foldl (fun w name => (s.resolve name w).world) w :=
    RouteShape.world_dispatch _ u _ w
  rw [(asks_route setup s t u).world hworld, lookups, List.filterMap_eq_flatMap_toList, List.foldl_flatMap]
  rfl

theorem alike_dispatch {R : W → W' → Prop} {s : PageSource W} {s' : PageSource W'}
    (hs : ∀ name, Run.Alike R (s.resolve name) (s'.resolve name)) (t : RouteTree α) (u : Url) :
    Run.Alike R ((t.route setup s).dispatch u) ((t.route setup s').dispatch u) :=
  (asks_route setup s t u).alike (asks_route setup s' t u) fun _ => RouteShape.alike_dispatch _ _ hs u _

/-- Parts of the world that looking up a class leaves alone are as they were. -/
theorem dispatch_unchanged {s : PageSource W} {S : Type} (store : W → S)
    (hs : ∀ name w, store (s.resolve name w).world = store w) (t : RouteTree α) (u : Url) (w : W) :
    store ((t.route setup s).dispatch u w).world = store w := by
  rw [world_dispatch]
  induction t.lookups setup s u w generalizing w with
  | nil => rfl
  | cons name names ih => exact (ih _).trans (hs name w)

theorem steady_dispatch {s : PageSource W} (hs : Run.Steady s.resolve) (t : RouteTree α) :
    Run.Steady (t.route setup s).dispatch := by
  intro u earlier w
  -- what the source knows is itself a part of the world that lookups leave alone
  have hclasses := dispatch_unchanged setup (fun w name => (s.resolve name w).answer)
    (fun earlier w => funext fun name => hs name earlier w) t earlier w
  have hagrees := PageSource.agreesWith_of_steady hs hs (congrFun hclasses)
  exact (alike_dispatch setup (s.alike_resolve s) t u _ _ hagrees).1

/-- Finding the handler of an address neither makes nor looks up a page. The calls on the page source look up
the class that the address names, one for each route by class that is asked and has such addresses, and
the source is left as after these lookups. Whatever they leave alone is thus as before, such as stored
pages. Sources that give the same classes lead to equal handlers, and where it makes no difference to a
source what was looked up before, it makes none to an address which addresses came before. Each route may
go by settings and interfaces of its own, so that an address belongs to some of the routes by class and to
others not. -/
theorem dispatch_effects (t : RouteTree α) (s : PageSource W) :
    (∀ u w,
      let names := (t.consultedForDispatch setup s.watched u w).filterMap fun a => (setup a).lookup? u
      let found := (t.route setup s.watched).dispatch u w
      found.calls = names.map .resolve ∧ found.world = names.foldl (fun w name => (s.resolve name w).world) w) ∧
    (∀ {S : Type} (store : W → S), (∀ name w, store (s.resolve name w).world = store w) → ∀ u w,
      store ((t.route setup s).dispatch u w).world = store w) ∧
    (∀ {W' : Type} (s' : PageSource W') w w', s.AgreesWith w s' w' → ∀ u,
      ((t.route setup s).dispatch u w).answer = ((t.route setup s').dispatch u w').answer) ∧
    (Run.Steady s.resolve → ∀ (us : List Url) w,
      (us.mapM (t.route setup s).dispatch w).answer = us.map fun u => ((t.route setup s).dispatch u w).answer) := by
  refine ⟨fun u w => ⟨?_, ?_⟩, fun store hs u w => ?_, fun s' w w' h u => ?_, fun hs us w => ?_⟩
  · exact calls_dispatch setup s t u w
  · exact world_dispatch setup s.watched t u w
  · exact dispatch_unchanged setup store hs t u w
  · exact (alike_dispatch setup (s.alike_resolve s') t u w w' h).1
  · exact (steady_dispatch setup hs t).answer_mapM us w

/-- Addresses by class, at two places under one root and at a third under another. -/
def byName : RouteTree RouteSetup :=
  .chain [.leaf { shape := .mount .byClass },
    .chain [.leaf { shape := .mount .byClass },
      .leaf { settings := { rootSegment := "app".toList }, shape := .mount .byClass }],
    .leaf { shape := .pageInstance }]

/-- An address of a class that there is not. -/
def unknownUrl : Url := ⟨["wicket".toList, "bookmarkable".toList, "Nowhere".toList], []⟩

theorem dispatch_unknown :
    ((byName.route id PageStore.source.watched).dispatch unknownUrl .sample).calls =
        [.resolve "Nowhere".toList, .resolve "Nowhere".toList] ∧
      ((byName.route id PageStore.source).dispatch unknownUrl PageStore.sample).world = PageStore.sample ∧
      PageStore.source.AgreesWith .sample PageStore.source { PageStore.sample with pages := [] } ∧
      ∃ h, ((byName.route id PageStore.source).dispatch Url.sample PageStore.sample).answer = some h ∧
        ((byName.route id PageStore.source).dispatch Url.sample { PageStore.sample with pages := [] }).answer =
          some h ∧
        ([Url.sample, Url.sample].mapM (byName.route id PageStore.source).dispatch PageStore.sample).answer =
          [some h, some h] := by
  have hsteady : Run.Steady PageStore.source.resolve := fun _ _ _ => rfl
  have hagrees : PageStore.source.AgreesWith .sample PageStore.source { PageStore.sample with pages := [] } :=
    PageSource.agreesWith_of_steady hsteady hsteady fun _ => rfl
  have hinner : (RouteTree.chain [.leaf { shape := .mount .byClass },
      .leaf { settings := { rootSegment := "app".toList }, shape := .mount .byClass }]).order
        (RouteSetup.score unknownUrl) =
      [{ shape := .mount .byClass }, { settings := { rootSegment := "app".toList }, shape := .mount .byClass }] := by
    rw [order_chain, List.mergeSort_of_pairwise (by decide)]
    rfl
  have hasked : byName.consultedForDispatch id PageStore.source.watched unknownUrl .sample =
      [{ shape := .mount .byClass }, { shape := .mount .byClass },
        { settings := { rootSegment := "app".toList }, shape := .mount .byClass }, { shape := .pageInstance }] := by
    change Run.consulted _ (byName.order (RouteSetup.score unknownUrl)) _ = _
    rw [byName, order_chain, List.mergeSort_of_pairwise (by decide), List.flatMap_cons, List.flatMap_cons, hinner]
    rfl
  obtain ⟨h, hh⟩ : ∃ h, ((RouteSetup.toRoute PageStore.source { shape := .mount .byClass }).dispatch Url.sample
      PageStore.sample).answer = some h := ⟨_, rfl⟩
  have hbest : ∀ r ∈ byName.leaves, r.score Url.sample = 1 → r = { shape := .mount .byClass } := by decide
  have hfound : ((byName.route id PageStore.source).dispatch Url.sample PageStore.sample).answer = some h := by
    refine dispatch_of_best (RouteSetup.toRoute_score PageStore.source Url.sample)
      (a := { shape := .mount .byClass }) (by decide) (by decide) (by decide) fun r hr hs => ?_
    rw [hbest r hr hs]
    exact hh
  obtain ⟨heffects, hstore, hequal, horder⟩ := byName.dispatch_effects id PageStore.source
  refine ⟨(heffects unknownUrl .sample).1.trans (by rw [hasked]; rfl), hstore id (fun _ _ => rfl) unknownUrl .sample,
    hagrees, h, hfound, (hequal _ _ _ hagrees Url.sample).symm.trans hfound, ?_⟩
  refine (horder hsteady [Url.sample, Url.sample] .sample).trans ?_
  exact congrArg₂ (fun a b => [a, b]) hfound hfound

end RouteTree
end PageRouting
