import PageRouting.Proofs.Mount.Rebuild
import PageRouting.Proofs.Route.PageInstance

/-! A query says the same below the segments of page instances and at a mount that stands at one path:
which page instance is meant, and which callback on it. The two part only where it names no instance. -/
namespace PageRouting

variable {W : Type} {app : Application W} {q : Query}

theorem MountSegment.read?_map_literal (path : List Text) :
    read? (path.map .literal) path = some ([], []) := by
  induction path with
  | nil => rfl
  | cons text path ih => rw [List.map_cons, read?, if_pos rfl, ih]

namespace Mount
variable {m : Mount} {cls : PageClass} {path : List Text}

/-- Mounts at a single path: one of literals alone, or that of the application root. -/
inductive StandsAt : Mount → PageClass → List Text → Prop
  | path {p : MountPath} {path : List Text} (hp : p.segments = path.map .literal) (cls : PageClass) :
      StandsAt (.path p cls) cls path
  | home (cls : PageClass) : StandsAt (.home cls) cls []

/-- At this path an address holds what its query holds. -/
theorem StandsAt.read (h : m.StandsAt cls path) (q : Query) :
    m.read app ⟨path, q⟩ = pure (some ⟨(Token.ofQuery q).1, cls, (Token.ofQuery q).2⟩) := by
  obtain ⟨-, hq, hi⟩ := Token.of_ofQuery q
  have haddress : address ⟨path, q⟩ cls [] [] = ⟨(Token.ofQuery q).1, cls, (Token.ofQuery q).2⟩ := by
    rw [address_eq, List.filter_nil, Parameters.gather_nil hq hi]
  cases h with
  | @path p path hp cls =>
    have hpath : Url.path ⟨path, q⟩ = path := by
      cases path with
      | nil => exact absurd hp p.segments_ne_nil
      | cons s path =>
        refine Url.path_cons ?_ path q
        rintro rfl
        exact p.literal_nil_not_mem (hp ▸ List.mem_cons_self)
    rw [Mount.read, hpath, hp, MountSegment.read?_map_literal, Option.map_some, haddress]
  | home cls => exact congrArg (pure ∘ some) haddress

end Mount

/-- Handlers for a page instance with the parameters of an address: one that expects no class of the page,
and one that expects `cls` and otherwise is the same. -/
inductive Handler.ResumedAlike (v : PageVersion) (ps : Parameters) (cls : PageClass) : Handler → Handler → Prop
  | renderPage : ResumedAlike v ps cls (.renderPage ⟨.stored v.id none (some v.renderCount), ps, true⟩)
      (.renderPage ⟨.stored v.id (some cls) (some v.renderCount), ps, true⟩)
  | listener (path : ComponentPath) (interface : ListenerInterface) (behavior : Option UInt32) :
      ResumedAlike v ps cls
        (.listener ⟨⟨.stored v.id none (some v.renderCount), ps, true⟩, path, interface, behavior⟩)
        (.listener ⟨⟨.stored v.id (some cls) (some v.renderCount), ps, true⟩, path, interface, behavior⟩)

namespace Application

/-- A page instance is resumed with or without a class, unless what is called is not registered. -/
theorem resume_answer (app : Application W) (cls : PageClass) (ps : Parameters) (v : PageVersion)
    (target : Option Callback) (w w' : W) :
    Option.Rel (Handler.ResumedAlike v ps cls) (app.resume none ps v target w).answer
        (app.resume (some cls) ps v target w').answer ∧
      ((app.resume none ps v target w).answer.isSome ↔
        target.all fun c => (app.registry.resolve c.interface).isSome) := by
  cases target with
  | none => exact ⟨.some .renderPage, iff_of_true rfl rfl⟩
  | some c =>
    rw [resume, resume, Option.all_some]
    cases app.registry.resolve c.interface with
    | none => exact ⟨.none, Iff.rfl⟩
    | some i => exact ⟨.some (.listener c.path i c.behavior), Iff.rfl⟩

end Application

/-- A query that starts with the token of a page instance. -/
def Query.NamesInstance (q : Query) (name : Text) (rest : Query) (v : PageVersion) : Prop :=
  q = .flag name :: rest ∧ ∃ token, Token.parse name = some token ∧ token.locator.version = some v

namespace Token
variable {v : PageVersion}

theorem ofQuery_of_namesInstance {name : Text} {rest : Query} (h : q.NamesInstance name rest v) :
    ∃ token, Token.parse name = some token ∧ token.locator.version = some v ∧
      ofQuery q = (some token, .ofQuery rest) := by
  obtain ⟨rfl, token, hp, hv⟩ := h
  refine ⟨token, hp, hv, ?_⟩
  rw [QueryEntry.flag, ofQuery, hp]

/-- No other query is read with a page instance. -/
theorem exists_namesInstance (h : (ofQuery q).1.bind (·.locator.version) = some v) :
    ∃ name rest, q.NamesInstance name rest v := by
  revert h
  fun_cases ofQuery q with
  | case1 name rest token hp => exact fun h => ⟨name, rest, rfl, token, hp, h⟩
  | case2 name rest hp => exact fun h => (by cases h)
  | case3 => exact fun h => (by cases h)

end Token

theorem Route.pageInstance_dispatch (hr : app.settings.rootSegment ≠ []) (q : Query) :
    (pageInstance app).dispatch ⟨[app.settings.rootSegment, app.settings.pageSegment], q⟩ =
      match (Token.ofQuery q).1.bind (·.locator.version) with
      | none => pure none
      | some v => app.resume none (Token.ofQuery q).2 v ((Token.ofQuery q).1.bind Token.callback?) := by
  have hfits : PageInstance.fits app.settings ⟨[app.settings.rootSegment, app.settings.pageSegment], q⟩ := by
    rw [PageInstance.fits, Url.path_cons hr]
    exact List.isPrefixOf_iff_prefix.mpr (List.prefix_refl _)
  exact PageInstance.dispatch_of_fits hfits

theorem Mount.StandsAt.dispatch {m : Mount} {cls : PageClass} {path : List Text} (h : m.StandsAt cls path)
    (q : Query) :
    (Route.mounted app m).dispatch ⟨path, q⟩ =
      PageAddress.handler ⟨(Token.ofQuery q).1, cls, (Token.ofQuery q).2⟩ app :=
  Route.mounted_dispatch_of_read (h.read q)

/-- A query is answered at the address of page instances and at the single path of a mount alike. If it
starts with the token of an instance, both resume it or both decline, and they resume it exactly if
what the token calls is registered; only the mount expects a class. For any other query there is no
instance, and the mount asks for a new page. -/
theorem Route.dispatch_query (hv : app.Valid) {m : Mount} {cls : PageClass} {path : List Text}
    (hm : m.StandsAt cls path) (q : Query) (w w' : W) :
    let atInstance := ((Route.pageInstance app).dispatch
      ⟨[app.settings.rootSegment, app.settings.pageSegment], q⟩ w).answer
    let atMount := ((Route.mounted app m).dispatch ⟨path, q⟩ w').answer
    (∀ name rest v, q.NamesInstance name rest v →
      Option.Rel (Handler.ResumedAlike v (.ofQuery rest) cls) atInstance atMount ∧
        (atInstance.isSome ↔ (Token.decode app.registry name).isSome)) ∧
    ((∀ name rest v, ¬ q.NamesInstance name rest v) →
      atInstance = none ∧ atMount = some (.renderPage ⟨.fresh cls, (Token.ofQuery q).2, true⟩)) := by
  dsimp only
  rw [pageInstance_dispatch hv.rootSegment_ne_nil, hm.dispatch, PageAddress.handler]
  constructor
  · intro name rest v hq
    obtain ⟨token, hp, hver, hread⟩ := Token.ofQuery_of_namesInstance hq
    have hresume := app.resume_answer cls (.ofQuery rest) v token.callback? w w'
    rw [hread, Token.decode, hp, Option.bind_some, hver]
    refine ⟨hresume.1, hresume.2.trans ?_⟩
    rw [Option.isSome_filter]
    rfl
  · intro hq
    have hnone : (Token.ofQuery q).1.bind (·.locator.version) = none := by
      cases hver : (Token.ofQuery q).1.bind (·.locator.version) with
      | none => rfl
      | some v =>
        obtain ⟨name, rest, h⟩ := Token.exists_namesInstance hver
        exact absurd h (hq name rest v)
    rw [hnone]
    exact ⟨rfl, rfl⟩

/-- A path of literals. -/
def Mount.listPath : MountPath where
  text := "/shop/list/".toList
  segments := [.literal "shop".toList, .literal "list".toList]
  spelled := rfl

/-- A callback on a page instance, and a parameter. -/
def Query.callback : Query := [.flag "4.5-ILinkListener.2-form-0".toList, .pair "q".toList "x=y".toList]

/-- A page map alone, which names no instance. -/
def Query.pageMap : Query := [.flag "abc".toList, .pair "q".toList "x=y".toList]

theorem Route.dispatch_query_sample :
    Application.sample.Valid ∧
      (Mount.path Mount.listPath ⟨"Shop".toList⟩).StandsAt ⟨"Shop".toList⟩ ["shop".toList, "list".toList] ∧
      (Mount.home ⟨"Shop".toList⟩).StandsAt ⟨"Shop".toList⟩ [] ∧
      (∃ h h', ((Route.pageInstance .sample).dispatch ⟨["wicket".toList, "page".toList], Query.callback⟩
          PageStore.sample).answer = some h ∧
        ((Route.mounted .sample (.path Mount.listPath ⟨"Shop".toList⟩)).dispatch
          ⟨["shop".toList, "list".toList], Query.callback⟩ PageStore.sample).answer = some h' ∧
        Handler.ResumedAlike ⟨4, 5⟩ ⟨[], [("q".toList, ["x=y".toList])]⟩ ⟨"Shop".toList⟩ h h') ∧
      ((Route.mounted .sample (.home ⟨"Shop".toList⟩)).dispatch ⟨[], Query.pageMap⟩ PageStore.sample).answer =
        some (.renderPage ⟨.fresh ⟨"Shop".toList⟩, ⟨[], [("q".toList, ["x=y".toList])]⟩, true⟩) := by
  have hv : Application.sample.Valid := ⟨by decide, .builtins⟩
  have hpath : (Mount.path Mount.listPath ⟨"Shop".toList⟩).StandsAt ⟨"Shop".toList⟩
      ["shop".toList, "list".toList] := .path rfl _
  have hhome : (Mount.home ⟨"Shop".toList⟩).StandsAt ⟨"Shop".toList⟩ [] := .home _
  have hnames : Query.callback.NamesInstance "4.5-ILinkListener.2-form-0".toList
      [.pair "q".toList "x=y".toList] ⟨4, 5⟩ := ⟨rfl, _, rfl, rfl⟩
  have hnone : ∀ name rest v, ¬ Query.pageMap.NamesInstance name rest v := by
    rintro _ _ v ⟨⟨⟩, token, hp, hver⟩
    have habc : Token.parse "abc".toList = some (.page ⟨some ⟨"abc".toList, by decide⟩, none⟩) := by rfl
    cases habc.symm.trans hp
    cases hver
  obtain ⟨hrel, -⟩ := (dispatch_query hv hpath Query.callback PageStore.sample PageStore.sample).1 _ _ _ hnames
  obtain ⟨-, hfresh⟩ := (dispatch_query hv hhome Query.pageMap PageStore.sample PageStore.sample).2 hnone
  refine ⟨hv, hpath, hhome, ⟨_, _, rfl, rfl, ?_⟩, hfresh⟩
  cases hrel with
  | some h => exact h

end PageRouting
