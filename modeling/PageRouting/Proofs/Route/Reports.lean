import PageRouting.Proofs.Route.Attended
import PageRouting.Proofs.Route.DispatchEffects

/-! What is reported on the way to a handler. Each chain above the leaf that answers reports it, and each leaf that an
address belongs to warns of a callback that is not registered. -/
namespace PageRouting

variable {W α : Type}

namespace Run
variable {β : Type}

theorem events_bind (r : Run W α) (f : α → Run W β) (w : W) :
    ((r >>= f) w).events = (r w).events ++ (f (r w).answer (r w).world).events := List.filterMap_append

end Run

/-- A search for a handler that reports details, and then perhaps a warning, in which case nothing is found. -/
structure Outcome.Reports (made : Outcome W (Option Handler)) (warning : Option Event) : Prop where
  events_eq : ∃ details, (∀ e ∈ details, e.severity = .debug) ∧ made.events = details ++ warning.toList
  severity_eq : ∀ e ∈ warning, e.severity = .warn
  declined : warning.isSome → made.answer = none

namespace Outcome

theorem reports_pure (h : Option Handler) (w : W) : ((pure h : Run W (Option Handler)) w).Reports none where
  events_eq := ⟨[], fun _ he => absurd he List.not_mem_nil, rfl⟩
  severity_eq _ he := by cases he
  declined he := by cases he

theorem reports_warning {e : Event} (he : e.severity = .warn) (w : W) :
    ((do .log e; return none : Run W (Option Handler)) w).Reports (some e) where
  events_eq := ⟨[], fun _ hm => absurd hm List.not_mem_nil, rfl⟩
  severity_eq _ hm := Option.some.inj hm ▸ he
  declined _ := rfl

theorem Reports.bind {r : Run W α} {f : α → Run W (Option Handler)} {w : W} {warning : Option Event}
    (hr : ∀ e ∈ (r w).events, e.severity = .debug) (hf : (f (r w).answer (r w).world).Reports warning) :
    ((r >>= f) w).Reports warning := by
  obtain ⟨⟨details, hdetails, hevents⟩, hseverity, hdeclined⟩ := hf
  refine ⟨⟨(r w).events ++ details, ?_, ?_⟩, hseverity, hdeclined⟩
  · intro e he
    rcases List.mem_append.mp he with he | he
    · exact hr e he
    · exact hdetails e he
  · rw [Run.events_bind, hevents, List.append_assoc]

theorem Reports.filter_trace {made : Outcome W (Option Handler)} {warning : Option Event} (h : made.Reports warning) :
    made.events.filter (·.severity = .trace) = [] := by
  obtain ⟨details, hdetails, hevents⟩ := h.events_eq
  rw [hevents, List.filter_eq_nil_iff]
  intro e he
  rcases List.mem_append.mp he with he | he
  · simp [hdetails e he]
  · simp [h.severity_eq e (Option.mem_toList.mp he)]

theorem Reports.filter_warn {made : Outcome W (Option Handler)} {warning : Option Event} (h : made.Reports warning) :
    made.events.filter (·.severity = .warn) = warning.toList := by
  obtain ⟨details, hdetails, hevents⟩ := h.events_eq
  have hnone : details.filter (·.severity = .warn) = [] :=
    List.filter_eq_nil_iff.mpr fun e he => by simp [hdetails e he]
  have hall : warning.toList.filter (·.severity = .warn) = warning.toList :=
    List.filter_eq_self.mpr fun e he => by simp [h.severity_eq e (Option.mem_toList.mp he)]
  rw [hevents, List.filter_append, hnone, hall, List.nil_append]

end Outcome

section
variable (app : Application W) (u : Url) (w : W)

/-- The callback of an address on a page instance, with the id of the instance, if its interface is not registered. -/
def Application.stray? : Option (UInt32 × Callback) :=
  let token := (Token.ofQuery u.query).1
  (token.bind (·.locator.version)).bind fun v =>
    ((token.bind Token.callback?).filter fun c => (app.registry.resolve c.interface).isNone).map fun c => (v.id, c)

/-- Where a callback on an instance is addressed to. An address by class names its class, and it depends on the page
source whether there is one. -/
def RouteShape.site? (id : UInt32) : RouteShape → Option CallbackSite
  | .mount (.path _ cls) => some (.ofClass cls)
  | .mount (.home cls) => some (.ofClass cls)
  | .mount .byClass => (Mount.className? app.settings u).bind fun c => (app.pages.resolve c.1 w).answer.map .ofClass
  | .pageInstance => some (.ofInstance id)

/-- What a route warns of when it is asked for the handler of an address. -/
def RouteShape.warning (r : RouteShape) : Option Event :=
  if r.fits app.settings u then
    (app.stray? u).bind fun c => (r.site? app u w c.1).map (.unknownInterface c.2.interface)
  else none

end

section
variable {app : Application W} {u : Url} {w : W}

theorem Application.reports_resume {v : PageVersion} (cls : Option PageClass) (ps : Parameters)
    (hv : (Token.ofQuery u.query).1.bind (·.locator.version) = some v) :
    (app.resume cls ps v ((Token.ofQuery u.query).1.bind Token.callback?) w).Reports
      ((app.stray? u).map fun c => .unknownInterface c.2.interface ((cls.map .ofClass).getD (.ofInstance c.1))) := by
  rw [stray?, hv, Option.bind_some]
  cases hc : (Token.ofQuery u.query).1.bind Token.callback? with
  | none => exact Outcome.reports_pure _ w
  | some c =>
    rw [resume]
    cases hi : app.registry.resolve c.interface with
    | some i =>
      rw [Option.filter_some, hi]
      exact Outcome.reports_pure _ w
    | none =>
      rw [Option.filter_some, hi]
      exact Outcome.reports_warning rfl w

theorem PageAddress.reports_handler (cls : PageClass) (bound : List (Text × Text)) (rest : List Text) :
    ((Mount.address u cls bound rest).handler app w).Reports
      ((app.stray? u).map fun c => .unknownInterface c.2.interface (.ofClass cls)) := by
  change (PageAddress.handler ⟨(Token.ofQuery u.query).1, cls, _⟩ app w).Reports _
  rw [handler]
  cases hv : (Token.ofQuery u.query).1.bind (·.locator.version) with
  | none =>
    rw [Application.stray?, hv]
    exact Outcome.reports_pure _ w
  | some v => exact Application.reports_resume (some cls) _ hv

/-- Mounts that an address belongs to read a class from it. -/
theorem Route.reports_mounted {m : Mount} {cls : PageClass} {bound : List (Text × Text)} {rest : List Text}
    (hread : m.read app u = pure (some (Mount.address u cls bound rest))) :
    ((mounted app m).dispatch u w).Reports
      ((app.stray? u).map fun c => .unknownInterface c.2.interface (.ofClass cls)) := by
  rw [mounted_dispatch_of_read hread]
  exact PageAddress.reports_handler cls bound rest

theorem Application.reports_handlerOfClass (name : Text) (rest : List Text) (cls : Option PageClass) :
    (app.handlerOfClass u name rest cls w).Reports
      ((app.stray? u).bind fun c => (cls.map .ofClass).map (.unknownInterface c.2.interface)) := by
  cases cls with
  | none =>
    have hnone : ((app.stray? u).bind fun c =>
        (none.map CallbackSite.ofClass).map (Event.unknownInterface c.2.interface)) = none := by
      cases app.stray? u <;> rfl
    rw [hnone]
    refine Outcome.Reports.bind (fun e he => ?_) (Outcome.reports_pure none w)
    rw [List.mem_singleton.mp he]
    rfl
  | some cls => exact Option.map_eq_bind ▸ PageAddress.reports_handler cls [] rest

/-- Apart from its warning a route reports details. -/
theorem RouteShape.reports_dispatch (hpages : ∀ name w, ∀ e ∈ (app.pages.resolve name w).events, e.severity = .debug)
    (r : RouteShape) : ((r.toRoute app).dispatch u w).Reports (r.warning app u w) := by
  cases hf : r.fits app.settings u with
  | false =>
    rw [dispatch_of_not_fits hf, warning, if_neg (Bool.not_eq_true _ ▸ hf)]
    exact Outcome.reports_pure none w
  | true =>
    rw [warning, if_pos hf]
    match r with
    | .mount (.path p cls) =>
      obtain ⟨⟨bound, rest⟩, hr⟩ := Option.isSome_iff_exists.mp hf
      have hread : (Mount.path p cls).read app u = pure (some (Mount.address u cls bound rest)) := by
        rw [Mount.read, hr]
        rfl
      exact Option.map_eq_bind ▸ Route.reports_mounted hread
    | .mount (.home cls) =>
      have hread : (Mount.home cls).read app u = pure (some (Mount.address u cls [] [])) := congrArg pure (if_pos hf)
      exact Option.map_eq_bind ▸ Route.reports_mounted hread
    | .mount .byClass =>
      obtain ⟨⟨name, rest⟩, hc⟩ := Option.isSome_iff_exists.mp hf
      rw [toRoute, Route.mounted_byClass_dispatch hc]
      simp only [site?, hc, Option.bind_some]
      exact Outcome.Reports.bind (hpages name w) (Application.reports_handlerOfClass name rest _)
    | .pageInstance =>
      change (PageInstance.dispatch app u w).Reports _
      rw [PageInstance.dispatch_of_fits hf]
      cases hv : (Token.ofQuery u.query).1.bind (·.locator.version) with
      | none =>
        rw [Application.stray?, hv]
        exact Outcome.reports_pure none w
      | some v => exact Option.map_eq_bind ▸ Application.reports_resume none _ hv

end

namespace RouteTree
variable {f : α → Route W} {u : Url} {warning : α → W → Option Event}

/-- The way down to a leaf: at every chain the position and the score of the member to go to. -/
inductive Trail (f : α → Route W) (u : Url) : RouteTree α → List (Nat × Int) → α → Prop
  | leaf (a : α) : Trail f u (.leaf a) [] a
  | chain {ts : List (RouteTree α)} {i : Nat} {t : RouteTree α} {s : Int} {steps : List (Nat × Int)} {a : α}
      (hi : ts[i]? = some t) (hs : (t.toRoute f).score u = pure s) (ht : Trail f u t steps a) :
      Trail f u (.chain ts) ((i, s) :: steps) a

/-- What the events of a search for a handler say, given who was asked. -/
structure Logged (f : α → Route W) (u : Url) (warning : α → W → Option Event) (t : RouteTree α)
    (answer : Option Handler) (events : List Event) (asked : List (α × W)) : Prop where
  /-- The last one asked has answered, and the chains above it report so from the innermost to the outermost. -/
  mapped : ∀ h, answer = some h → ∃ earlier a w steps, asked = earlier ++ [(a, w)] ∧
    ((f a).dispatch u w).answer = some h ∧ Trail f u t steps a ∧
    events.filter (·.severity = .trace) = steps.reverse.map fun s => .requestMapped s.1 s.2 h.kind
  unmapped : answer = none → events.filter (·.severity = .trace) = []
  warned : events.filter (·.severity = .warn) = asked.filterMap fun q => warning q.1 q.2

namespace Logged
variable {t : RouteTree α} {ts : List (RouteTree α)} {events rest : List Event} {asked later : List (α × W)}

theorem leaf {a : α} {w : W} (h : ((f a).dispatch u w).Reports (warning a w)) :
    Logged f u warning (.leaf a) ((f a).dispatch u w).answer ((f a).dispatch u w).events [(a, w)] where
  mapped _ hh := ⟨[], a, w, [], rfl, hh, .leaf a, h.filter_trace⟩
  unmapped _ := h.filter_trace
  warned := by
    rw [h.filter_warn, List.filterMap_cons]
    cases warning a w <;> rfl

theorem nil : Logged f u warning (.chain ts) none [] [] where
  mapped _ hh := by cases hh
  unmapped _ := rfl
  warned := rfl

/-- A member that answers. -/
theorem found {i : Nat} {s : Int} {h : Handler} (hi : ts[i]? = some t) (hs : (t.toRoute f).score u = pure s)
    (hl : Logged f u warning t (some h) events asked) :
    Logged f u warning (.chain ts) (some h) (events ++ [.requestMapped i s h.kind]) asked where
  mapped h' hh := by
    cases hh
    obtain ⟨earlier, a, w, steps, rfl, ha, ht, htrace⟩ := hl.mapped h rfl
    refine ⟨earlier, a, w, (i, s) :: steps, rfl, ha, .chain hi hs ht, ?_⟩
    rw [List.filter_append, htrace, List.reverse_cons, List.map_append]
    rfl
  unmapped hh := by cases hh
  warned := by
    rw [List.filter_append, hl.warned]
    exact List.append_nil _

/-- A member that does not, and the search among those after it. -/
theorem skipped {answer : Option Handler} (hl : Logged f u warning t none events asked)
    (hr : Logged f u warning (.chain ts) answer rest later) :
    Logged f u warning (.chain ts) answer (events ++ rest) (asked ++ later) where
  mapped h hh := by
    obtain ⟨earlier, a, w, steps, rfl, ha, ht, htrace⟩ := hr.mapped h hh
    refine ⟨asked ++ earlier, a, w, steps, (List.append_assoc ..).symm, ha, ht, ?_⟩
    rw [List.filter_append, hl.unmapped rfl, htrace, List.nil_append]
  unmapped hh := by rw [List.filter_append, hl.unmapped rfl, hr.unmapped hh, List.nil_append]
  warned := by rw [List.filter_append, List.filterMap_append, hl.warned, hr.warned]

end Logged

/-- Searches beside a record that log who they ask. -/
def KeepsLog (f : α → Route W) (u : Url) (warning : α → W → Option Event) (t : RouteTree α)
    (run : Run (W × List (α × W)) (Option Handler)) : Prop :=
  ∀ s, ∃ asked, (run s).world.2 = s.2 ++ asked ∧ Logged f u warning t (run s).answer (run s).events asked

theorem keepsLog_candidates {ts : List (RouteTree α)} {cs : List (Candidate (W × List (α × W)))}
    (hcs : ∀ c ∈ cs, ∃ t, ts[c.index]? = some t ∧ (t.toRoute f).score u = pure c.score ∧
      KeepsLog f u warning t (c.route.dispatch u)) :
    KeepsLog f u warning (.chain ts) (Candidate.dispatch u cs) := by
  induction cs with
  | nil => exact fun s => ⟨[], (List.append_nil _).symm, .nil⟩
  | cons c cs ih =>
    obtain ⟨⟨t, hi, hs, ht⟩, hcs⟩ := List.forall_mem_cons.mp hcs
    intro s
    obtain ⟨asked, hasked, hl⟩ := ht s
    rw [Candidate.dispatch, Run.bind_answer, Run.bind_world, Run.events_bind]
    cases h : (c.route.dispatch u s).answer with
    | some h' =>
      rw [h] at hl
      exact ⟨asked, hasked, hl.found hi hs⟩
    | none =>
      rw [h] at hl
      obtain ⟨later, hlater, hr⟩ := ih hcs (c.route.dispatch u s).world
      refine ⟨asked ++ later, ?_, hl.skipped hr⟩
      rw [hlater, hasked, List.append_assoc]

theorem keepsLog_dispatch {g : α → Int} (hg : ∀ a, (f a).score u = pure (g a))
    {t : RouteTree α} (hf : ∀ a ∈ t.leaves, ∀ w, ((f a).dispatch u w).Reports (warning a w)) :
    KeepsLog f u warning t ((t.attended f).dispatch u) := by
  induction t with
  | leaf a => exact fun s => ⟨[(a, s.1)], rfl, .leaf (hf a List.mem_cons_self s.1)⟩
  | chain ts ih =>
    rw [leaves_chain] at hf
    rw [attended_chain, Route.chain_dispatch_map (score_attended_of_pure hg)]
    apply keepsLog_candidates
    intro c hc
    obtain ⟨⟨t, i⟩, hi, rfl⟩ := List.mem_map.mp (Candidate.mem_ranked.mp hc)
    have ht := List.fst_mem_of_mem_zipIdx hi
    have hlog := ih t ht fun a ha => hf a (List.mem_flatMap.mpr ⟨t, ht, ha⟩)
    exact ⟨t, List.mk_mem_zipIdx_iff_getElem?.mp hi, toRoute_score hg t, hlog⟩

/-- What is reported about the handler of an address is what has happened. If there is one, every chain above the leaf
that answered has reported it, from the innermost to the outermost, with the position and the score of the member
that leads to the leaf and with the kind of the handler; else none has. Of the leaves that were asked, those have
warned that the address belongs to, if it holds a callback on a page instance and their application does not know
the interface. They have done so once each, of that interface and in the order in which they were asked, and have
declined. The leaves are of any kind, so that equal routes in different places can be told apart. -/
theorem dispatch_log (app : α → Application W) (shape : α → RouteShape) (t : RouteTree α)
    (hpages : ∀ a ∈ t.leaves, ∀ name w, ∀ e ∈ ((app a).pages.resolve name w).events, e.severity = .debug)
    (u : Url) (w : W) :
    let route a := (shape a).toRoute (app a)
    let warning a v := (shape a).warning (app a) u v
    let made := (t.toRoute route).dispatch u w
    (∃ asked, t.Visits route u w asked ∧ Logged route u warning t made.answer made.events asked) ∧
    ∀ a ∈ t.leaves, ∀ v,
      let own := (route a).dispatch u v
      own.events.filter (·.severity = .warn) = (warning a v).toList ∧ ((warning a v).isSome → own.answer = none) := by
  intro route warning made
  have hreports : ∀ a ∈ t.leaves, ∀ v, ((route a).dispatch u v).Reports (warning a v) :=
    fun a ha v => RouteShape.reports_dispatch (hpages a ha) (shape a)
  refine ⟨?_, fun a ha v => ⟨(hreports a ha v).filter_warn, (hreports a ha v).declined⟩⟩
  have hkeeps : KeepsLog route u warning t ((t.attended route).dispatch u) :=
    keepsLog_dispatch (fun a => (shape a).toRoute_score (app a) u) hreports
  obtain ⟨asked, hasked, hl⟩ := hkeeps (w, [])
  have hvisits := visits route u t w
  rw [hasked, List.nil_append] at hvisits
  have hrun : (t.attended route).dispatch u (w, []) = ⟨made.answer, made.notes, made.world, asked⟩ := hvisits
  rw [hrun] at hl
  exact ⟨asked, hvisits, hl⟩

/-- An application that knows one interface more. -/
def dragging : Application PageStore :=
  ⟨{}, (Registry.builtins.register ⟨"IDragListener".toList, false⟩).2, PageStore.source⟩

/-- The page instances of two applications. -/
def instances : RouteTree (Application PageStore × RouteShape) :=
  .chain [.leaf (.sample, .pageInstance), .leaf (dragging, .pageInstance)]

/-- Page instances beside pages by class. -/
def mixed : RouteTree (Application PageStore × RouteShape) := .chain [.leaf (.sample, .mount .byClass), instances]

def dragUrl : Url := ⟨["wicket".toList, "page".toList], [.flag "4.5-IDragListener-a-b".toList]⟩

theorem dispatch_log_mixed :
    (∀ a ∈ mixed.leaves, ∀ name w, ∀ e ∈ (a.1.pages.resolve name w).events, e.severity = .debug) ∧
      let route a := a.2.toRoute a.1
      let made := (mixed.toRoute route).dispatch dragUrl .sample
      made.events.filter (·.severity = .warn) = [.unknownInterface "IDragListener".toList (.ofInstance 4)] ∧
      ∃ steps, Trail route dragUrl mixed steps (dragging, .pageInstance) ∧
        made.events.filter (·.severity = .trace) = steps.reverse.map fun s => .requestMapped s.1 s.2 .listener := by
  have hpages : ∀ a ∈ mixed.leaves, ∀ name w, ∀ e ∈ (a.1.pages.resolve name w).events, e.severity = .debug := by
    have hsource : ∀ a ∈ mixed.leaves, a.1.pages = PageStore.source :=
      List.forall_mem_cons.mpr ⟨rfl, List.forall_mem_cons.mpr ⟨rfl, List.forall_mem_singleton.mpr rfl⟩⟩
    intro a ha name w e he
    rw [hsource a ha] at he
    exact absurd he List.not_mem_nil
  let route (a : Application PageStore × RouteShape) : Route PageStore := a.2.toRoute a.1
  have hscore (a : Application PageStore × RouteShape) :
      (route a).score dragUrl = pure (a.2.score a.1.settings dragUrl) := RouteShape.toRoute_score a.1 dragUrl a.2
  let warning : Event := .unknownInterface "IDragListener".toList (.ofInstance 4)
  let step : Event := .requestMapped 1 2 .listener
  obtain ⟨call, hinner⟩ : ∃ call, ∀ s, (instances.attended route).dispatch dragUrl s =
      ⟨some (.listener call), [.event warning, .event step],
        (s.1, s.2 ++ [((.sample, .pageInstance), s.1)] ++ [((dragging, .pageInstance), s.1)])⟩ := by
    rw [instances, attended_chain, Route.chain_dispatch_map (score_attended_of_pure hscore)]
    change ∃ call, ∀ s, Candidate.dispatch dragUrl
      (Candidate.ranked [⟨2, 0, attended route _⟩, ⟨2, 1, attended route _⟩]) s = _
    rw [Candidate.ranked, List.mergeSort_of_pairwise (by simp)]
    exact ⟨_, fun _ => rfl⟩
  have hmixed : (mixed.attended route).dispatch dragUrl (.sample, []) =
      ⟨some (.listener call), [.event warning, .event step, .event step],
        (.sample, [((.sample, .pageInstance), .sample), ((dragging, .pageInstance), .sample)])⟩ := by
    have horder (byClass : Route (PageStore × _)) :
        Candidate.ranked [⟨0, 0, byClass⟩, ⟨2, 1, instances.attended route⟩] =
          [⟨2, 1, instances.attended route⟩, ⟨0, 0, byClass⟩] := by
      simp [Candidate.ranked, List.mergeSort]
    rw [mixed, attended_chain, Route.chain_dispatch_map (score_attended_of_pure hscore)]
    change Candidate.dispatch dragUrl
      (Candidate.ranked [⟨0, 0, attended route _⟩, ⟨2, 1, instances.attended route⟩]) _ = _
    rw [horder, Candidate.dispatch, Run.bind_apply, hinner]
    rfl
  obtain ⟨⟨asked, hvisits, hl⟩, -⟩ := dispatch_log Prod.fst Prod.snd mixed hpages dragUrl .sample
  have hmade := hvisits.symm.trans hmixed
  injection hmade with hanswer hnotes hworld
  injection hworld with hworld hasked
  obtain ⟨earlier, a, v, steps, hsplit, -, htrail, htrace⟩ := hl.mapped _ hanswer
  have ha : (dragging, RouteShape.pageInstance) = a := by
    rw [hasked] at hsplit
    simpa using congrArg (fun l => l.getLast?.map Prod.fst) hsplit
  refine ⟨hpages, ?_, steps, ha ▸ htrail, htrace⟩
  rw [hl.warned, hasked]
  rfl

end RouteTree
end PageRouting
