import PageRouting.Proofs.Route.Mounted

/-! Addresses that a mount reads are written again. The address so written is read as the first one was,
with the same token and class and with all parameters in their order. -/
namespace PageRouting

namespace Mount
variable {W : Type} {app : Application W} {m : Mount} {w w' : W} {a : PageAddress} {r : Url}

/-- A mount by class needs a page source that knows classes by their own names and, later on, still
knows those that it knew. -/
def NamesClasses (m : Mount) (app : Application W) (w w' : W) : Prop :=
  m = .byClass → app.settings.rootSegment ≠ [] ∧ ∀ name cls,
    (app.pages.resolve name w).answer = some cls →
      cls.name = name ∧ (app.pages.resolve name w').answer = some cls

theorem address_eq (u : Url) (cls : PageClass) (bound : List (Text × Text)) (tail : List Text) :
    address u cls bound tail =
      ⟨(Token.ofQuery u.query).1, cls,
        .gather bound (Token.ofQuery u.query).2 (tail.filter (!·.isEmpty))⟩ := rfl

/-- What the addresses that are read have in common. -/
structure Readable (a : PageAddress) : Prop where
  token : ∀ t ∈ a.token, t.isEmpty = false ∧ t.Callable
  named : a.parameters.named.WellFormed
  indexed : a.parameters.indexed.filter (!·.isEmpty) = a.parameters.indexed

theorem readable_address (u : Url) (cls : PageClass) (bound : List (Text × Text)) (tail : List Text) :
    Readable (address u cls bound tail) := by
  obtain ⟨ht, -, hi⟩ := Token.of_ofQuery u.query
  refine ⟨ht, Parameters.wellFormed_gather _ _ _, ?_⟩
  rw [address_eq, Parameters.indexed_gather _ hi, List.filter_filter]
  exact List.filter_congr fun _ _ => Bool.and_self _

namespace Readable

theorem flag_nil_not_mem (ha : Readable a) (p : Parameters) : QueryEntry.flag [] ∉ Token.toQuery a.token p :=
  Token.flag_nil_not_mem_toQuery (fun t ht => (ha.token t ht).2) p

/-- An address is read again from its token, from the values for the names in its path and from the rest,
if these make up its parameters. -/
theorem address_toQuery (ha : Readable a) {bound : List (Text × Text)} {rest : Parameters}
    (hb : (bound.map Prod.fst).Nodup) (hrest : rest.named.WellFormed)
    (hn : a.parameters.names = bound.map Prod.fst ++ rest.names.filter (· ∉ bound.map Prod.fst))
    (hv : ∀ n, a.parameters.values n = NamedValues.valuesIn bound n ++ rest.values n)
    (segments : List Text) :
    address ⟨segments, Token.toQuery a.token rest⟩ a.cls bound a.parameters.indexed = a := by
  rw [address_eq, Token.ofQuery_toQuery (fun t ht => (ha.token t ht).2) hrest,
    Token.filter_not_isEmpty fun t ht => (ha.token t ht).1, ha.indexed]
  exact congrArg (PageAddress.mk a.token a.cls) (Parameters.gather_eq hb ha.named hrest hn hv)

/-- Without names in the path all parameters are the rest. -/
theorem address_toQuery_self (ha : Readable a) (segments : List Text) :
    address ⟨segments, Token.toQuery a.token a.parameters⟩ a.cls [] a.parameters.indexed = a :=
  have hb : (([] : List (Text × Text)).map Prod.fst).Nodup := List.nodup_nil
  have hn : a.parameters.names = [] ++ a.parameters.names.filter (· ∉ []) :=
    (List.filter_eq_self.mpr fun _ _ => rfl).symm
  ha.address_toQuery hb ha.named hn (fun _ => rfl) segments

end Readable

/-- An address that is written, has a text of its own and is read again as it was. -/
def Rebuilds (m : Mount) (app : Application W) (w : W) (a : PageAddress) : Prop :=
  ∃ u, m.write app.settings a = .ok u ∧ u.Legible ∧ (m.read app u w).answer = some a

theorem path_rebuilds {mp : MountPath} {cls : PageClass}
    (h : ((Mount.path mp cls).read app r w).answer = some a) :
    (Mount.path mp cls).Rebuilds app w' a := by
  obtain ⟨⟨bound, tail⟩, hread, ha⟩ := Option.map_eq_some_iff.mp h
  have hreadable : Readable a := ha ▸ readable_address r cls bound tail
  have hcls : a.cls = cls := (congrArg PageAddress.cls ha).symm
  have hparameters : a.parameters = .gather bound (Token.ofQuery r.query).2 (tail.filter (!·.isEmpty)) :=
    (congrArg PageAddress.parameters ha).symm
  obtain ⟨-, hq, -⟩ := Token.of_ofQuery r.query
  have hnodup : (bound.map Prod.fst).Nodup := MountSegment.names_of_read? hread ▸ mp.nodup_placeholders
  have hn : a.parameters.names =
      bound.map Prod.fst ++ (Token.ofQuery r.query).2.names.filter (· ∉ bound.map Prod.fst) := by
    rw [hparameters, Parameters.names_gather hnodup hq]
  have hfirst : ∀ e ∈ bound, (a.parameters.values e.1).head? = some e.2 := by
    intro e he
    rw [hparameters, Parameters.values_gather bound hq, NamedValues.valuesIn_of_nodup hnodup he]
    rfl
  obtain ⟨front, rest, bound', hf, hread', hnodup', hn', hvalues⟩ :=
    MountSegment.exists_refilled hread mp.nodup_placeholders hfirst hn
  have haddress := hreadable.address_toQuery hnodup' (hf.wellFormed hreadable.named) hn' hvalues
    (front ++ rest.indexed)
  obtain ⟨s, path, rfl, hs⟩ := hf.exists_cons mp.segments_ne_nil mp.literal_nil_not_mem
  refine ⟨⟨s :: path ++ rest.indexed, Token.toQuery a.token rest⟩, ?_, ?_, ?_⟩
  · rw [write, hf.fill]
  · exact ⟨fun hc => hs (List.cons.inj hc).1, hreadable.flag_nil_not_mem rest⟩
  · rw [hf.indexed, hcls] at haddress
    rw [read, List.cons_append, Url.path_cons hs, ← List.cons_append, hf.indexed, hread']
    exact congrArg some haddress

theorem home_rebuilds {cls : PageClass} (h : ((Mount.home cls).read app r w).answer = some a) :
    (Mount.home cls).Rebuilds app w' a := by
  rw [read] at h
  split at h
  · cases h
    have hreadable := readable_address r cls [] []
    have hindexed : (address r cls [] []).parameters.indexed = [] :=
      Parameters.indexed_gather [] (Token.of_ofQuery r.query).2.2 []
    have haddress := hreadable.address_toQuery_self []
    rw [hindexed] at haddress
    refine ⟨⟨[], Token.toQuery (address r cls [] []).token (address r cls [] []).parameters⟩, ?_,
      ⟨(List.cons_ne_nil _ _).symm, hreadable.flag_nil_not_mem _⟩, congrArg some haddress⟩
    rw [write, hindexed]
    rfl
  · cases h

theorem byClass_rebuilds (hm : byClass.NamesClasses app w w') (h : (byClass.read app r w).answer = some a) :
    byClass.Rebuilds app w' a := by
  obtain ⟨hr, hknown⟩ := hm rfl
  obtain ⟨name, tail, cls, hc, hres, rfl⟩ := read_byClass_answer_eq_some_iff.mp h
  obtain ⟨hn, -⟩ := className?_eq_some_iff.mp hc
  obtain ⟨rfl, hres'⟩ := hknown name cls hres
  have hreadable := readable_address r cls [] tail
  refine ⟨_, rfl, ⟨fun he => List.cons_ne_nil _ _ (List.cons.inj he).2, hreadable.flag_nil_not_mem _⟩, ?_⟩
  exact read_byClass_answer_eq_some_iff.mpr
    ⟨_, _, cls, className?_byClass hr hn _ _, hres', (hreadable.address_toQuery_self _).symm⟩

/-- Every address that a mount reads is written again, and the written one is read as the same: the
token, the class, the positional values, and the named values with their order. -/
theorem read_rebuilds (hm : m.NamesClasses app w w') (h : (m.read app r w).answer = some a) :
    ∃ u, m.write app.settings a = .ok u ∧ Url.parse u.render = u ∧
      (m.read app (Url.parse u.render) w').answer = some a := by
  have hrebuilds : m.Rebuilds app w' a := by
    cases m with
    | path mp cls => exact path_rebuilds h
    | home cls => exact home_rebuilds h
    | byClass => exact byClass_rebuilds hm h
  obtain ⟨u, hw, hu, hread⟩ := hrebuilds
  have hparse : Url.parse u.render = u := (Url.parse_render_eq_self_iff u).mpr hu
  exact ⟨u, hw, hparse, hparse.symm ▸ hread⟩

/-- A placeholder between literals. -/
def usersPath : MountPath where
  text := "/users/\x7bid\x7d/profile".toList
  segments := [.literal "users".toList, .placeholder "id".toList, .literal "profile".toList]
  spelled := rfl

/-- The values of `id` are that of the path and then those of the query. -/
def usersAddress : PageAddress where
  token := some (.page ⟨none, some ⟨4, 5⟩⟩)
  cls := ⟨"Users".toList⟩
  parameters := ⟨["x".toList], [("id".toList, ["7".toList, "8".toList, "9".toList]), ("q".toList, ["1".toList])]⟩

/-- What stands before the query parameters is not a token, and so is one of them. -/
def shopAddress : PageAddress where
  token := none
  cls := ⟨"Shop".toList⟩
  parameters :=
    ⟨["x".toList], [("4-5".toList, [[]]), ("q".toList, ["1".toList, [], "2".toList])]⟩

theorem read_rebuilds_sample :
    (∃ u, (Mount.path usersPath usersAddress.cls).write Application.sample.settings usersAddress = .ok u ∧
      u.render = "users/7/profile/x?4.5&id=8&id=9&q=1".toList ∧
      ((Mount.path usersPath usersAddress.cls).read .sample (Url.parse u.render) PageStore.sample).answer =
        some usersAddress) ∧
    byClass.NamesClasses .sample PageStore.sample PageStore.sample ∧
    ∃ u, byClass.write Application.sample.settings shopAddress = .ok u ∧
      (byClass.read .sample (Url.parse u.render) PageStore.sample).answer = some shopAddress := by
  have hpath : (Mount.path usersPath usersAddress.cls).NamesClasses .sample PageStore.sample PageStore.sample :=
    fun h => (by cases h)
  have hclass : byClass.NamesClasses .sample PageStore.sample PageStore.sample := by
    refine fun _ => ⟨by decide, fun name cls h => ⟨?_, h⟩⟩
    change (if name ∈ _ then _ else _) = _ at h
    split at h
    · cases h; rfl
    · cases h
  obtain ⟨u, hu, -, hread⟩ := read_rebuilds
    (r := Url.parse "/users/7/profile//x?4.5&q=1&id=8&id=9".toList) hpath rfl
  obtain ⟨v, hv, -, hread'⟩ := read_rebuilds
    (r := Url.parse "/wicket/bookmarkable/Shop//x?4-5&q=1&q&q=2".toList) hclass rfl
  refine ⟨⟨u, hu, ?_, hread⟩, hclass, v, hv, hread'⟩
  cases hu
  rfl

end Mount
end PageRouting
