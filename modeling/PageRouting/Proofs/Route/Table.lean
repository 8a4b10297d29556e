import PageRouting.Proofs.Mount.Rebuild
import PageRouting.Proofs.Route.Chain
import PageRouting.Proofs.Route.PageInstance
import PageRouting.Route.Table

/-! Routing tables. If the routes of a table do not overlap, an address leads back to the route that wrote
it. Addresses of page instances do so among mounts of nearly any kind. -/
namespace PageRouting

variable {W : Type} {app : Application W} {s : Settings} {u : Url} {w : W}

/-- What the routes of a table are for. -/
inductive RouteKind
  | path
  | home
  | byClass
  | pageInstance
  deriving DecidableEq, Repr

namespace RouteShape
variable {r r' : RouteShape}

def kind : RouteShape → RouteKind
  | .mount (.path _ _) => .path
  | .mount (.home _) => .home
  | .mount .byClass => .byClass
  | .pageInstance => .pageInstance

def path? : RouteShape → Option MountPath
  | .mount (.path p _) => some p
  | _ => none

/-- Routes that have no address in common. -/
def Apart (r r' : RouteShape) : Prop := r.kind ≠ r'.kind ∨ ∃ p ∈ r.path?, ∃ q ∈ r'.path?, p.Apart q

instance (r r' : RouteShape) : Decidable (r.Apart r') :=
  inferInstanceAs (Decidable (r.kind ≠ r'.kind ∨ ∃ p ∈ r.path?, ∃ q ∈ r'.path?, p.Apart q))

/-- Whether a path, if a route has one, starts with a literal that is not reserved. -/
def Unreserved (s : Settings) (r : RouteShape) : Prop :=
  ∀ p ∈ r.path?, ∃ text ∈ p.firstLiteral?, text ≠ s.rootSegment

instance (s : Settings) (r : RouteShape) : Decidable (r.Unreserved s) :=
  inferInstanceAs (Decidable (∀ p ∈ r.path?, ∃ text ∈ p.firstLiteral?, text ≠ s.rootSegment))

/-- Whether an address belongs to a route. -/
def fits (s : Settings) (u : Url) : RouteShape → Bool
  | .mount (.path p _) => (MountSegment.read? p.segments u.path).isSome
  | .mount (.home _) => Mount.isRoot u
  | .mount .byClass => (Mount.className? s u).isSome
  | .pageInstance => PageInstance.fits s u

theorem read?_of_fits {p : MountPath} (hp : p ∈ r.path?) (h : r.fits s u) :
    (MountSegment.read? p.segments u.path).isSome := by
  match r with
  | .mount (.path p _) =>
    cases hp
    exact h
  | .mount (.home _) => cases hp
  | .mount .byClass => cases hp
  | .pageInstance => cases hp

/-- The score of an address that belongs to a route. -/
def weight : RouteShape → Nat
  | .mount (.path p _) => min p.literalCount maxScore
  | .mount (.home _) => 1
  | .mount .byClass => 1
  | .pageInstance => 2

def score (s : Settings) (u : Url) (r : RouteShape) : Int := if r.fits s u then r.weight else 0

theorem toRoute_score (app : Application W) (u : Url) (r : RouteShape) :
    (r.toRoute app).score u = pure (r.score app.settings u) := by
  match r with
  | .mount (.path p cls) => rfl
  | .mount (.home cls) => rfl
  | .mount .byClass => rfl
  | .pageInstance => rfl

theorem score_of_fits (h : r.fits s u) : r.score s u = r.weight := if_pos h

theorem score_of_not_fits (h : r.fits s u = false) : r.score s u = 0 := if_neg (Bool.not_eq_true _ ▸ h)

theorem weight_pos (hr : r.Unreserved s) : 0 < r.weight := by
  match r with
  | .mount (.path p _) =>
    obtain ⟨text, ht, -⟩ := hr p rfl
    exact Nat.lt_min.mpr ⟨MountPath.literalCount_pos_of_firstLiteral? ht, by decide⟩
  | .mount (.home _) => exact Nat.one_pos
  | .mount .byClass => exact Nat.one_pos
  | .pageInstance => exact Nat.two_pos

/-- An address of two segments scores no more than one, but for page instances and for a mount at these very
segments. -/
theorem score_le_one {a b : Text} (hu : u.path = [a, b]) (hr : r ≠ .pageInstance)
    (hfree : ∀ p ∈ r.path?, p.segments ≠ [.literal a, .literal b]) : r.score s u ≤ 1 := by
  cases hf : r.fits s u with
  | false =>
    rw [score_of_not_fits hf]
    decide
  | true =>
    rw [score_of_fits hf]
    match r with
    | .mount (.path p _) =>
      have hcount : p.literalCount < 2 := by
        rw [← Nat.not_le]
        intro hc
        have hsegments := MountSegment.eq_map_literal_of_read? hf (hu ▸ hc)
        rw [hu] at hsegments
        exact hfree p rfl hsegments
      exact Int.ofNat_le.mpr (Nat.le_trans (Nat.min_le_left _ _) (Nat.le_of_lt_succ hcount))
    | .mount (.home _) => exact Int.le_refl _
    | .mount .byClass => exact Int.le_refl _
    | .pageInstance => exact absurd rfl hr

/-- A route leaves addresses of others alone. -/
theorem dispatch_of_not_fits (h : r.fits app.settings u = false) : (r.toRoute app).dispatch u = pure none := by
  have hmounted {m : Mount} (hread : m.read app u = pure none) :
      (Route.mounted app m).dispatch u = pure none := Route.mounted_dispatch_of_read hread
  match r with
  | .mount (.path p cls) =>
    apply hmounted
    rw [Mount.read, Option.isNone_iff_eq_none.mp (Option.isSome_eq_false_iff.mp h)]
    rfl
  | .mount (.home cls) => exact hmounted (congrArg pure (if_neg (Bool.not_eq_true _ ▸ h)))
  | .mount .byClass =>
    apply hmounted
    rw [Mount.read, Option.isNone_iff_eq_none.mp (Option.isSome_eq_false_iff.mp h)]
  | .pageInstance => exact if_neg (Bool.not_eq_true _ ▸ h)

theorem fits_of_dispatch {h : Handler} (hd : ((r.toRoute app).dispatch u w).answer = some h) :
    r.fits app.settings u := by
  by_contra hn
  rw [dispatch_of_not_fits (Bool.eq_false_iff.mpr hn)] at hd
  cases hd

/-- For which kind of route an address is. -/
def kindOf (s : Settings) (u : Url) : RouteKind :=
  if Mount.isRoot u then .home
  else if [s.rootSegment, s.classSegment].isPrefixOf u.path then .byClass
  else if [s.rootSegment, s.pageSegment].isPrefixOf u.path then .pageInstance
  else .path

theorem kindOf_of_fits (hs : s.validate = .ok ()) (hr : r.Unreserved s) (h : r.fits s u) :
    kindOf s u = r.kind := by
  obtain ⟨hroot, hpage, hclass, hne, -⟩ := Settings.validate_eq_ok_iff.mp hs
  have hroot := Settings.ne_nil_of_isSegment hroot
  have hopen {first : Text} {rest : List Text} (hp : u.path = first :: rest) (hf : first ≠ []) :
      Mount.isRoot u = false := by
    rw [Mount.isRoot, hp, List.all_cons, List.isEmpty_eq_false_iff.mpr hf, Bool.false_and]
  match r with
  | .mount (.path p _) =>
    obtain ⟨text, ht, hne⟩ := hr p rfl
    obtain ⟨rest, hp⟩ := List.head?_eq_some_iff.mp (MountPath.head?_of_firstLiteral? ht h)
    rw [kindOf, hopen hp (MountPath.ne_nil_of_firstLiteral? ht), hp]
    simp [hne.symm, kind]
  | .mount (.home _) => exact if_pos h
  | .mount .byClass =>
    obtain ⟨⟨name, rest⟩, hc⟩ := Option.isSome_iff_exists.mp h
    obtain ⟨-, hp⟩ := Mount.className?_eq_some_iff.mp hc
    rw [kindOf, hopen hp hroot, hp]
    simp [kind]
  | .pageInstance =>
    obtain ⟨rest, hp⟩ := List.isPrefixOf_iff_prefix.mp h
    rw [kindOf, hopen hp.symm hroot, ← hp]
    simp [kind, hne.symm]

theorem Apart.not_both (h : r.Apart r') (hs : s.validate = .ok ()) (hr : r.Unreserved s)
    (hr' : r'.Unreserved s) (hf : r.fits s u) (hf' : r'.fits s u) : False := by
  rcases h with hkind | ⟨p, hp, q, hq, hpq⟩
  · exact hkind ((kindOf_of_fits hs hr hf).symm.trans (kindOf_of_fits hs hr' hf'))
  · exact hpq.not_both (read?_of_fits hp hf) (read?_of_fits hq hf')

/-- An address that a route writes leads to a handler of the route. -/
theorem dispatch_of_link (hv : app.Valid) {h : Handler} (hp : h.parameters.Reachable) {w' : W}
    (hm : r = .mount .byClass → ∀ cls ∈ h.class? app.pages w,
      cls.name ≠ [] ∧ (app.pages.resolve cls.name w').answer = some cls)
    (hl : ((r.toRoute app).link h w).answer = some u) :
    ∃ h', ((r.toRoute app).dispatch (Url.parse u.render) w').answer = some h' := by
  cases r with
  | mount m =>
    obtain ⟨a, ha, hc, hw⟩ := Route.mounted_link hl
    have hwf : a.parameters.named.WellFormed := ha.parameters ▸ hp.wellFormed
    have hreaches : m.Reaches app a.cls w' := fun hbyClass => hm (congrArg _ hbyClass) _ ha.class?_eq
    obtain ⟨hu, ps, -, hread⟩ := Mount.recovers (ha.callable hv.registry) hwf hv hc hreaches hw
    obtain ⟨h', hh, -, -⟩ := ha.leadsTo ps (m.read app u w').world
    refine ⟨h', ?_⟩
    rw [(Url.parse_render_eq_self_iff u).mpr hu, toRoute, Route.mounted]
    dsimp only
    rw [Run.bind_answer, hread]
    exact hh
  | pageInstance =>
    obtain ⟨p, hc, rfl⟩ := Route.pageInstance_link_eq_some_iff.mp hl
    refine ⟨h.resumedAt p, ?_⟩
    rw [hc.parse_render_write hv]
    change (PageInstance.dispatch app _ w').answer = _
    rw [hc.dispatch_write hv]
    rfl

end RouteShape

namespace RoutingTable
variable {t : RoutingTable} {h : Handler}

/-- Tables of routes that keep to addresses of their own. -/
structure NonOverlapping (s : Settings) (t : RoutingTable) : Prop where
  unreserved : ∀ r ∈ t.leaves, r.Unreserved s
  apart : t.leaves.Pairwise RouteShape.Apart

instance (s : Settings) (t : RoutingTable) : Decidable (NonOverlapping s t) :=
  decidable_of_iff ((∀ r ∈ t.leaves, r.Unreserved s) ∧ t.leaves.Pairwise RouteShape.Apart)
    ⟨fun ⟨hr, ha⟩ => ⟨hr, ha⟩, fun ⟨hr, ha⟩ => ⟨hr, ha⟩⟩

theorem NonOverlapping.not_fits (hn : NonOverlapping s t) (hs : s.validate = .ok ()) {before after : List RouteShape}
    {r : RouteShape} (hleaves : t.leaves = before ++ r :: after) (hr : r.fits s u) :
    ∀ r' ∈ before ++ after, r'.fits s u = false := by
  obtain ⟨hunreserved, hapart⟩ := hn
  rw [hleaves] at hunreserved hapart
  obtain ⟨-, hafter, hbefore⟩ := List.pairwise_append.mp hapart
  have hur := hunreserved r (List.mem_append_right _ List.mem_cons_self)
  intro r' hr'
  rw [Bool.eq_false_iff]
  intro hf
  rcases List.mem_append.mp hr' with hm | hm
  · have hur' := hunreserved r' (List.mem_append_left _ hm)
    exact (hbefore r' hm r List.mem_cons_self).not_both hs hur' hur hf hr
  · have hur' := hunreserved r' (List.mem_append_right _ (List.mem_cons_of_mem _ hm))
    exact (List.rel_of_pairwise_cons hafter hm).not_both hs hur hur' hr hf

/-- An address that comes from a table without overlaps is left alone by all routes but the one that wrote
it, and the table answers what that one answers. -/
theorem nonOverlapping_round_trip (hv : app.Valid) (hn : NonOverlapping app.settings t)
    (hp : h.parameters.Reachable) (hl : ((t.toRoute (·.toRoute app)).link h w).answer = some u) :
    ∃ before r after asked, t.leaves = before ++ r :: after ∧
      (Route.chain (before.map (·.toRoute app))).link h w = asked ∧ asked.answer = none ∧
      ((r.toRoute app).link h asked.world).answer = some u ∧
      ∀ w', (r = .mount .byClass → ∀ cls ∈ h.class? app.pages asked.world,
          cls.name ≠ [] ∧ (app.pages.resolve cls.name w').answer = some cls) →
        (∀ r' ∈ before ++ after, (r'.toRoute app).dispatch (Url.parse u.render) = pure none) ∧
        ∃ h', ((r.toRoute app).dispatch (Url.parse u.render) w').answer = some h' ∧
          ((t.toRoute (·.toRoute app)).dispatch (Url.parse u.render) w').answer = some h' := by
  obtain ⟨before, r, after, asked, hleaves, hasked, hb, hr⟩ := RouteTree.link_eq_some_iff.mp hl
  refine ⟨before, r, after, asked, hleaves, hasked, hb, hr, fun w' hm => ?_⟩
  obtain ⟨h', hh⟩ := RouteShape.dispatch_of_link hv hp hm hr
  have hfits := RouteShape.fits_of_dispatch hh
  have hothers := hn.not_fits hv.settings hleaves hfits
  refine ⟨fun r' hr' => RouteShape.dispatch_of_not_fits (hothers r' hr'), h', hh, ?_⟩
  have hmem : r ∈ t.leaves := hleaves ▸ List.mem_append_right _ List.mem_cons_self
  -- the others score zero, so that however the chains are nested, each asks its way down to `r` first
  have hcases : ∀ r' ∈ t.leaves, r' = r ∨ r'.score app.settings (Url.parse u.render) = 0 := by
    intro r' hr'
    rw [hleaves, List.mem_append, List.mem_cons, or_left_comm, ← List.mem_append] at hr'
    exact hr'.imp_right fun hr' => RouteShape.score_of_not_fits (hothers r' hr')
  have hpos : 0 < r.score app.settings (Url.parse u.render) := by
    rw [RouteShape.score_of_fits hfits]
    exact Int.natCast_pos.mpr (RouteShape.weight_pos (hn.unreserved r hmem))
  refine RouteTree.dispatch_of_best (RouteShape.toRoute_score app _) hmem hpos ?_ ?_
  · intro r' hr'
    rcases hcases r' hr' with rfl | hz
    · exact Int.le_refl _
    · exact hz ▸ Int.le_of_lt hpos
  · intro r' hr' hs
    rcases hcases r' hr' with rfl | hz
    · exact hh
    · exact absurd (hz.symm.trans hs) (Int.ne_of_lt hpos)

/-- One route of every kind. -/
def sample : RoutingTable :=
  .chain [.leaf (.mount (.home ⟨"Home".toList⟩)),
    .chain [.leaf (.mount (.path Mount.usersPath ⟨"Users".toList⟩)), .leaf .pageInstance],
    .leaf (.mount .byClass)]

/-- A new page, with the parameters of a sample callback. -/
def newShop : Handler := .bookmarkablePage ⟨"Shop".toList⟩ Invocation.sample.page.parameters

def newShopUrl : Url := { Url.sample with query := [.pair "q".toList "x=y".toList] }

theorem nonOverlapping_sample :
    NonOverlapping Application.sample.settings sample ∧
      ((sample.toRoute (·.toRoute .sample)).link newShop PageStore.sample).answer = some newShopUrl ∧
      ∃ h', ((sample.toRoute (·.toRoute .sample)).dispatch (Url.parse newShopUrl.render) PageStore.sample).answer =
        some h' := by
  have hv : Application.sample.Valid := ⟨by decide, .builtins⟩
  have hn : NonOverlapping Application.sample.settings sample := by decide
  have hp : newShop.parameters.Reachable := ((Parameters.Reachable.empty.push _).push _).add _ _
  have hl : ((sample.toRoute (·.toRoute .sample)).link newShop PageStore.sample).answer = some newShopUrl := by rfl
  obtain ⟨_, r, _, asked, -, -, -, -, hround⟩ := nonOverlapping_round_trip hv hn hp hl
  have hknown : r = .mount .byClass → ∀ cls ∈ newShop.class? PageStore.source asked.world,
      cls.name ≠ [] ∧ (PageStore.source.resolve cls.name PageStore.sample).answer = some cls := by
    rintro - _ ⟨⟩
    exact ⟨by decide, rfl⟩
  obtain ⟨-, h', -, hdispatch⟩ := hround PageStore.sample hknown
  exact ⟨hn, hl, h', hdispatch⟩

/-- The address of a page instance leads to it, whichever routes there are besides, as long as none is
mounted at the very same path. -/
theorem dispatch_pageInstance (hv : app.Valid) (hmem : .pageInstance ∈ t.leaves)
    (hfree : ∀ r ∈ t.leaves, ∀ p ∈ r.path?,
      p.segments ≠ [.literal app.settings.rootSegment, .literal app.settings.pageSegment])
    (hl : ((Route.pageInstance app).link h w).answer = some u) (w' : W) :
    ∃ h', ((Route.pageInstance app).dispatch u w').answer = some h' ∧
      ((t.toRoute (·.toRoute app)).dispatch (Url.parse u.render) w').answer = some h' := by
  obtain ⟨p, hc, hu⟩ := Route.pageInstance_link_eq_some_iff.mp hl
  have hroot := hv.rootSegment_ne_nil
  have hpath : u.path = [app.settings.rootSegment, app.settings.pageSegment] := hu ▸ Url.path_cons hroot _ _
  have hscore : RouteShape.pageInstance.score app.settings u = 2 :=
    RouteShape.score_of_fits (hu ▸ PageInstance.fits_write hroot (h.instanceToken p))
  have hanswer : ((Route.pageInstance app).dispatch u w').answer = some (h.resumedAt p) := by
    rw [hu]
    exact congrArg (fun run => (run w').answer) (hc.dispatch_write hv)
  -- mounts may fit the address as well, but none of them scores two
  have hcases : ∀ r ∈ t.leaves, r = .pageInstance ∨ r.score app.settings u ≤ 1 := by
    intro r hr
    apply or_iff_not_imp_left.mpr
    intro hne
    exact RouteShape.score_le_one hpath hne (hfree r hr)
  refine ⟨h.resumedAt p, hanswer, ?_⟩
  rw [hu, hc.parse_render_write hv, ← hu]
  refine RouteTree.dispatch_of_best (RouteShape.toRoute_score app u) hmem (by rw [hscore]; decide) ?_ ?_
  · intro r hr
    rcases hcases r hr with rfl | hle
    · exact Int.le_refl _
    · exact Int.le_trans hle (by rw [hscore]; decide)
  · intro r hr hs
    rcases hcases r hr with rfl | hle
    · exact hanswer
    · rw [hs, hscore] at hle
      exact absurd hle (by decide)

def anyPath : MountPath where
  text := "/\x7ba\x7d/\x7bb\x7d".toList
  segments := [.placeholder "a".toList, .placeholder "b".toList]
  spelled := rfl

def reservedPath : MountPath where
  text := "/wicket/\x7bpage\x7d".toList
  segments := [.literal "wicket".toList, .placeholder "page".toList]
  spelled := rfl

/-- Mounts that addresses of page instances fit, before the route of these. -/
def crowded : RoutingTable :=
  .chain [.leaf (.mount (.path anyPath ⟨"Any".toList⟩)),
    .chain [.leaf (.mount .byClass), .leaf (.mount (.path reservedPath ⟨"Shop".toList⟩)), .leaf .pageInstance]]

theorem dispatch_crowded :
    ∃ u h', ((Route.pageInstance Application.sample).link (.listener .onSample) PageStore.sample).answer = some u ∧
      (∀ p ∈ [anyPath, reservedPath], (MountSegment.read? p.segments u.path).isSome) ∧
      ((Route.pageInstance .sample).dispatch u PageStore.sample).answer = some h' ∧
      ((crowded.toRoute (·.toRoute .sample)).dispatch (Url.parse u.render) PageStore.sample).answer = some h' := by
  have hv : Application.sample.Valid := ⟨by decide, .builtins⟩
  obtain ⟨h', hinstance, htable⟩ := dispatch_pageInstance (t := crowded) (h := .listener .onSample)
    (w := PageStore.sample) hv (by decide) (by decide) rfl PageStore.sample
  exact ⟨_, h', rfl, by decide, hinstance, htable⟩

end RoutingTable
end PageRouting
