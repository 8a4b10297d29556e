import PageRouting.Proofs.Mount.Rebuild
import PageRouting.Proofs.MountPath.Spelling
import PageRouting.Proofs.Route.Chain
import PageRouting.Proofs.Run

/-! What the addresses of a mount path are, what they bind, and how they score. Slashes at the ends of the path make
no difference to the route. -/
namespace PageRouting

namespace MountSegment
variable {m : MountSegment} {ms : List MountSegment} {path rest : List Text} {s : Text} {bound : List (Text × Text)}

/-- Whether a path is long enough, has every literal in its place and a text for every placeholder. -/
structure Matches (ms : List MountSegment) (path : List Text) : Prop where
  length_le : ms.length ≤ path.length
  literal : ∀ (i : Nat) text, ms[i]? = some (.literal text) → path[i]? = some text
  placeholder : ∀ (i : Nat) name, ms[i]? = some (.placeholder name) → ∃ s, path[i]? = some s ∧ s ≠ []

/-- Whether a segment takes a text. -/
def Takes : MountSegment → Text → Prop
  | .literal text, s => text = s
  | .placeholder _, s => s ≠ []

theorem matches_nil (path : List Text) : Matches [] path := by
  constructor
  · exact Nat.zero_le _
  · rintro i text ⟨⟩
  · rintro i name ⟨⟩

theorem matches_cons_iff : Matches (m :: ms) (s :: path) ↔ m.Takes s ∧ Matches ms path := by
  constructor
  · intro h
    refine ⟨?_, Nat.le_of_succ_le_succ h.length_le, fun i => h.literal (i + 1), fun i => h.placeholder (i + 1)⟩
    cases m with
    | literal text => exact (Option.some.inj (h.literal 0 text rfl)).symm
    | placeholder name =>
      obtain ⟨_, ⟨⟩, hs⟩ := h.placeholder 0 name rfl
      exact hs
  · rintro ⟨hm, h⟩
    refine ⟨Nat.succ_le_succ h.length_le, fun i text hi => ?_, fun i name hi => ?_⟩
    · cases i with
      | zero =>
        cases hi
        exact congrArg some hm.symm
      | succ i => exact h.literal i text hi
    · cases i with
      | zero =>
        cases hi
        exact ⟨s, rfl, hm⟩
      | succ i => exact h.placeholder i name hi

theorem matches_of_isSome_read? (h : (read? ms path).isSome) : Matches ms path := by
  fun_induction read? ms path with
  | case1 path => exact matches_nil path
  | case2 => cases h
  | case3 ms text path ih => exact matches_cons_iff.mpr ⟨rfl, ih h⟩
  | case4 => cases h
  | case5 => cases h
  | case6 name ms s path hs ih =>
    rw [Option.isSome_map] at h
    exact matches_cons_iff.mpr ⟨fun he => hs (List.isEmpty_iff.mpr he), ih h⟩

theorem isSome_read?_of_matches (h : Matches ms path) : (read? ms path).isSome := by
  fun_induction read? ms path with
  | case1 => rfl
  | case2 => exact absurd h.length_le (Nat.not_succ_le_zero _)
  | case3 ms text path ih => exact ih (matches_cons_iff.mp h).2
  | case4 ms text s path hne => exact absurd (matches_cons_iff.mp h).1 hne
  | case5 name ms s path hs => exact absurd (List.isEmpty_iff.mp hs) (matches_cons_iff.mp h).1
  | case6 name ms s path _ ih =>
    rw [Option.isSome_map]
    exact ih (matches_cons_iff.mp h).2

theorem isSome_read?_iff : (read? ms path).isSome ↔ Matches ms path :=
  ⟨matches_of_isSome_read?, isSome_read?_of_matches⟩

/-- What is left over stands behind the segments that are matched. -/
theorem rest_of_read? (h : read? ms path = some (bound, rest)) : rest = path.drop ms.length := by
  fun_induction read? ms path generalizing bound with
  | case1 path =>
    cases h
    rfl
  | case2 => cases h
  | case3 ms text path ih => exact ih h
  | case4 => cases h
  | case5 => cases h
  | case6 name ms s path _ ih =>
    obtain ⟨r, hr, he⟩ := Option.map_eq_some_iff.mp h
    cases he
    exact ih hr

/-- A placeholder is bound to the segment at its place. -/
theorem mem_bound_of_read? (h : read? ms path = some (bound, rest)) {i : Nat} {name : Text}
    (hi : ms[i]? = some (.placeholder name)) : ∃ s, path[i]? = some s ∧ (name, s) ∈ bound := by
  fun_induction read? ms path generalizing bound i with
  | case1 => cases hi
  | case2 => cases h
  | case3 ms text path ih =>
    cases i with
    | zero => cases hi
    | succ i => exact ih h hi
  | case4 => cases h
  | case5 => cases h
  | case6 name' ms s path _ ih =>
    obtain ⟨r, hr, he⟩ := Option.map_eq_some_iff.mp h
    cases he
    cases i with
    | zero =>
      cases hi
      exact ⟨s, rfl, List.mem_cons_self⟩
    | succ i =>
      obtain ⟨s', hs', hmem⟩ := ih hr hi
      exact ⟨s', hs', List.mem_cons_of_mem _ hmem⟩

end MountSegment

/-- What an address of a mount path says: each placeholder has its segment as first value before those of the query,
the other names have the values of the query alone, and what follows the path is positional. -/
structure MountPath.Says (p : MountPath) (cls : PageClass) (u : Url) (a : PageAddress) : Prop where
  cls : a.cls = cls
  token : a.token = (Token.ofQuery u.query).1
  bound : ∀ (i : Nat) name, p.segments[i]? = some (.placeholder name) →
    ∃ s, u.path[i]? = some s ∧ a.parameters.values name = s :: (Token.ofQuery u.query).2.values name
  others : ∀ n, n ∉ p.placeholders → a.parameters.values n = (Token.ofQuery u.query).2.values n
  names : a.parameters.names = p.placeholders ++ (Token.ofQuery u.query).2.names.filter (· ∉ p.placeholders)
  positional : a.parameters.indexed = (u.path.drop p.segments.length).filter (!·.isEmpty)

namespace Mount
variable {W : Type} {app : Application W} {p q : MountPath} {cls : PageClass} {u : Url} {w : W} {a : PageAddress}

theorem read_path_isSome_iff :
    ((Mount.path p cls).read app u w).answer.isSome ↔ MountSegment.Matches p.segments u.path := by
  rw [← MountSegment.isSome_read?_iff]
  exact Bool.eq_iff_iff.mp Option.isSome_map

theorem says_of_read_path (h : ((Mount.path p cls).read app u w).answer = some a) : p.Says cls u a := by
  obtain ⟨⟨bound, rest⟩, hread, rfl⟩ := Option.map_eq_some_iff.mp h
  obtain ⟨-, hquery, hindexed⟩ := Token.of_ofQuery u.query
  have hnames : bound.map Prod.fst = p.placeholders := MountSegment.names_of_read? hread
  have hnodup : (bound.map Prod.fst).Nodup := hnames ▸ p.nodup_placeholders
  rw [address_eq]
  refine ⟨rfl, rfl, fun i name hi => ?_, fun n hn => ?_, ?_, ?_⟩
  · obtain ⟨s, hs, hmem⟩ := MountSegment.mem_bound_of_read? hread hi
    refine ⟨s, hs, ?_⟩
    rw [Parameters.values_gather bound hquery, NamedValues.valuesIn_of_nodup hnodup hmem]
    rfl
  · have hnone : NamedValues.valuesIn bound n = [] := by
      rw [NamedValues.valuesIn, List.map_eq_nil_iff, List.filter_eq_nil_iff]
      intro e he hen
      have hmem : e.1 ∈ bound.map Prod.fst := List.mem_map_of_mem he
      rw [of_decide_eq_true hen, hnames] at hmem
      exact hn hmem
    rw [Parameters.values_gather bound hquery, hnone]
    rfl
  · rw [Parameters.names_gather hnodup hquery, hnames]
  · rw [Parameters.indexed_gather bound hindexed, MountSegment.rest_of_read? hread]

theorem score_path_of_matches (h : MountSegment.Matches p.segments u.path) (cls : PageClass) (s : Settings) :
    (Mount.path p cls).score s u = (min p.literalCount 2147483647 : Nat) := by
  rw [score, if_pos (MountSegment.isSome_read?_iff.mpr h)]
  rfl

theorem score_path_of_not_matches (h : ¬ MountSegment.Matches p.segments u.path) (cls : PageClass) (s : Settings) :
    (Mount.path p cls).score s u = 0 := by
  rw [score, if_neg fun hread => h (MountSegment.isSome_read?_iff.mp hread)]

/-! Two paths of the same segments, which differ in how they were written. -/

section
variable (hs : p.segments = q.segments)
include hs

theorem read_path_congr (cls : PageClass) (app : Application W) (u : Url) :
    (Mount.path p cls).read app u = (Mount.path q cls).read app u := by
  rw [read, read, hs]

theorem score_path_congr (cls : PageClass) (s : Settings) (u : Url) :
    (Mount.path p cls).score s u = (Mount.path q cls).score s u := by
  rw [score, score, hs, MountPath.literalCount, MountPath.literalCount, hs]

/-- They write the same address, and where there is none, what they report names the one or the other path. -/
theorem quiet_link_path_congr (cls : PageClass) (s : Settings) (a : PageAddress) :
    ((Mount.path p cls).link s a : Run W (Option Url)).quiet = ((Mount.path q cls).link s a).quiet := by
  have hnothing (gap : MountGap) :
      (do .logAll (gap.events a.cls); return none : Run W (Option Url)).quiet = (pure none : Run W (Option Url)) := by
    funext w
    have hcalls : ((gap.events a.cls).map Note.event).filterMap Note.call? = [] := Run.calls_events _
    simp [Run.quiet, Run.logAll, Run.bind_apply, Outcome.calls, hcalls]
  rw [link, link, write, write, hs]
  cases MountSegment.fill q.segments a.parameters with
  | ok r => rfl
  | error name => exact (hnothing _).trans (hnothing _).symm

theorem quiet_linkPage_path_congr (cls : PageClass) (app : Application W) (r : PageReference) :
    ((Mount.path p cls).linkPage app r).quiet = ((Mount.path q cls).linkPage app r).quiet := by
  rw [linkPage, linkPage, Run.quiet_bind, Run.quiet_bind]
  congr
  funext found
  cases found with
  | error e => rfl
  | ok page =>
    change Run.quiet (if decide (page.cls = cls) && (page.bookmarkable || true) then _ else _) =
      Run.quiet (if decide (page.cls = cls) && (page.bookmarkable || true) then _ else _)
    split
    · rw [Run.quiet_bind, Run.quiet_bind]
      congr
      funext token
      exact quiet_link_path_congr hs cls _ _
    · rfl

theorem quiet_linkCallback_path_congr (cls : PageClass) (app : Application W) (call : Invocation) :
    ((Mount.path p cls).linkCallback app call).quiet = ((Mount.path q cls).linkCallback app call).quiet := by
  rw [linkCallback, linkCallback, Run.quiet_bind, Run.quiet_bind]
  congr
  funext found
  cases found with
  | error e => rfl
  | ok page =>
    change Run.quiet (if decide (page.cls = cls) then _ else _) =
      Run.quiet (if decide (page.cls = cls) then _ else _)
    split
    · rw [Run.quiet_bind, Run.quiet_bind]
      congr
      funext token
      cases token with
      | none => rfl
      | some token => exact quiet_link_path_congr hs cls _ _
    · rfl

theorem quiet_route_link_path_congr (cls : PageClass) (app : Application W) (h : Handler) :
    ((Route.mounted app (.path p cls)).link h).quiet = ((Route.mounted app (.path q cls)).link h).quiet := by
  cases h with
  | bookmarkablePage cls' ps =>
    change Run.quiet (if decide (cls' = cls) then _ else _) = Run.quiet (if decide (cls' = cls) then _ else _)
    split
    · exact quiet_link_path_congr hs cls _ _
    · rfl
  | renderPage r => exact quiet_linkPage_path_congr hs cls app r
  | listener call => rfl
  | bookmarkableListener call => exact quiet_linkCallback_path_congr hs cls app call

theorem route_dispatch_path_congr (cls : PageClass) (app : Application W) (u : Url) :
    (Route.mounted app (.path p cls)).dispatch u = (Route.mounted app (.path q cls)).dispatch u := by
  rw [Route.mounted, Route.mounted]
  dsimp only
  rw [read_path_congr hs]

end

/-- A text is a mount path if, slashes at its ends apart, it is not empty and made of segments without braces and of
names in braces, none empty and no name twice; these are then its placeholders, in order. A mount reads the
addresses that its path matches and no others, and scores its literals for them. Paths that differ only in
slashes at their ends answer the same. -/
theorem path_spelled_and_matched (app : Application W) (cls : PageClass) :
    (∀ t : Text,
      let inner := Text.trim '/' t
      let parts := inner.splitOn '/'
      let names := parts.filter (·.head? = some '\x7b')
      ((∃ before after, t = before ++ inner ++ after ∧ ∀ c ∈ before ++ after, c = '/') ∧
        inner.head? ≠ some '/' ∧ inner.getLast? ≠ some '/') ∧
      ((∃ p, MountPath.parse t = .ok p) ↔ inner ≠ [] ∧ (∀ s ∈ parts, MountPath.IsSegment s) ∧
        ∃ placeholders : List Text, placeholders.map MountPath.braced = names ∧ placeholders.Nodup) ∧
      ∀ p, MountPath.parse t = .ok p →
        List.Forall₂ MountSegment.Spells p.segments parts ∧ p.placeholders.map MountPath.braced = names) ∧
    (∀ (p : MountPath) u w,
      let reading := ((Mount.path p cls).read app u w).answer
      let score := ((Route.mounted app (.path p cls)).score u w).answer
      (reading.isSome ↔ MountSegment.Matches p.segments u.path) ∧ (∀ a ∈ reading, p.Says cls u a) ∧
      (MountSegment.Matches p.segments u.path → score = (min p.literalCount 2147483647 : Nat)) ∧
      (¬ MountSegment.Matches p.segments u.path → score = 0)) ∧
    ∀ p q : MountPath, Text.trim '/' p.text = Text.trim '/' q.text →
      let route := Route.mounted app (.path p cls)
      let route' := Route.mounted app (.path q cls)
      (∀ u, route.score u = route'.score u ∧ route.dispatch u = route'.dispatch u) ∧
      ∀ h, (route.link h).quiet = (route'.link h).quiet := by
  refine ⟨fun t => ⟨Text.exists_trim '/' t, ?_, fun p hp => ?_⟩, fun p u w => ⟨read_path_isSome_iff, ?_, ?_, ?_⟩,
    fun p q htrim => ⟨fun u => ⟨?_, ?_⟩, fun h => ?_⟩⟩
  · rw [MountPath.exists_parse_iff, MountPath.exists_spell_iff]
  · cases MountPath.parse_eq_ok_iff.mp hp
    exact ⟨(MountPath.spell_eq_ok_iff.mp p.spelled).2.1, p.map_braced_placeholders⟩
  · exact fun a ha => says_of_read_path ha
  · exact fun h => score_path_of_matches h cls app.settings
  · exact fun h => score_path_of_not_matches h cls app.settings
  · exact congrArg pure (score_path_congr (MountPath.segments_eq_of_trim htrim) cls app.settings u)
  · exact route_dispatch_path_congr (MountPath.segments_eq_of_trim htrim) cls app u
  · exact quiet_route_link_path_congr (MountPath.segments_eq_of_trim htrim) cls app h

/-- The same path with more slashes. -/
def slashedPath : MountPath where
  text := "//users/\x7bid\x7d/profile/".toList
  segments := usersPath.segments
  spelled := rfl

theorem path_spelled_and_matched_slashed :
    MountPath.parse slashedPath.text = .ok slashedPath ∧
      slashedPath.placeholders.map MountPath.braced = ["\x7bid\x7d".toList] ∧
      (∃ a, ((Mount.path slashedPath ⟨"Users".toList⟩).read .sample (Url.parse "/users/7/profile/x?id=8".toList)
          PageStore.sample).answer = some a ∧
        slashedPath.Says ⟨"Users".toList⟩ (Url.parse "/users/7/profile/x?id=8".toList) a) ∧
      ((Route.mounted .sample (.path slashedPath ⟨"Users".toList⟩)).score (Url.parse "/users/7/profile/x?id=8".toList)
        PageStore.sample).answer = 2 ∧
      ((Route.mounted .sample (.path slashedPath ⟨"Users".toList⟩)).score (Url.parse "/users//profile".toList)
        PageStore.sample).answer = 0 ∧
      (Route.mounted .sample (.path slashedPath ⟨"Users".toList⟩)).dispatch (Url.parse "/users/7/profile".toList) =
        (Route.mounted (W := PageStore) .sample (.path usersPath ⟨"Users".toList⟩)).dispatch
          (Url.parse "/users/7/profile".toList) := by
  obtain ⟨hspelled, hmatched, hslashes⟩ := path_spelled_and_matched Application.sample ⟨"Users".toList⟩
  have hparse : MountPath.parse slashedPath.text = .ok slashedPath := MountPath.parse_eq_ok_iff.mpr rfl
  obtain ⟨-, hnames⟩ := (hspelled slashedPath.text).2.2 slashedPath hparse
  have htrim : Text.trim '/' slashedPath.text = Text.trim '/' usersPath.text := by decide +kernel
  obtain ⟨hanswers, hsays, hscore, -⟩ :=
    hmatched slashedPath (Url.parse "/users/7/profile/x?id=8".toList) PageStore.sample
  obtain ⟨-, -, -, hnone⟩ := hmatched slashedPath (Url.parse "/users//profile".toList) PageStore.sample
  have hfits : MountSegment.Matches slashedPath.segments (Url.parse "/users/7/profile/x?id=8".toList).path :=
    MountSegment.isSome_read?_iff.mp (by decide +kernel)
  have hunfit : ¬ MountSegment.Matches slashedPath.segments (Url.parse "/users//profile".toList).path := by
    rw [← MountSegment.isSome_read?_iff]
    decide +kernel
  obtain ⟨a, ha⟩ := Option.isSome_iff_exists.mp (hanswers.mpr hfits)
  refine ⟨hparse, ?_, ⟨a, ha, hsays a ha⟩, hscore hfits, hnone hunfit, ((hslashes _ _ htrim).1 _).2⟩
  rw [hnames]
  decide +kernel

end Mount
end PageRouting
