import PageRouting.Proofs.Route.Overheard
import PageRouting.Proofs.Route.Ranking
import PageRouting.Recording

/-! Whom a chain asks, in which order, and whose answer it gives. Nothing is assumed of its members: how they
score and what they answer may change with the world. -/
namespace PageRouting

variable {W : Type}

section
variable {α β : Type} {ahead : α → α → Prop} {replies rest : List (α × Option β)} {a x : α} {answer : Option β}

/-- Whether everyone ahead declines. -/
def Reaches (ahead : α → α → Prop) (replies : List (α × Option β)) (a : α) : Prop :=
  ∀ r ∈ replies, ahead r.1 a → r.2 = none

/-- Everyone is asked in turn, up to the first who answers. The replies are the answers that are given, and
behind the first one those that would be. -/
structure Selection (ahead : α → α → Prop) (replies : List (α × Option β)) (asked : List α)
    (answer : Option β) : Prop where
  ordered : (replies.map Prod.fst).Pairwise ahead
  initial : asked <+: replies.map Prod.fst
  mem_asked_iff : ∀ r ∈ replies, r.1 ∈ asked ↔ Reaches ahead replies r.1
  answer_eq_some_iff : ∀ b, answer = some b ↔ ∃ r ∈ replies, r.2 = some b ∧ Reaches ahead replies r.1
  answer_eq_none_iff : answer = none ↔ ∀ r ∈ replies, r.2 = none

theorem reaches_cons_iff (h : ahead a x) (reply : Option β) :
    Reaches ahead ((a, reply) :: rest) x ↔ reply = none ∧ Reaches ahead rest x := by
  simp [Reaches, h]

namespace Selection

theorem nil : Selection ahead ([] : List (α × Option β)) [] none where
  ordered := List.Pairwise.nil
  initial := List.prefix_refl []
  mem_asked_iff := by simp
  answer_eq_some_iff := by simp
  answer_eq_none_iff := by simp

variable (hasymm : ∀ a b, ahead a b → ¬ ahead b a)
include hasymm

theorem reaches_head (ha : ∀ r ∈ rest, ahead a r.1) (reply : Option β) :
    Reaches ahead ((a, reply) :: rest) a := by
  intro r hr hra
  rcases List.mem_cons.mp hr with rfl | hr
  · exact absurd hra (hasymm a a hra)
  · exact absurd hra (hasymm a r.1 (ha r hr))

theorem ne_of_ahead {b : α} (h : ahead a b) : b ≠ a := by
  rintro rfl
  exact hasymm b b h h

theorem cons_of_some {b : β} (ho : (rest.map Prod.fst).Pairwise ahead) (ha : ∀ r ∈ rest, ahead a r.1) :
    Selection ahead ((a, some b) :: rest) [a] (some b) := by
  have hhead : Reaches ahead ((a, some b) :: rest) a := reaches_head hasymm ha (some b)
  have htail : ∀ r ∈ rest, ¬ Reaches ahead ((a, some b) :: rest) r.1 := by
    intro r hr h
    cases ((reaches_cons_iff (ha r hr) _).mp h).1
  constructor
  · simpa using ⟨fun c d hd => ha (c, d) hd, ho⟩
  · simp
  · intro r hr
    rcases List.mem_cons.mp hr with rfl | hr
    · simpa using hhead
    · simpa [htail r hr] using ne_of_ahead hasymm (ha r hr)
  · intro c
    constructor
    · rintro ⟨⟩
      exact ⟨_, List.mem_cons_self, rfl, hhead⟩
    · rintro ⟨r, hr, hc, hreach⟩
      rcases List.mem_cons.mp hr with rfl | hr
      · exact hc
      · exact absurd hreach (htail r hr)
  · simp

theorem cons_of_none {asked : List α} (h : Selection ahead rest asked answer) (ha : ∀ r ∈ rest, ahead a r.1) :
    Selection ahead ((a, none) :: rest) (a :: asked) answer := by
  have hhead : Reaches ahead ((a, none) :: rest) a := reaches_head hasymm ha none
  have htail : ∀ r ∈ rest, Reaches ahead ((a, none) :: rest) r.1 ↔ Reaches ahead rest r.1 := by
    intro r hr
    simpa using reaches_cons_iff (ha r hr) none
  constructor
  · simpa using ⟨fun c d hd => ha (c, d) hd, h.ordered⟩
  · simpa using h.initial
  · intro r hr
    rcases List.mem_cons.mp hr with rfl | hr
    · simpa using hhead
    · rw [htail r hr, ← h.mem_asked_iff r hr, List.mem_cons]
      exact or_iff_right (ne_of_ahead hasymm (ha r hr))
  · intro b
    rw [h.answer_eq_some_iff b]
    constructor
    · rintro ⟨r, hr, hb, hreach⟩
      exact ⟨r, List.mem_cons_of_mem _ hr, hb, (htail r hr).mpr hreach⟩
    · rintro ⟨r, hr, hb, hreach⟩
      rcases List.mem_cons.mp hr with rfl | hr
      · cases hb
      · exact ⟨r, hr, hb, (htail r hr).mp hreach⟩
  · simpa using h.answer_eq_none_iff

end Selection

end

namespace Run
variable {α β : Type} {w : W}

/-- What everyone answers in turn, each in the world that those before have left. -/
def replies (f : α → Run W β) : List α → W → List (α × β)
  | [], _ => []
  | a :: as, w => (a, (f a w).answer) :: replies f as (f a w).world

theorem map_fst_replies (f : α → Run W β) (as : List α) (w : W) : (replies f as w).map Prod.fst = as := by
  induction as generalizing w with
  | nil => rfl
  | cons a as ih => rw [replies, List.map_cons, ih]

theorem replies_quiet (f : α → Run W β) (as : List α) (w : W) :
    replies (fun a => (f a).quiet) as w = replies f as w := by
  induction as generalizing w with
  | nil => rfl
  | cons a as ih => exact congrArg ((a, (f a w).answer) :: ·) (ih _)

theorem selection_firstAnswer {ahead : α → α → Prop} (hasymm : ∀ a b, ahead a b → ¬ ahead b a)
    (f : α → Run W (Option β)) {as : List α} (h : as.Pairwise ahead) (w : W) :
    Selection ahead (replies f as w) (consulted f as w) (firstAnswer (as.map f) w).answer := by
  induction as generalizing w with
  | nil => exact .nil
  | cons a as ih =>
    obtain ⟨ha, has⟩ := List.pairwise_cons.mp h
    have hahead : ∀ r ∈ replies f as (f a w).world, ahead a r.1 := by
      intro r hr
      apply ha
      rw [← map_fst_replies f as (f a w).world]
      exact List.mem_map_of_mem hr
    rw [List.map_cons, firstAnswer_cons, replies]
    cases hr : (f a w).answer with
    | some b =>
      rw [orElse_answer_of_some hr, consulted_cons_of_some hr]
      refine Selection.cons_of_some hasymm ?_ hahead
      rwa [map_fst_replies]
    | none =>
      rw [orElse_answer_of_none hr, consulted_cons_of_none hr]
      exact (ih has _).cons_of_none hasymm hahead

/-- What a run selects that asks the members of a list. -/
theorem Asks.selection {r : Run W (Option β)} {f : α → Run W (Option β)} {as : List α} (hr : r.Asks f as)
    {ahead : α → α → Prop} (hasymm : ∀ a b, ahead a b → ¬ ahead b a) (h : as.Pairwise ahead) (w : W) :
    Selection ahead (replies f as w) (consulted f as w) (r w).answer := by
  have hquiet := selection_firstAnswer hasymm (fun a => (f a).quiet) h w
  rw [replies_quiet, consulted_quiet, ← hr] at hquiet
  exact hquiet

end Run

namespace Route

theorem length_answer_mapM (u : Url) (routes : List (Route W)) (w : W) :
    (routes.mapM (·.score u) w).answer.length = routes.length := by
  induction routes generalizing w with
  | nil => rfl
  | cons r routes ih => rw [Run.answer_mapM_cons, List.length_cons, ih, List.length_cons]

theorem selection_dispatch (u : Url) (routes : List (Route W)) (w : W) :
    let scored := Candidate.scored u routes w
    let order := Candidate.ranked scored.answer
    Selection Candidate.Ahead (Run.replies (fun c => c.route.dispatch u) order scored.world)
      (Run.consulted (fun c => c.route.dispatch u) order scored.world) ((chain routes).dispatch u w).answer := by
  intro scored order
  have hindexed : scored.answer.Pairwise fun c d => c.index < d.index := by
    unfold scored
    rw [Candidate.scored_apply]
    exact Candidate.pairwise_members (length_answer_mapM u routes w)
  have hasks : (Candidate.dispatch u order).Asks (fun c => c.route.dispatch u) order := Candidate.quiet_dispatch u order
  exact hasks.selection (fun _ _ => Candidate.Ahead.asymm) (Candidate.pairwise_ahead_ranked hindexed) scored.world

theorem selection_link (h : Handler) (routes : List (Route W)) (w : W) :
    Selection (fun r s : Route W × Nat => r.2 < s.2) (Run.replies (fun r => r.1.link h) routes.zipIdx w)
      (Run.consulted (fun r => r.1.link h) routes.zipIdx w) ((chain routes).link h w).answer := by
  have hordered : routes.zipIdx.Pairwise fun r s => r.2 < s.2 := by
    rw [← List.pairwise_map, List.zipIdx_map_snd, ← List.range_eq_range']
    exact List.pairwise_lt_range
  have hasks : ((chain routes).link h).Asks (fun r : Route W × Nat => r.1.link h) routes.zipIdx :=
    quiet_linkFirst h routes.zipIdx
  exact hasks.selection (fun _ _ => Nat.lt_asymm) hordered w

/-- Members of different scores may stand in any order. -/
theorem dispatch_eq_of_classOf {u : Url} {routes routes' : List (Route W)} {w : W}
    (hw : (Candidate.scored u routes' w).world = (Candidate.scored u routes w).world)
    (hc : ∀ n, Candidate.classOf n (Candidate.scored u routes' w).answer =
      Candidate.classOf n (Candidate.scored u routes w).answer) :
    ((chain routes').dispatch u w).answer = ((chain routes).dispatch u w).answer := by
  have hquiet (cs : List (Candidate W)) : (Candidate.dispatch u cs).quiet =
      Run.firstAnswer ((cs.map (·.route)).map fun r => (r.dispatch u).quiet) := by
    rw [Candidate.quiet_dispatch, List.map_map]
    rfl
  have hanswer (routes : List (Route W)) : ((chain routes).dispatch u w).answer =
      ((Candidate.dispatch u (Candidate.ranked (Candidate.scored u routes w).answer)).quiet
        (Candidate.scored u routes w).world).answer := rfl
  rw [hanswer, hanswer, hquiet, hquiet, Candidate.map_route_ranked_eq hc, hw]

/-- Each member of a chain is asked for its score, once and in the order of the chain. Then the members are
asked for the handler of the address, the higher scores first and equal ones in the order of the chain,
and the chain gives the first answer as it is. So it makes no difference how members of different scores
stand to each other. For the address of a handler they are asked in the order of the chain. -/
theorem chain_selection (routes : List (Route W)) (w : W) :
    (∀ u,
      let scores := routes.mapM (·.score u) w
      let order := Candidate.ranked (Candidate.members routes scores.answer)
      let made := (chain routes).dispatch u w
      order.Perm (Candidate.members routes scores.answer) ∧
      (∃ asked, Selection Candidate.Ahead (Run.replies (fun c => c.route.dispatch u) order scores.world) asked
          made.answer ∧
        (chain (overhearing routes)).dispatch u (w, []) = ⟨made.answer, made.notes, made.world,
          (List.range routes.length).map .score ++ asked.map fun c => .dispatch c.index⟩) ∧
      ∀ routes' : List (Route W),
        let scores' := routes'.mapM (·.score u) w
        scores'.world = scores.world →
        (∀ n, Candidate.classOf n (Candidate.members routes' scores'.answer) =
          Candidate.classOf n (Candidate.members routes scores.answer)) →
        ((chain routes').dispatch u w).answer = made.answer) ∧
    ∀ h,
      let made := (chain routes).link h w
      ∃ asked, Selection (fun a b => a.2 < b.2) (Run.replies (fun r => r.1.link h) routes.zipIdx w) asked
          made.answer ∧
        (chain (overhearing routes)).link h (w, []) =
          ⟨made.answer, made.notes, made.world, asked.map fun r => .link r.2⟩ := by
  refine ⟨fun u => ?_, fun h => ?_⟩
  · have hscored (routes : List (Route W)) := Candidate.scored_apply u routes w
    have hselection := selection_dispatch u routes w
    have hheard := overhears_chain_dispatch u routes w []
    dsimp only at hselection hheard
    rw [hscored] at hselection hheard
    refine ⟨Candidate.perm_ranked _, ⟨_, hselection, hheard⟩, fun routes' hw hc => ?_⟩
    apply dispatch_eq_of_classOf
    · rw [hscored, hscored]
      exact hw
    · rw [hscored, hscored]
      exact hc
  · exact ⟨_, selection_link h routes w, overhears_chain_link h routes w []⟩

namespace Rivals

def low : Route Unit := .fixed "low".toList (-1) true

def high : Route Unit := .fixed "high".toList 5 false

def mid : Route Unit := .fixed "mid".toList 2 true

def tie : Route Unit := .fixed "tie".toList 2 true

/-- An address that none of them looks at. -/
def url : Url := ⟨[], []⟩

/-- The best declines, and of two that score the same the first is asked. -/
theorem chain_selection_rivals :
    (∀ n, Candidate.classOf n (Candidate.members [high, mid, low, tie] [5, 2, -1, 2]) =
        Candidate.classOf n (Candidate.members [low, high, mid, tie] [-1, 5, 2, 2])) ∧
      ((chain [low, high, mid, tie]).dispatch url ()).answer = some (.bookmarkablePage ⟨"mid".toList⟩ {}) ∧
      ((chain (overhearing [low, high, mid, tie])).dispatch url ((), [])).world.2 =
        [.score 0, .score 1, .score 2, .score 3, .dispatch 1, .dispatch 2] ∧
      ((chain [high, mid, low, tie]).dispatch url ()).answer = some (.bookmarkablePage ⟨"mid".toList⟩ {}) := by
  have hclass (n : Int) : Candidate.classOf n (Candidate.members [high, mid, low, tie] [5, 2, -1, 2]) =
      Candidate.classOf n (Candidate.members [low, high, mid, tie] [-1, 5, 2, 2]) := by
    simp only [Candidate.classOf, Candidate.members, List.zipIdx_cons, List.zipIdx_nil, List.zip_cons_cons,
      List.zip_nil_left, List.map_cons, List.map_nil, List.filter_cons, List.filter_nil]
    by_cases h5 : (5 : Int) = n
    · subst h5
      rfl
    by_cases h2 : (2 : Int) = n
    · subst h2
      rfl
    by_cases h1 : (-1 : Int) = n
    · subst h1
      rfl
    simp [h5, h2, h1]
  have horder : Candidate.ranked (Candidate.scored url [low, high, mid, tie] ()).answer =
      [⟨5, 1, high⟩, ⟨2, 2, mid⟩, ⟨2, 3, tie⟩, ⟨-1, 0, low⟩] := by
    change Candidate.ranked [⟨-1, 0, low⟩, ⟨5, 1, high⟩, ⟨2, 2, mid⟩, ⟨2, 3, tie⟩] = _
    simp [Candidate.ranked, List.mergeSort]
  have hfound : ((chain [low, high, mid, tie]).dispatch url ()).answer =
      some (.bookmarkablePage ⟨"mid".toList⟩ {}) := by
    change (Candidate.dispatch url (Candidate.ranked (Candidate.scored url [low, high, mid, tie] ()).answer) ()).answer = _
    rw [horder]
    rfl
  refine ⟨hclass, hfound, ?_, ?_⟩
  · rw [overhears_chain_dispatch url [low, high, mid, tie] () []]
    dsimp only
    rw [horder]
    rfl
  · rw [← hfound]
    exact ((chain_selection [low, high, mid, tie] ()).1 url).2.2 [high, mid, low, tie] rfl hclass

end Rivals

end Route

end PageRouting
