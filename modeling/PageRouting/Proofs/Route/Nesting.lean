import PageRouting.Proofs.Route.Attended
import PageRouting.Proofs.Route.Selection

/-! What difference it makes to nest a chain within a chain. None to handlers, and none to the score, as long as
no chain is empty. To an address it makes none if the members of the inner chain score the same. -/
namespace PageRouting

variable {W α : Type}

namespace Run
variable {β : Type}

/-- What a run answers and the world that it leaves. -/
def silent (r : Run W α) : Run W α := fun w => { r w with notes := [] }

theorem silent_bind (r : Run W α) (f : α → Run W β) : (r >>= f).silent = r.silent >>= fun a => (f a).silent := rfl

theorem silent_bind_apply (r : Run W α) (f : α → Run W β) (w : W) :
    (r.silent >>= f) w = f (r w).answer (r w).world := rfl

theorem mapM_append_apply (f : α → Run W β) (as as' : List α) (w : W) :
    let first := as.mapM f w
    let second := as'.mapM f first.world
    (as ++ as').mapM f w = ⟨first.answer ++ second.answer, first.notes ++ second.notes, second.world⟩ := by
  simp only [List.mapM_append, bind_apply, pure_apply, List.append_nil]

/-- In a series of runs that leave the world as it is, all are made in the same. -/
theorem mapM_of_world_eq {f : α → Run W β} {as : List α} (h : ∀ a ∈ as, ∀ w, (f a w).world = w) (w : W) :
    (as.mapM f w).answer = (as.map fun a => (f a w).answer) ∧ (as.mapM f w).world = w := by
  induction as with
  | nil => exact ⟨rfl, rfl⟩
  | cons a as ih =>
    obtain ⟨ha, has⟩ := List.forall_mem_cons.mp h
    rw [List.mapM_cons]
    simp only [bind_answer, bind_world, pure_apply, ha, ih has, List.map_cons, and_self]

end Run

namespace Candidate

theorem silent_dispatch (u : Url) (cs : List (Candidate W)) :
    (dispatch u cs).silent = Run.firstAnswer (cs.map fun c => (c.route.dispatch u).silent) := by
  induction cs with
  | nil => rfl
  | cons c cs ih =>
    rw [List.map_cons, Run.firstAnswer_cons, ← ih, dispatch, Run.silent_bind]
    exact Run.bind_congr_option rfl fun _ => rfl

end Candidate

namespace Route
variable {u : Url} {members : List (Route W)}

theorem map_zip_of_length {β : Type} {routes : List (Route W)} {scores : List Int}
    (h : scores.length = routes.length) (f : Route W → β) :
    ((routes.zip scores).map fun m => f m.1) = routes.map f := by
  have hfst := congrArg (List.map f) (List.map_fst_zip (Nat.le_of_eq h.symm))
  rwa [List.map_map] at hfst

theorem silent_chain_dispatch (u : Url) (routes : List (Route W)) (w : W) :
    let scores := routes.mapM (·.score u) w
    ((chain routes).dispatch u).silent w =
      Run.firstAnswer (((routes.zip scores.answer).mergeSort fun a b => b.2 ≤ a.2).map fun m =>
        (m.1.dispatch u).silent) scores.world := by
  intro scores
  have hzip : (routes.zipIdx.zip scores.answer).map (Prod.map Prod.fst id) = routes.zip scores.answer := by
    rw [← List.zip_map_left, List.zipIdx_map_fst]
  have hmembers : (Candidate.standings routes scores.answer).map (Prod.map Prod.fst id) =
      (routes.zip scores.answer).mergeSort fun a b => b.2 ≤ a.2 := by
    rw [← hzip, ← map_mergeSort_by Prod.snd]
    rfl
  have hchain := chain_dispatch_standings id routes u
  rw [List.map_id] at hchain
  rw [hchain, Run.silent_bind, Run.silent_bind_apply, Candidate.silent_dispatch, ← hmembers, List.map_map,
    List.map_map]
  rfl

/-- Members that score the same. Since an inner chain is asked for its score first and then asks its members again,
this is to hold in every world, and asking for it is not to change the world. -/
structure Level (u : Url) (members : List (Route W)) : Prop where
  world_eq : ∀ r ∈ members, ∀ w, (r.score u w).world = w
  answer_eq : ∀ r ∈ members, ∀ s ∈ members, ∀ w, (r.score u w).answer = (s.score u w).answer

namespace Level

theorem nil (u : Url) : Level u ([] : List (Route W)) where
  world_eq _ hr := absurd hr List.not_mem_nil
  answer_eq _ hr := absurd hr List.not_mem_nil

theorem singleton {r : Route W} (hr : ∀ w, (r.score u w).world = w) : Level u [r] where
  world_eq _ hs := List.mem_singleton.mp hs ▸ hr
  answer_eq _ hs _ ht _ := by rw [List.mem_singleton.mp hs, List.mem_singleton.mp ht]

theorem of_pure {n : Int} (hn : ∀ r ∈ members, r.score u = pure n) : Level u members where
  world_eq r hr w := by rw [hn r hr, Run.pure_apply]
  answer_eq r hr s hs w := by rw [hn r hr, hn s hs]

variable (h : Level u members)
include h

theorem mapM_score (w : W) :
    (members.mapM (·.score u) w).answer = (members.map fun r => (r.score u w).answer) ∧
      (members.mapM (·.score u) w).world = w :=
  Run.mapM_of_world_eq h.world_eq w

theorem eq_of_mem_scores {w : W} {m n : Int} (hm : m ∈ (members.mapM (·.score u) w).answer)
    (hn : n ∈ (members.mapM (·.score u) w).answer) : m = n := by
  rw [(h.mapM_score w).1] at hm hn
  obtain ⟨r, hr, rfl⟩ := List.mem_map.mp hm
  obtain ⟨s, hs, rfl⟩ := List.mem_map.mp hn
  exact h.answer_eq r hr s hs w

/-- The score of a chain of such members is that of each of them. -/
theorem eq_top {w : W} {n : Int} (hn : n ∈ (members.mapM (·.score u) w).answer) :
    n = (members.mapM (·.score u) w).answer.max?.getD 0 := by
  cases hmax : (members.mapM (·.score u) w).answer.max? with
  | none => exact absurd (List.max?_eq_none_iff.mp hmax) (List.ne_nil_of_mem hn)
  | some m => exact h.eq_of_mem_scores hn (List.max?_mem hmax)

/-- A chain of such members asks them in their order. -/
theorem silent_dispatch :
    ((chain members).dispatch u).silent = Run.firstAnswer (members.map fun r => (r.dispatch u).silent) := by
  funext w
  obtain ⟨-, hworld⟩ := h.mapM_score w
  have hsorted : (members.zip (members.mapM (·.score u) w).answer).Pairwise fun a b => decide (b.2 ≤ a.2) := by
    apply List.pairwise_of_forall_mem_list
    intro a ha b hb
    exact decide_eq_true (Int.le_of_eq (h.eq_of_mem_scores (List.of_mem_zip hb).2 (List.of_mem_zip ha).2))
  rw [silent_chain_dispatch, List.mergeSort_of_pairwise hsorted, hworld,
    map_zip_of_length (length_answer_mapM u members w) fun r => (r.dispatch u).silent]

end Level

/-- A member of a chain with its score, and others that may be asked in its place. -/
structure Group (W : Type) where
  head : Route W × Int
  members : List (Route W × Int)

namespace Group

/-- Members of a group have the score of its head and answer for it. -/
structure Sound (u : Url) (g : Group W) : Prop where
  score_eq : ∀ m ∈ g.members, m.2 = g.head.2
  silent_dispatch : (g.head.1.dispatch u).silent = Run.firstAnswer (g.members.map fun m => (m.1.dispatch u).silent)

def single (m : Route W × Int) : Group W := ⟨m, [m]⟩

theorem sound_single (m : Route W × Int) : (single m).Sound u where
  score_eq _ hm := congrArg Prod.snd (List.mem_singleton.mp hm)
  silent_dispatch := (Run.orElse_pure_none _).symm

theorem heads_single (ms : List (Route W × Int)) : (ms.map single).map head = ms := by
  rw [List.map_map]
  exact List.map_id ms

theorem members_single (ms : List (Route W × Int)) : (ms.map single).flatMap Group.members = ms := by
  rw [List.flatMap_map]
  exact List.flatMap_singleton' ms

/-- By descending score, it makes no difference whether heads are asked or members. -/
theorem firstAnswer_sorted {gs : List (Group W)} (h : ∀ g ∈ gs, g.Sound u) :
    Run.firstAnswer (((gs.map head).mergeSort fun a b => b.2 ≤ a.2).map fun m => (m.1.dispatch u).silent) =
      Run.firstAnswer (((gs.flatMap Group.members).mergeSort fun a b => b.2 ≤ a.2).map fun m =>
        (m.1.dispatch u).silent) := by
  rw [← map_mergeSort_by Prod.snd head, List.map_map, mergeSort_flatMap fun g hg => (h g hg).score_eq]
  exact Run.firstAnswer_flatMap fun g hg => (h g (List.mem_mergeSort.mp hg)).silent_dispatch

end Group

theorem Level.sound (h : Level u members) (w : W) :
    let scores := (members.mapM (·.score u) w).answer
    Group.Sound u ⟨(chain members, scores.max?.getD 0), members.zip scores⟩ where
  score_eq _ hm := h.eq_top (List.of_mem_zip hm).2
  silent_dispatch := by
    rw [map_zip_of_length (length_answer_mapM u members w) fun r => (r.dispatch u).silent]
    exact h.silent_dispatch

/-- A chain within a chain is asked for its score in the place of its members, and so are these. -/
theorem mapM_score_nested (u : Url) (before members after : List (Route W)) (w : W) :
    let nested := (before ++ chain members :: after).mapM (·.score u) w
    let flat := (before ++ members ++ after).mapM (·.score u) w
    let b := before.mapM (·.score u) w
    let m := members.mapM (·.score u) b.world
    let a := after.mapM (·.score u) m.world
    nested.answer = b.answer ++ m.answer.max?.getD 0 :: a.answer ∧ flat.answer = b.answer ++ m.answer ++ a.answer ∧
      nested.world = flat.world := by
  refine ⟨?_, ?_, ?_⟩
  · rw [Run.mapM_append_apply, List.mapM_cons]
    rfl
  · rw [Run.mapM_append_apply, Run.mapM_append_apply]
  · rw [Run.mapM_append_apply, List.mapM_cons, Run.mapM_append_apply, Run.mapM_append_apply]
    rfl

/-- Such members may be asked in place of their chain. -/
theorem Level.silent_dispatch_nested (h : Level u members) (before after : List (Route W)) :
    ((chain (before ++ chain members :: after)).dispatch u).silent =
      ((chain (before ++ members ++ after)).dispatch u).silent := by
  funext w
  let b := before.mapM (·.score u) w
  let m := members.mapM (·.score u) b.world
  let a := after.mapM (·.score u) m.world
  -- the inner chain may be asked for its members, and everything beside it for itself
  let group : Group W := ⟨(chain members, m.answer.max?.getD 0), members.zip m.answer⟩
  let groups := (before.zip b.answer).map .single ++ group :: (after.zip a.answer).map .single
  have hsound : ∀ g ∈ groups, g.Sound u := by
    intro g hg
    rcases List.mem_append.mp hg with hg | hg
    · obtain ⟨_, -, rfl⟩ := List.mem_map.mp hg
      exact Group.sound_single _
    · rcases List.mem_cons.mp hg with rfl | hg
      · exact h.sound b.world
      · obtain ⟨_, -, rfl⟩ := List.mem_map.mp hg
        exact Group.sound_single _
  have hb : before.length = b.answer.length := (length_answer_mapM u before w).symm
  have hm : members.length = m.answer.length := (length_answer_mapM u members b.world).symm
  obtain ⟨hnested, hflat, hworld⟩ := mapM_score_nested u before members after w
  have hheads : (before ++ chain members :: after).zip (b.answer ++ m.answer.max?.getD 0 :: a.answer) =
      groups.map Group.head := by
    rw [List.zip_append hb, List.zip_cons_cons, List.map_append, List.map_cons, Group.heads_single, Group.heads_single]
  have hmembers : (before ++ members ++ after).zip (b.answer ++ m.answer ++ a.answer) =
      groups.flatMap Group.members := by
    rw [List.append_assoc, List.append_assoc, List.zip_append hb, List.zip_append hm, List.flatMap_append,
      List.flatMap_cons, Group.members_single, Group.members_single]
  rw [silent_chain_dispatch, silent_chain_dispatch, hworld, hnested, hflat, hheads, hmembers,
    Group.firstAnswer_sorted hsound]

end Route

namespace RouteTree
variable {f : α → Route W} {u : Url} {w : W} {t : RouteTree α} {ts : List (RouteTree α)}

/-- Trees without empty chains. -/
inductive Populated : RouteTree α → Prop
  | leaf (a : α) : Populated (.leaf a)
  | chain {ts : List (RouteTree α)} (hne : ts ≠ []) (h : ∀ t ∈ ts, Populated t) : Populated (.chain ts)

/-- A score and the scores that it is the maximum of, from runs that report the same and leave the same world. -/
def Tops (top : Outcome W Int) (scores : Outcome W (List Int)) : Prop :=
  scores.answer.max? = some top.answer ∧ top.notes = scores.notes ∧ top.world = scores.world

theorem max?_cons_append {n : Int} {ns ms ms' : List Int} (hn : ns.max? = some n) (hm : ms.max? = ms'.max?) :
    (n :: ms).max? = (ns ++ ms').max? := by
  obtain ⟨hmem, hle⟩ := List.max?_eq_some_iff.mp hn
  rw [List.max?_cons, hm]
  apply Eq.symm
  cases hm' : ms'.max? with
  | none =>
    rw [List.max?_eq_none_iff.mp hm', List.append_nil]
    exact hn
  | some m =>
    obtain ⟨hmem', hle'⟩ := List.max?_eq_some_iff.mp hm'
    rw [List.max?_eq_some_iff]
    constructor
    · rcases Int.le_total m n with h | h
      · simp [Int.max_eq_left h, hmem]
      · simp [Int.max_eq_right h, hmem']
    · intro k hk
      rcases List.mem_append.mp hk with hk | hk
      · exact Int.le_trans (hle k hk) (Int.le_max_left n m)
      · exact Int.le_trans (hle' k hk) (Int.le_max_right n m)

/-- Where every member of a chain scores as the best of its leaves, the members have the maximum of all leaves. -/
theorem mapM_score_leaves
    (h : ∀ t ∈ ts, ∀ w, Tops ((t.toRoute f).score u w) (t.leaves.mapM (fun a => (f a).score u) w)) (w : W) :
    let tops := (ts.map (·.toRoute f)).mapM (·.score u) w
    let scores := (ts.flatMap leaves).mapM (fun a => (f a).score u) w
    tops.answer.max? = scores.answer.max? ∧ tops.notes = scores.notes ∧ tops.world = scores.world := by
  induction ts generalizing w with
  | nil => exact ⟨rfl, rfl, rfl⟩
  | cons t ts ih =>
    obtain ⟨ht, hts⟩ := List.forall_mem_cons.mp h
    obtain ⟨hmax, hnotes, hworld⟩ := ht w
    obtain ⟨hmaxs, hnotess, hworlds⟩ := ih hts ((t.toRoute f).score u w).world
    rw [hworld] at hmaxs hnotess hworlds
    rw [List.map_cons, List.mapM_cons, List.flatMap_cons, Run.mapM_append_apply]
    simp only [Run.bind_apply, Run.pure_apply, List.append_nil, hworld]
    exact ⟨max?_cons_append hmax hmaxs, by rw [hnotes, hnotess], hworlds⟩

theorem Populated.tops (hp : t.Populated) (w : W) :
    Tops ((t.toRoute f).score u w) (t.leaves.mapM (fun a => (f a).score u) w) := by
  induction t generalizing w with
  | leaf a => exact ⟨rfl, (List.append_nil _).symm, rfl⟩
  | chain ts ih =>
    cases hp with
    | chain hne hp =>
      obtain ⟨hmax, hnotes, hworld⟩ := mapM_score_leaves (fun t ht w => ih t ht (hp t ht) w) w
      have hscores : ((ts.map (·.toRoute f)).mapM (·.score u) w).answer ≠ [] := by
        rw [← List.length_pos_iff, Route.length_answer_mapM, List.length_map]
        exact List.length_pos_iff.mpr hne
      obtain ⟨n, hn⟩ := Option.ne_none_iff_exists'.mp fun hnone => hscores (List.max?_eq_none_iff.mp hnone)
      rw [toRoute_chain, leaves_chain, Tops, ← hmax, ← hnotes, ← hworld, Route.chain]
      dsimp only
      rw [Run.bind_apply, hn]
      exact ⟨rfl, List.append_nil _, rfl⟩

/-- Beside a record, members score as they do without. -/
theorem level_attended {members : List (RouteTree α)} (h : Route.Level u (members.map (·.toRoute f))) :
    Route.Level u (members.map (attended f)) where
  world_eq r hr s := by
    obtain ⟨m, hm, rfl⟩ := List.mem_map.mp hr
    rw [score_attended]
    exact Prod.ext (h.world_eq _ (List.mem_map_of_mem hm) s.1) rfl
  answer_eq r hr r' hr' s := by
    obtain ⟨m, hm, rfl⟩ := List.mem_map.mp hr
    obtain ⟨m', hm', rfl⟩ := List.mem_map.mp hr'
    rw [score_attended, score_attended]
    exact h.answer_eq _ (List.mem_map_of_mem hm) _ (List.mem_map_of_mem hm') s.1

theorem silent_dispatch_nested {members : List (RouteTree α)} (h : Route.Level u (members.map (·.toRoute f)))
    (before after : List (RouteTree α)) :
    (((chain (before ++ chain members :: after)).toRoute f).dispatch u).silent =
      (((chain (before ++ members ++ after)).toRoute f).dispatch u).silent := by
  simp only [toRoute_chain, List.map_append, List.map_cons]
  exact h.silent_dispatch_nested _ _

theorem visits_nested {members : List (RouteTree α)} (h : Route.Level u (members.map (·.toRoute f)))
    (before after : List (RouteTree α)) (w : W) : ∃ asked,
    (chain (before ++ chain members :: after)).Visits f u w asked ∧
      (chain (before ++ members ++ after)).Visits f u w asked := by
  -- the record is a part of the world that is left
  have hrecord : (((chain (before ++ chain members :: after)).attended f).dispatch u).silent =
      (((chain (before ++ members ++ after)).attended f).dispatch u).silent := by
    simp only [attended_chain, List.map_append, List.map_cons]
    exact (level_attended h).silent_dispatch_nested _ _
  have hworld := congrArg (fun run => (run (w, [])).world.2) hrecord
  refine ⟨_, visits f u _ w, ?_⟩
  exact hworld ▸ visits f u (chain (before ++ members ++ after)) w

/-- A handler gets its address from a tree as from the chain of all leaves, from left to right. A tree without
empty chains fits an address as well as the best of its leaves. A chain within a chain makes no difference to
an address if its members score the same for it, as they do if there is one of them or none: the answer stays,
and so do the leaves that are asked and their order. -/
theorem nesting (f : α → Route W) :
    (∀ (t : RouteTree α) h, ((t.toRoute f).link h).quiet = ((Route.chain (t.leaves.map f)).link h).quiet) ∧
    (∀ t : RouteTree α, t.Populated → ∀ u w,
      let scores := t.leaves.mapM (fun a => (f a).score u) w
      ∃ n, scores.answer.max? = some n ∧ (t.toRoute f).score u w = ⟨n, scores.notes, scores.world⟩) ∧
    (∀ (before members after : List (RouteTree α)) u, Route.Level u (members.map (·.toRoute f)) →
      let nested := chain (before ++ chain members :: after)
      let flat := chain (before ++ members ++ after)
      ((nested.toRoute f).dispatch u).silent = ((flat.toRoute f).dispatch u).silent ∧
      ∀ w, ∃ asked, nested.Visits f u w asked ∧ flat.Visits f u w asked) ∧
    ∀ u, Route.Level u ([] : List (Route W)) ∧
      ∀ r : Route W, (∀ w, (r.score u w).world = w) → Route.Level u [r] := by
  refine ⟨fun t h => ?_, fun t hp u w => ?_, fun before members after u h => ⟨?_, ?_⟩,
    fun u => ⟨.nil u, fun r => .singleton⟩⟩
  · rw [quiet_toRoute_link, Route.quiet_chain_link, List.map_map]
    rfl
  · obtain ⟨hmax, hnotes, hworld⟩ := hp.tops (f := f) (u := u) w
    exact ⟨_, hmax, by rw [← hnotes, ← hworld]⟩
  · exact silent_dispatch_nested h before after
  · exact visits_nested h before after

section
open Route.Rivals

/-- Two of one score in a chain of their own, behind others. -/
def rivals : RouteTree (Route Unit) := .chain [.leaf low, .leaf high, .chain [.leaf mid, .leaf tie]]

theorem nesting_rivals :
    rivals.Populated ∧ ((rivals.toRoute id).score url ()).answer = 5 ∧
      Route.Level url [mid, tie] ∧ rivals.Visits id url () [(high, ()), (mid, ())] ∧
      (∀ w, (low.score url w).world = w) ∧ Route.Level url [low] := by
  have hp : rivals.Populated := by
    refine .chain (List.cons_ne_nil _ _) ?_
    simp only [List.forall_mem_cons, List.not_mem_nil, false_implies, implies_true, and_true]
    refine ⟨.leaf low, .leaf high, .chain (List.cons_ne_nil _ _) ?_⟩
    simp only [List.forall_mem_cons, List.not_mem_nil, false_implies, implies_true, and_true]
    exact ⟨.leaf mid, .leaf tie⟩
  have hlevel : Route.Level url [mid, tie] := by
    apply Route.Level.of_pure (n := 2)
    intro r hr
    rcases List.mem_cons.mp hr with rfl | hr
    · rfl
    · rw [List.mem_singleton.mp hr]
      rfl
  have hasked : (((chain [leaf low, leaf high, leaf mid, leaf tie]).attended id).dispatch url ((), [])).world.2 =
      [(high, ()), (mid, ())] := by
    have hscores : (([leaf low, leaf high, leaf mid, leaf tie].map (attended id)).mapM
        fun r : Route (Unit × List (Route Unit × Unit)) => r.score url) ((), []) =
          ⟨[-1, 5, 2, 2], [], ((), [])⟩ := rfl
    have horder : Candidate.standings [leaf low, leaf high, leaf mid, leaf tie] [-1, 5, 2, 2] =
        [((leaf high, 1), 5), ((leaf mid, 2), 2), ((leaf tie, 3), 2), ((leaf low, 0), -1)] := by
      simp [Candidate.standings, List.mergeSort]
    rw [attended_chain, Route.chain_dispatch_standings, Run.bind_world, hscores]
    dsimp only
    rw [horder]
    rfl
  obtain ⟨-, hscore, hnested, hfew⟩ := nesting (id : Route Unit → Route Unit)
  obtain ⟨n, hn, hs⟩ := hscore rivals hp url ()
  obtain ⟨-, hvisits⟩ := hnested [.leaf low, .leaf high] [.leaf mid, .leaf tie] [] url hlevel
  obtain ⟨asked, ha, hb⟩ := hvisits ()
  refine ⟨hp, ?_, hlevel, ?_, fun _ => rfl, (hfew url).2 low fun _ => rfl⟩
  · rw [hs]
    cases hn
    rfl
  · have hflat : asked = [(high, ()), (mid, ())] := (congrArg (fun o => o.world.2) hb).symm.trans hasked
    exact hflat ▸ ha

end

end RouteTree
end PageRouting
