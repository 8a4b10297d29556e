import PageRouting.Proofs.Sorting
import PageRouting.Route.Chain

/-! Chains within chains. Handlers go through the leaves from left to right, and addresses to leaves that
fit best. -/
namespace PageRouting

variable {W : Type}

namespace Run
variable {α β : Type} {w : W} {a : α}

/-- What a run does but for the events that it reports. -/
def quiet (r : Run W α) : Run W α := fun w => { r w with notes := (r w).calls.map .call }

theorem quiet_bind (r : Run W α) (f : α → Run W β) : quiet (r >>= f) = quiet r >>= fun a => quiet (f a) := by
  funext w
  simp [quiet, bind_apply, Outcome.calls]

/-- What follows a run depends on whether it answers, and on the answer. -/
theorem bind_congr_option {r : Run W (Option α)} {f g : Option α → Run W β} (hn : f none = g none)
    (hs : ∀ a, f (some a) = g (some a)) : r >>= f = r >>= g := by
  congr
  funext answer
  cases answer with
  | none => exact hn
  | some a => exact hs a

/-- Another run where one answers nothing. -/
def orElse (r s : Run W (Option α)) : Run W (Option α) := do
  match ← r with
  | some a => return some a
  | none => s

theorem pure_none_orElse (r : Run W (Option α)) : orElse (pure none) r = r := rfl

theorem orElse_pure_none (r : Run W (Option α)) : orElse r (pure none) = r := by
  have hpure : r.orElse (pure none) = r >>= pure := bind_congr_option rfl fun _ => rfl
  rw [hpure, bind_pure]

theorem orElse_assoc (r s t : Run W (Option α)) : (r.orElse s).orElse t = r.orElse (s.orElse t) := by
  rw [orElse, orElse, bind_assoc]
  exact bind_congr_option rfl fun _ => rfl

instance : Std.Associative (orElse (W := W) (α := α)) := ⟨orElse_assoc⟩

section
variable {r : Run W (Option α)}

theorem orElse_answer_of_some (h : (r w).answer = some a) (s : Run W (Option α)) :
    (r.orElse s w).answer = some a := by
  rw [orElse, bind_answer, h]
  rfl

theorem orElse_answer_of_none (h : (r w).answer = none) (s : Run W (Option α)) :
    (r.orElse s w).answer = (s (r w).world).answer := by
  rw [orElse, bind_answer, h]

theorem orElse_world_of_none (h : (r w).answer = none) (s : Run W (Option α)) :
    (r.orElse s w).world = (s (r w).world).world := by
  rw [orElse, bind_world, h]

end

/-- One run after another, up to the first that answers. -/
def firstAnswer (rs : List (Run W (Option α))) : Run W (Option α) := rs.foldr orElse (pure none)

theorem firstAnswer_cons (r : Run W (Option α)) (rs : List (Run W (Option α))) :
    firstAnswer (r :: rs) = r.orElse (firstAnswer rs) := rfl

theorem firstAnswer_append (rs ss : List (Run W (Option α))) :
    firstAnswer (rs ++ ss) = (firstAnswer rs).orElse (firstAnswer ss) := by
  rw [firstAnswer, List.foldr_append, ← firstAnswer, ← pure_none_orElse (firstAnswer ss), List.foldr_assoc]
  rfl

/-- Where every member of a list stands for runs of its own, these can be asked in its place. -/
theorem firstAnswer_flatMap {β τ : Type} {f : β → Run W (Option α)} {g : τ → Run W (Option α)} {members : τ → List β}
    {ts : List τ} (h : ∀ t ∈ ts, g t = firstAnswer ((members t).map f)) :
    firstAnswer (ts.map g) = firstAnswer ((ts.flatMap members).map f) := by
  induction ts with
  | nil => rfl
  | cons t ts ih =>
    obtain ⟨ht, hts⟩ := List.forall_mem_cons.mp h
    rw [List.map_cons, firstAnswer_cons, ih hts, List.flatMap_cons, List.map_append, firstAnswer_append, ht]

theorem firstAnswer_eq_some_iff {rs : List (Run W (Option α))} :
    (firstAnswer rs w).answer = some a ↔ ∃ before r after, rs = before ++ r :: after ∧
      (firstAnswer before w).answer = none ∧ (r (firstAnswer before w).world).answer = some a := by
  constructor
  · intro h
    induction rs generalizing w with
    | nil => cases h
    | cons r rs ih =>
      cases hr : (r w).answer with
      | some b =>
        rw [firstAnswer_cons, orElse_answer_of_some hr] at h
        exact ⟨[], r, rs, rfl, rfl, hr.trans h⟩
      | none =>
        rw [firstAnswer_cons, orElse_answer_of_none hr] at h
        obtain ⟨before, s, after, rfl, hb, hs⟩ := ih h
        refine ⟨r :: before, s, after, rfl, ?_, ?_⟩
        · rw [firstAnswer_cons, orElse_answer_of_none hr, hb]
        · rw [firstAnswer_cons, orElse_world_of_none hr, hs]
  · rintro ⟨before, r, after, rfl, hb, hr⟩
    rw [firstAnswer_append, orElse_answer_of_none hb, firstAnswer_cons, orElse_answer_of_some hr]

end Run

namespace Route

theorem quiet_linkFirst (h : Handler) (routes : List (Route W × Nat)) :
    (linkFirst h routes).quiet = Run.firstAnswer (routes.map fun r => (r.1.link h).quiet) := by
  induction routes with
  | nil => rfl
  | cons r routes ih =>
    rw [List.map_cons, Run.firstAnswer_cons, ← ih, linkFirst, Run.quiet_bind]
    exact Run.bind_congr_option rfl fun _ => rfl

theorem quiet_chain_link (routes : List (Route W)) (h : Handler) :
    ((chain routes).link h).quiet = Run.firstAnswer (routes.map fun r => (r.link h).quiet) := by
  have hfst : routes.map (fun r => (r.link h).quiet) =
      routes.zipIdx.map ((fun r => (r.link h).quiet) ∘ Prod.fst) := by
    rw [← List.map_map, List.zipIdx_map_fst]
  rw [hfst]
  exact quiet_linkFirst h routes.zipIdx

end Route

namespace Candidate
variable {c : Candidate W} {cs rest : List (Candidate W)} {u : Url} {w : W} {h : Handler}

theorem mem_ranked : c ∈ ranked cs ↔ c ∈ cs := List.mem_mergeSort

theorem pairwise_ranked (cs : List (Candidate W)) : (ranked cs).Pairwise fun a b => b.score ≤ a.score :=
  pairwise_mergeSort_by Candidate.score cs

/-- Who is asked first has the highest score. -/
theorem score_le_of_ranked (hr : ranked cs = c :: rest) : ∀ d ∈ cs, d.score ≤ c.score := by
  have hsorted := pairwise_ranked cs
  intro d hd
  rw [← mem_ranked, hr] at hd
  rw [hr] at hsorted
  cases hd with
  | head => exact Int.le_refl _
  | tail _ hd => exact List.rel_of_pairwise_cons hsorted hd

theorem dispatch_cons_of_answer (hc : (c.route.dispatch u w).answer = some h) :
    (dispatch u (c :: cs) w).answer = some h := by
  rw [dispatch, Run.bind_answer, hc]
  rfl

variable {β : Type} {f : β → Route W} {g : β → Int}

/-- Candidates of known scores. -/
theorem scored_map (hg : ∀ b, (f b).score u = pure (g b)) (bs : List β) :
    scored u (bs.map f) = pure (bs.zipIdx.map fun b => ⟨g b.1, b.2, f b.1⟩) := by
  have hscore : (fun b : β × Nat => do return (⟨← (f b.1).score u, b.2, f b.1⟩ : Candidate W)) =
      fun b => (pure ⟨g b.1, b.2, f b.1⟩ : Run W (Candidate W)) := by
    funext b
    rw [hg]
    rfl
  rw [scored, List.zipIdx_map, List.mapM_map, ← List.mapM_pure, ← hscore]
  rfl

end Candidate

namespace Route
variable {β : Type} {f : β → Route W} {g : β → Int} {u : Url}

theorem chain_dispatch_map (hg : ∀ b, (f b).score u = pure (g b)) (bs : List β) :
    (chain (bs.map f)).dispatch u =
      Candidate.dispatch u (Candidate.ranked (bs.zipIdx.map fun b => ⟨g b.1, b.2, f b.1⟩)) := by
  rw [chain]
  dsimp only
  rw [Candidate.scored_map hg]
  rfl

/-- A chain first asks a member of the highest score. -/
theorem exists_best_of_chain {bs : List β} (hg : ∀ b, (f b).score u = pure (g b)) (hne : bs ≠ []) :
    ∃ b ∈ bs, (∀ c ∈ bs, g c ≤ g b) ∧ ∀ w h, ((f b).dispatch u w).answer = some h →
      ((chain (bs.map f)).dispatch u w).answer = some h := by
  cases hr : Candidate.ranked (bs.zipIdx.map fun b => (⟨g b.1, b.2, f b.1⟩ : Candidate W)) with
  | nil =>
    have hlength := congrArg List.length hr
    rw [Candidate.ranked, List.length_mergeSort, List.length_map, List.length_zipIdx] at hlength
    exact absurd (List.eq_nil_of_length_eq_zero hlength) hne
  | cons first rest =>
    have hfirst := Candidate.mem_ranked.mp (hr ▸ List.mem_cons_self)
    have hbest := Candidate.score_le_of_ranked hr
    obtain ⟨⟨b, i⟩, hb, rfl⟩ := List.mem_map.mp hfirst
    refine ⟨b, List.fst_mem_of_mem_zipIdx hb, fun c hc => ?_, fun w h hw => ?_⟩
    · obtain ⟨j, hj⟩ := List.getElem?_of_mem hc
      exact hbest _ (List.mem_map_of_mem (List.mk_mem_zipIdx_iff_getElem?.mpr hj))
    · rw [chain_dispatch_map hg, hr]
      exact Candidate.dispatch_cons_of_answer hw

end Route

namespace RouteTree
variable {α : Type}

theorem toRoute_chain (f : α → Route W) (ts : List (RouteTree α)) :
    (chain ts).toRoute f = .chain (ts.map (·.toRoute f)) := by
  have hroutes : toRoutes f ts = ts.map (·.toRoute f) := by
    induction ts with
    | nil => rfl
    | cons t ts ih => rw [toRoutes, ih, List.map_cons]
  rw [toRoute, hroutes]

theorem leaves_chain (ts : List (RouteTree α)) : (chain ts).leaves = ts.flatMap leaves := by
  have hleaves : leavesOf ts = ts.flatMap leaves := by
    induction ts with
    | nil => rfl
    | cons t ts ih => rw [leavesOf, ih, List.flatMap_cons]
  rw [leaves, hleaves]

/-- For a chain, what is to be shown may be assumed of its members. -/
@[elab_as_elim, induction_eliminator]
theorem induct {motive : RouteTree α → Prop} (leaf : ∀ a, motive (.leaf a))
    (chain : ∀ ts, (∀ t ∈ ts, motive t) → motive (.chain ts)) (t : RouteTree α) : motive t :=
  @RouteTree.rec α motive (fun ts => ∀ t ∈ ts, motive t) leaf chain (fun _ h => absurd h List.not_mem_nil)
    (fun _ _ ht hts => List.forall_mem_cons.mpr ⟨ht, hts⟩) t

/-- Chains within chains make no difference to handlers. -/
theorem quiet_toRoute_link (f : α → Route W) (t : RouteTree α) (h : Handler) :
    ((t.toRoute f).link h).quiet = Run.firstAnswer (t.leaves.map fun a => ((f a).link h).quiet) := by
  induction t with
  | leaf a => exact (Run.orElse_pure_none _).symm
  | chain ts ih =>
    rw [toRoute_chain, Route.quiet_chain_link, leaves_chain, List.map_map]
    exact Run.firstAnswer_flatMap ih

/-- The address of a handler is that of a leaf, after the leaves before it have been asked in vain. -/
theorem link_eq_some_iff {f : α → Route W} {t : RouteTree α} {h : Handler} {w : W} {u : Url} :
    ((t.toRoute f).link h w).answer = some u ↔ ∃ before a after asked, t.leaves = before ++ a :: after ∧
      (Route.chain (before.map f)).link h w = asked ∧ asked.answer = none ∧
      ((f a).link h asked.world).answer = some u := by
  have hchain (before : List α) : ((Route.chain (before.map f)).link h).quiet =
      Run.firstAnswer (before.map fun a => ((f a).link h).quiet) := by
    rw [Route.quiet_chain_link, List.map_map]
    rfl
  change (((t.toRoute f).link h).quiet w).answer = some u ↔ _
  rw [quiet_toRoute_link, Run.firstAnswer_eq_some_iff]
  constructor
  · rintro ⟨_, _, _, hsplit, hb, ha⟩
    obtain ⟨before, _, hleaves, rfl, hrest⟩ := List.map_eq_append_iff.mp hsplit
    obtain ⟨a, after, rfl, rfl, -⟩ := List.map_eq_cons_iff.mp hrest
    rw [← hchain] at hb ha
    exact ⟨before, a, after, _, hleaves, rfl, hb, ha⟩
  · rintro ⟨before, a, after, _, hleaves, rfl, hb, ha⟩
    refine ⟨before.map fun a => ((f a).link h).quiet, ((f a).link h).quiet,
      after.map fun a => ((f a).link h).quiet, ?_, ?_, ?_⟩
    · rw [hleaves, List.map_append, List.map_cons]
    · rw [← hchain]; exact hb
    · rw [← hchain]; exact ha

mutual

/-- The score of a tree, given those of its leaves. -/
def score (g : α → Int) : RouteTree α → Int
  | .leaf a => g a
  | .chain ts => (scores g ts).max?.getD 0

def scores (g : α → Int) : List (RouteTree α) → List Int
  | [] => []
  | t :: ts => t.score g :: scores g ts

end

theorem score_chain (g : α → Int) (ts : List (RouteTree α)) :
    (chain ts).score g = (ts.map (score g)).max?.getD 0 := by
  have hscores : scores g ts = ts.map (score g) := by
    induction ts with
    | nil => rfl
    | cons t ts ih => rw [scores, ih, List.map_cons]
  rw [score, hscores]

section
variable {f : α → Route W} {g : α → Int} {u : Url} {t : RouteTree α} {n : Int}

theorem toRoute_score (hg : ∀ a, (f a).score u = pure (g a)) (t : RouteTree α) :
    (t.toRoute f).score u = pure (t.score g) := by
  induction t with
  | leaf a => exact hg a
  | chain ts ih =>
    have hscores : (ts.map (·.toRoute f)).mapM (·.score u) = (pure (ts.map (score g)) : Run W (List Int)) := by
      induction ts with
      | nil => rfl
      | cons t ts ih' =>
        obtain ⟨ht, hts⟩ := List.forall_mem_cons.mp ih
        rw [List.map_cons, List.mapM_cons, ht, ih' hts]
        rfl
    rw [toRoute_chain, score_chain, Route.chain]
    dsimp only
    rw [hscores]
    rfl

theorem le_score {a : α} (ha : a ∈ t.leaves) : g a ≤ t.score g := by
  induction t with
  | leaf b => exact (List.mem_singleton.mp ha) ▸ Int.le_refl _
  | chain ts ih =>
    rw [leaves_chain] at ha
    obtain ⟨t, ht, ha⟩ := List.mem_flatMap.mp ha
    have hmem : t.score g ∈ ts.map (score g) := List.mem_map_of_mem ht
    rw [score_chain]
    cases hmax : (ts.map (score g)).max? with
    | none => exact absurd (List.max?_eq_none_iff.mp hmax) (List.ne_nil_of_mem hmem)
    | some n => exact Int.le_trans (ih t ht ha) ((List.max?_eq_some_iff.mp hmax).2 _ hmem)

theorem score_le (hn : 0 ≤ n) (h : ∀ a ∈ t.leaves, g a ≤ n) : t.score g ≤ n := by
  induction t with
  | leaf b => exact h b List.mem_cons_self
  | chain ts ih =>
    rw [leaves_chain] at h
    rw [score_chain]
    cases hmax : (ts.map (score g)).max? with
    | none => exact hn
    | some m =>
      obtain ⟨t, ht, rfl⟩ := List.mem_map.mp (List.max?_mem hmax)
      exact ih t ht fun a ha => h a (List.mem_flatMap.mpr ⟨t, ht, ha⟩)

theorem dispatch_of_score_eq {w : W} {h : Handler} (hg : ∀ a, (f a).score u = pure (g a)) (hn : 0 < n)
    (hbest : ∀ a ∈ t.leaves, g a = n → ((f a).dispatch u w).answer = some h) (hs : t.score g = n) :
    ((t.toRoute f).dispatch u w).answer = some h := by
  induction t with
  | leaf a => exact hbest a List.mem_cons_self hs
  | chain ts ih =>
    rw [leaves_chain] at hbest
    rw [score_chain] at hs
    have hmax : (ts.map (score g)).max? = some n := by
      cases hm : (ts.map (score g)).max? with
      | none => rw [hm] at hs; exact absurd hs (Int.ne_of_lt hn)
      | some m => rw [hm] at hs; exact congrArg some hs
    obtain ⟨hmem, hle⟩ := List.max?_eq_some_iff.mp hmax
    have hne : ts ≠ [] := fun he => List.ne_nil_of_mem hmem (he ▸ rfl)
    obtain ⟨t, ht, hfirst, hanswer⟩ := Route.exists_best_of_chain (toRoute_score hg) hne
    obtain ⟨t', ht', hn'⟩ := List.mem_map.mp hmem
    -- the member that is asked first scores as the whole chain does
    have hscore : t.score g = n :=
      Int.le_antisymm (hle _ (List.mem_map_of_mem ht)) (hn' ▸ hfirst t' ht')
    rw [toRoute_chain]
    exact hanswer w h (ih t ht (fun a ha => hbest a (List.mem_flatMap.mpr ⟨t, ht, ha⟩)) hscore)

/-- Where all leaves of the highest score answer the same, so does the tree. -/
theorem dispatch_of_best {w : W} {h : Handler} (hg : ∀ a, (f a).score u = pure (g a)) {a : α}
    (ha : a ∈ t.leaves) (hpos : 0 < g a) (hle : ∀ b ∈ t.leaves, g b ≤ g a)
    (hbest : ∀ b ∈ t.leaves, g b = g a → ((f b).dispatch u w).answer = some h) :
    ((t.toRoute f).dispatch u w).answer = some h :=
  have hscore : t.score g = g a := Int.le_antisymm (score_le (Int.le_of_lt hpos) hle) (le_score ha)
  dispatch_of_score_eq hg hpos hbest hscore

end

end RouteTree
end PageRouting
