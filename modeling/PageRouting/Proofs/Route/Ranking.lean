import PageRouting.Proofs.Route.Chain

/-! How the members of a chain are ranked for an address. Those of one score stay in the order of the chain, and
how they stand to members of other scores makes no difference. -/
namespace PageRouting

variable {W : Type}

namespace Candidate
variable {c d : Candidate W} {cs cs' : List (Candidate W)}

/-- Higher scores come first, and of equal ones those that stand before. -/
def Ahead (c d : Candidate W) : Prop := d.score < c.score ∨ d.score = c.score ∧ c.index < d.index

theorem Ahead.asymm (h : c.Ahead d) : ¬ d.Ahead c := by
  unfold Ahead at *
  omega

theorem perm_ranked (cs : List (Candidate W)) : (ranked cs).Perm cs := List.mergeSort_perm cs _

/-- Ranking leaves candidates of one score in their order. -/
theorem filter_ranked (n : Int) (cs : List (Candidate W)) :
    (ranked cs).filter (·.score = n) = cs.filter (·.score = n) :=
  filter_mergeSort_by Candidate.score n cs

theorem pairwise_ahead_ranked (h : cs.Pairwise fun c d => c.index < d.index) : (ranked cs).Pairwise Ahead := by
  rw [List.pairwise_iff_forall_sublist]
  intro c d hcd
  have hscore : d.score ≤ c.score := List.pairwise_iff_forall_sublist.mp (pairwise_ranked cs) hcd
  rcases Int.lt_or_eq_of_le hscore with hlt | heq
  · exact .inl hlt
  · have hclass : [c, d].Sublist (cs.filter (·.score = c.score)) := by
      rw [← filter_ranked]
      simpa [heq] using hcd.filter (·.score = c.score)
    exact .inr ⟨heq, List.pairwise_iff_forall_sublist.mp (h.filter _) hclass⟩

/-- The members of a chain with their positions and the scores that they gave. -/
def members (routes : List (Route W)) (scores : List Int) : List (Candidate W) :=
  (routes.zipIdx.zip scores).map fun m => ⟨m.2, m.1.2, m.1.1⟩

theorem scored_apply (u : Url) (routes : List (Route W)) (w : W) :
    let scores := routes.mapM (·.score u) w
    scored u routes w = ⟨members routes scores.answer, scores.notes, scores.world⟩ := by
  have hfrom (n : Nat) (w : W) :
      ((routes.zipIdx n).mapM fun (m : Route W × Nat) => do return (⟨← m.1.score u, m.2, m.1⟩ : Candidate W)) w =
        ⟨((routes.zipIdx n).zip (routes.mapM (·.score u) w).answer).map fun m => ⟨m.2, m.1.2, m.1.1⟩,
          (routes.mapM (·.score u) w).notes, (routes.mapM (·.score u) w).world⟩ := by
    induction routes generalizing n w with
    | nil => rfl
    | cons r routes ih =>
      simp only [List.zipIdx_cons, List.mapM_cons, Run.bind_apply, Run.pure_apply, ih, List.zip_cons_cons,
        List.map_cons, List.append_nil]
  exact hfrom 0 w

theorem pairwise_members {routes : List (Route W)} {scores : List Int} (h : scores.length = routes.length) :
    (members routes scores).Pairwise fun c d => c.index < d.index := by
  have hindex : (members routes scores).map (·.index) = List.range routes.length := by
    have hfst : (routes.zipIdx.zip scores).map Prod.fst = routes.zipIdx :=
      List.map_fst_zip (by simp [h])
    have hmap : (members routes scores).map (·.index) = ((routes.zipIdx.zip scores).map Prod.fst).map Prod.snd := by
      simp [members]
    rw [hmap, hfst, List.zipIdx_map_snd, List.range_eq_range']
  rw [← List.pairwise_map, hindex]
  exact List.pairwise_lt_range

/-- The routes of each score, in their order. -/
def classOf (n : Int) (cs : List (Candidate W)) : List (Route W) := (cs.filter (·.score = n)).map (·.route)

/-- Candidates that stand by descending score are known by their classes. -/
theorem map_route_eq (hs : cs.Pairwise fun a b => b.score ≤ a.score) (hs' : cs'.Pairwise fun a b => b.score ≤ a.score)
    (h : ∀ n, classOf n cs = classOf n cs') : cs.map (·.route) = cs'.map (·.route) := by
  have hclass (n : Int) (cs : List (Candidate W)) :
      (cs.map fun c => (c.score, c.route)).filter (·.1 = n) = (classOf n cs).map (Prod.mk n) := by
    rw [List.filter_map, classOf, List.map_map]
    apply List.map_congr_left
    intro c hc
    simpa using of_decide_eq_true (List.mem_filter.mp hc).2
  have hpairs : (cs.map fun c => (c.score, c.route)) = cs'.map fun c => (c.score, c.route) := by
    apply eq_of_filter_key Prod.fst (List.pairwise_map.mpr hs) (List.pairwise_map.mpr hs')
    intro n
    rw [hclass, hclass, h]
  have hroutes := congrArg (List.map Prod.snd) hpairs
  rwa [List.map_map, List.map_map] at hroutes

theorem map_route_ranked_eq (h : ∀ n, classOf n cs = classOf n cs') :
    (ranked cs).map (·.route) = (ranked cs').map (·.route) := by
  apply map_route_eq (pairwise_ranked cs) (pairwise_ranked cs')
  intro n
  rw [classOf, classOf, filter_ranked, filter_ranked]
  exact h n

end Candidate

end PageRouting
