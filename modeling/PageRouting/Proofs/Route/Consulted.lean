import PageRouting.Proofs.Route.Chain
import PageRouting.Proofs.Run

/-! Which leaves of a tree of chains are asked. Handlers ask them from left to right, addresses by the scores
at every chain on the way down, and both only up to the first leaf that answers. -/
namespace PageRouting

variable {W W' : Type}

namespace Run
variable {α β : Type} {w : W}

theorem calls_quiet (r : Run W β) (w : W) : (r.quiet w).calls = (r w).calls := by
  rw [quiet, Outcome.calls, List.filterMap_map]
  exact List.filterMap_some

section
variable {r s : Run W (Option β)}

theorem orElse_calls_of_some {b : β} (h : (r w).answer = some b) : (r.orElse s w).calls = (r w).calls := by
  rw [orElse, calls_bind, h]
  exact List.append_nil _

theorem orElse_calls_of_none (h : (r w).answer = none) :
    (r.orElse s w).calls = (r w).calls ++ (s (r w).world).calls := by
  rw [orElse, calls_bind, h]

theorem orElse_world_of_some {b : β} (h : (r w).answer = some b) : (r.orElse s w).world = (r w).world := by
  rw [orElse, bind_world, h]
  rfl

end

/-- Who is asked of a list: the first ones, up to one that answers. -/
def consulted (f : α → Run W (Option β)) : List α → W → List α
  | [], _ => []
  | a :: as, w => a :: if (f a w).answer.isSome then [] else consulted f as (f a w).world

section
variable {f : α → Run W (Option β)} {a : α}

theorem consulted_cons_of_some {b : β} (h : (f a w).answer = some b) (as : List α) :
    consulted f (a :: as) w = [a] := by
  rw [consulted, h]
  rfl

theorem consulted_cons_of_none (h : (f a w).answer = none) (as : List α) :
    consulted f (a :: as) w = a :: consulted f as (f a w).world := by
  rw [consulted, h]
  rfl

theorem consulted_quiet (as : List α) (w : W) : consulted (fun a => (f a).quiet) as w = consulted f as w := by
  induction as generalizing w with
  | nil => rfl
  | cons a as ih => exact congrArg (a :: if (f a w).answer.isSome then [] else ·) (ih _)

/-- Where everyone makes the same calls in any world, these are the calls of all who are asked. -/
theorem calls_firstAnswer {c : α → List Call} (hc : ∀ a w, (f a w).calls = c a) (as : List α) (w : W) :
    (firstAnswer (as.map f) w).calls = (consulted f as w).flatMap c := by
  induction as generalizing w with
  | nil => rfl
  | cons a as ih =>
    rw [List.map_cons, firstAnswer_cons]
    cases h : (f a w).answer with
    | some b => rw [orElse_calls_of_some h, consulted_cons_of_some h, hc, List.flatMap_singleton]
    | none => rw [orElse_calls_of_none h, consulted_cons_of_none h, hc, ih, List.flatMap_cons]

/-- The world is left as after all who are asked, one after the other. -/
theorem world_firstAnswer {g : α → W → W} (hg : ∀ a w, (f a w).world = g a w) (as : List α) (w : W) :
    (firstAnswer (as.map f) w).world = (consulted f as w).foldl (fun w a => g a w) w := by
  induction as generalizing w with
  | nil => rfl
  | cons a as ih =>
    rw [List.map_cons, firstAnswer_cons]
    cases h : (f a w).answer with
    | some b =>
      rw [orElse_world_of_some h, consulted_cons_of_some h, hg]
      rfl
    | none =>
      rw [orElse_world_of_none h, consulted_cons_of_none h, ih, hg]
      rfl

theorem alike_firstAnswer {R : W → W' → Prop} {f' : α → Run W' (Option β)} (hf : ∀ a, Alike R (f a) (f' a))
    (as : List α) : Alike R (firstAnswer (as.map f)) (firstAnswer (as.map f')) := by
  induction as with
  | nil => exact (yields_pure none).alike (yields_pure none)
  | cons a as ih =>
    refine (hf a).bind fun b => ?_
    cases b with
    | some b => exact (yields_pure _).alike (yields_pure _)
    | none => exact ih

/-- Runs that ask the members of a list for an answer, and report events of their own. -/
def Asks (r : Run W (Option β)) (f : α → Run W (Option β)) (as : List α) : Prop :=
  r.quiet = firstAnswer (as.map fun a => (f a).quiet)

namespace Asks
variable {r : Run W (Option β)} {as : List α}

theorem calls (h : r.Asks f as) {c : α → List Call} (hc : ∀ a w, (f a w).calls = c a) (w : W) :
    (r w).calls = (consulted f as w).flatMap c := by
  rw [← calls_quiet, h, calls_firstAnswer fun a w => (calls_quiet (f a) w).trans (hc a w), consulted_quiet]

theorem world (h : r.Asks f as) {g : α → W → W} (hg : ∀ a w, (f a w).world = g a w) (w : W) :
    (r w).world = (consulted f as w).foldl (fun w a => g a w) w := by
  have hquiet : ∀ a w, ((f a).quiet w).world = g a w := hg
  change (r.quiet w).world = _
  rw [h, world_firstAnswer hquiet, consulted_quiet]

theorem alike {R : W → W' → Prop} (h : r.Asks f as) {r' : Run W' (Option β)} {f' : α → Run W' (Option β)}
    (h' : r'.Asks f' as) (hf : ∀ a, Alike R (f a) (f' a)) : Alike R r r' := by
  have hquiet : ∀ a, Alike R (f a).quiet (f' a).quiet := hf
  change Alike R r.quiet r'.quiet
  rw [h, h']
  exact alike_firstAnswer hquiet as

end Asks
end
end Run

namespace Candidate

theorem quiet_dispatch (u : Url) (cs : List (Candidate W)) :
    (dispatch u cs).quiet = Run.firstAnswer (cs.map fun c => (c.route.dispatch u).quiet) := by
  induction cs with
  | nil => rfl
  | cons c cs ih =>
    rw [List.map_cons, Run.firstAnswer_cons, ← ih, dispatch, Run.quiet_bind]
    exact Run.bind_congr_option rfl fun _ => rfl

end Candidate

namespace Route
variable {β : Type} {f : β → Route W} {g : β → Int} {u : Url}

/-- A chain asks its members by descending score, and those of one score in their order. -/
theorem quiet_chain_dispatch (hg : ∀ b, (f b).score u = pure (g b)) (bs : List β) :
    ((chain (bs.map f)).dispatch u).quiet =
      Run.firstAnswer ((bs.mergeSort fun a b => g b ≤ g a).map fun b => ((f b).dispatch u).quiet) := by
  -- candidates carry the scores that their routes have, so that both are sorted alike
  have hcandidates : Candidate.ranked (bs.zipIdx.map fun b => (⟨g b.1, b.2, f b.1⟩ : Candidate W)) =
      (bs.zipIdx.mergeSort fun a b => g b.1 ≤ g a.1).map fun b => ⟨g b.1, b.2, f b.1⟩ :=
    (map_mergeSort_by Candidate.score _ _).symm
  have hmembers : (bs.zipIdx.mergeSort fun a b => g b.1 ≤ g a.1).map Prod.fst =
      bs.mergeSort fun a b => g b ≤ g a := by
    rw [map_mergeSort_by g Prod.fst, List.zipIdx_map_fst]
  rw [chain_dispatch_map hg, hcandidates, Candidate.quiet_dispatch, List.map_map, ← hmembers, List.map_map]
  rfl

end Route

namespace RouteTree
variable {α : Type}

mutual

/-- The leaves in the order in which an address asks them, given their scores for it. -/
def order (g : α → Int) : RouteTree α → List α
  | .leaf a => [a]
  | .chain ts => ((scoredOrders g ts).mergeSort fun a b => b.1 ≤ a.1).flatMap Prod.snd

def scoredOrders (g : α → Int) : List (RouteTree α) → List (Int × List α)
  | [] => []
  | t :: ts => (t.score g, t.order g) :: scoredOrders g ts

end

theorem order_chain (g : α → Int) (ts : List (RouteTree α)) :
    (chain ts).order g = (ts.mergeSort fun a b => b.score g ≤ a.score g).flatMap (order g) := by
  have hscored : scoredOrders g ts = ts.map fun t => (t.score g, t.order g) := by
    induction ts with
    | nil => rfl
    | cons t ts ih => rw [scoredOrders, ih, List.map_cons]
  rw [order, hscored, ← map_mergeSort_by Prod.fst, List.flatMap_map]

theorem asks_link (f : α → Route W) (t : RouteTree α) (h : Handler) :
    ((t.toRoute f).link h).Asks (fun a => (f a).link h) t.leaves :=
  quiet_toRoute_link f t h

/-- Down to the leaves, an address is answered by the first leaf in order that answers it. -/
theorem asks_dispatch {f : α → Route W} {g : α → Int} {u : Url} (hg : ∀ a, (f a).score u = pure (g a))
    (t : RouteTree α) : ((t.toRoute f).dispatch u).Asks (fun a => (f a).dispatch u) (t.order g) := by
  induction t with
  | leaf a => exact (Run.orElse_pure_none _).symm
  | chain ts ih =>
    rw [Run.Asks, toRoute_chain, Route.quiet_chain_dispatch (toRoute_score hg), order_chain]
    exact Run.firstAnswer_flatMap fun t ht => ih t (List.mem_mergeSort.mp ht)

end RouteTree
end PageRouting
