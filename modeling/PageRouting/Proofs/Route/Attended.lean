import PageRouting.Proofs.Route.Overheard
import PageRouting.Proofs.Route.Ranking

/-! Trees beside a record of whom they ask. Each leaf that is asked for a handler or for an address is noted with the
world that it is asked in. Leaves do not know of the record, so that it is complete. -/
namespace PageRouting

variable {W R α : Type}

namespace Run
variable {β : Type}

/-- The same run beside a record, which it leaves alone. -/
def beside (r : Run W α) : Run (W × R) α := fun s => ⟨(r s.1).answer, (r s.1).notes, (r s.1).world, s.2⟩

/-- Runs that do what other runs do, whatever they record. -/
def Records (r' : Run (W × R) α) (r : Run W α) : Prop :=
  ∀ s, r s.1 = ⟨(r' s).answer, (r' s).notes, (r' s).world.1⟩

theorem records_pure (a : α) : Records (pure a : Run (W × R) α) (pure a) := fun _ => rfl

theorem records_beside (r : Run W α) : Records (r.beside : Run (W × R) α) r := fun _ => rfl

theorem records_log (e : Event) : Records (log e : Run (W × R) Unit) (log e) := fun _ => rfl

theorem Records.bind {r' : Run (W × R) α} {r : Run W α} (hr : Records r' r) {f' : α → Run (W × R) β}
    {f : α → Run W β} (hf : ∀ a, Records (f' a) (f a)) : Records (r' >>= f') (r >>= f) := by
  intro s
  rw [bind_apply, hr s]
  dsimp only
  rw [hf _ (r' s).world]
  rfl

end Run

namespace Candidate

/-- The members of a chain with their positions and scores, in the order in which they are asked. -/
def standings (ts : List α) (scores : List Int) : List ((α × Nat) × Int) :=
  (ts.zipIdx.zip scores).mergeSort fun a b => b.2 ≤ a.2

theorem ranked_members_map (f : α → Route W) (ts : List α) (scores : List Int) :
    ranked (members (ts.map f) scores) = (standings ts scores).map fun m => ⟨m.2, m.1.2, f m.1.1⟩ := by
  rw [members, List.zipIdx_map, List.zip_map_left, List.map_map, standings]
  exact (map_mergeSort_by Candidate.score _ _).symm

theorem records_dispatch {f' : α → Route (W × R)} {f : α → Route W} {u : Url} {ms : List ((α × Nat) × Int)}
    (hd : ∀ m ∈ ms, Run.Records ((f' m.1.1).dispatch u) ((f m.1.1).dispatch u)) :
    Run.Records (dispatch u (ms.map fun m => ⟨m.2, m.1.2, f' m.1.1⟩))
      (dispatch u (ms.map fun m => ⟨m.2, m.1.2, f m.1.1⟩)) := by
  induction ms with
  | nil => exact Run.records_pure none
  | cons m ms ih =>
    obtain ⟨hm, hms⟩ := List.forall_mem_cons.mp hd
    refine hm.bind fun answer => ?_
    cases answer with
    | none => exact ih hms
    | some h => exact (Run.records_log _).bind fun _ => Run.records_pure _

end Candidate

namespace Route
variable {f' : α → Route (W × R)} {f : α → Route W} {u : Url} {ts : List α}

theorem chain_dispatch_standings (f : α → Route W) (ts : List α) (u : Url) :
    (chain (ts.map f)).dispatch u = ((ts.map f).mapM fun r => r.score u) >>= fun scores =>
      Candidate.dispatch u ((Candidate.standings ts scores).map fun m => ⟨m.2, m.1.2, f m.1.1⟩) := by
  funext w
  rw [chain]
  simp only [Run.bind_apply, Candidate.scored_apply, Candidate.ranked_members_map]

section
variable (hs : ∀ t ∈ ts, (f' t).score u = ((f t).score u).beside)
include hs

theorem mapM_score_beside :
    ((ts.map f').mapM fun r => r.score u) = ((ts.map f).mapM fun r : Route W => r.score u).beside := by
  induction ts with
  | nil => rfl
  | cons t ts ih =>
    obtain ⟨ht, hts⟩ := List.forall_mem_cons.mp hs
    rw [List.map_cons, List.mapM_cons, ht, ih hts, List.map_cons, List.mapM_cons]
    rfl

theorem chain_score_beside : (chain (ts.map f')).score u = ((chain (ts.map f)).score u).beside := by
  rw [chain, chain]
  dsimp only
  rw [mapM_score_beside hs]
  rfl

theorem records_chain_dispatch (hd : ∀ t ∈ ts, Run.Records ((f' t).dispatch u) ((f t).dispatch u)) :
    Run.Records ((chain (ts.map f')).dispatch u) ((chain (ts.map f)).dispatch u) := by
  rw [chain_dispatch_standings, chain_dispatch_standings, mapM_score_beside hs]
  refine (Run.records_beside _).bind fun scores => Candidate.records_dispatch fun m hm => hd _ ?_
  exact List.fst_mem_of_mem_zipIdx (List.of_mem_zip (List.mem_mergeSort.mp hm)).1

end

/-- The same route beside a record of whom is asked. Scores are not noted. -/
def attended (r : Route W) (a : α) : Route (W × List (α × W)) where
  score u := (r.score u).beside
  dispatch u s := (r.dispatch u).overheard (a, s.1) s
  link h s := (r.link h).overheard (a, s.1) s

end Route

namespace RouteTree

/-- The route of a tree whose leaves are noted when they are asked. -/
def attended (f : α → Route W) (t : RouteTree α) : Route (W × List (α × W)) := t.toRoute fun a => (f a).attended a

/-- Whom a tree asks for the handler of an address, in order and each in the world of then. Beside the record the tree
does what it does without. -/
def Visits (f : α → Route W) (u : Url) (t : RouteTree α) (w : W) (asked : List (α × W)) : Prop :=
  let made := (t.toRoute f).dispatch u w
  (t.attended f).dispatch u (w, []) = ⟨made.answer, made.notes, made.world, asked⟩

theorem attended_chain (f : α → Route W) (ts : List (RouteTree α)) :
    (chain ts).attended f = .chain (ts.map (attended f)) := toRoute_chain _ ts

theorem score_attended (f : α → Route W) (t : RouteTree α) (u : Url) :
    (t.attended f).score u = ((t.toRoute f).score u).beside := by
  induction t with
  | leaf a => rfl
  | chain ts ih =>
    rw [attended_chain, toRoute_chain]
    exact Route.chain_score_beside ih

theorem score_attended_of_pure {f : α → Route W} {u : Url} {g : α → Int} (hg : ∀ a, (f a).score u = pure (g a))
    (t : RouteTree α) : (t.attended f).score u = pure (t.score g) := by
  rw [score_attended, toRoute_score hg]
  rfl

theorem records_dispatch (f : α → Route W) (t : RouteTree α) (u : Url) :
    Run.Records ((t.attended f).dispatch u) ((t.toRoute f).dispatch u) := by
  induction t with
  | leaf a => exact fun _ => rfl
  | chain ts ih =>
    rw [attended_chain, toRoute_chain]
    exact Route.records_chain_dispatch (fun t _ => score_attended f t u) ih

theorem visits (f : α → Route W) (u : Url) (t : RouteTree α) (w : W) :
    t.Visits f u w ((t.attended f).dispatch u (w, [])).world.2 := by
  rw [Visits, records_dispatch f t u (w, [])]

end RouteTree
end PageRouting
