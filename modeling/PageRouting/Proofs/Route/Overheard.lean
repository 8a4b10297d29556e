import PageRouting.Proofs.Route.Consulted

/-! Chains beside a record of what their members are asked. Members do not know of the record, so that it is
complete. -/
namespace PageRouting

variable {W : Type}

/-- What is asked of a member of a chain, by its position. -/
inductive Inquiry
  | score (index : Nat)
  | dispatch (index : Nat)
  | link (index : Nat)

namespace Run
variable {α α' β β' γ : Type}

/-- The same run beside a record, to which it first adds an entry. -/
def overheard (b : γ) (r : Run W α) : Run (W × List γ) α := fun s =>
  ⟨(r s.1).answer, (r s.1).notes, (r s.1).world, s.2 ++ [b]⟩

/-- Runs beside a record that do what other runs do without one, up to a translation of the answer. -/
def Overhears (e : α → α') (r' : Run (W × List γ) α') (r : Run W α) (heard : W → List γ) : Prop :=
  ∀ w before, r' (w, before) = ⟨e (r w).answer, (r w).notes, (r w).world, before ++ heard w⟩

theorem overhears_pure (e : α → α') (a : α) :
    Overhears e (pure (e a) : Run (W × List γ) α') (pure a) fun _ => [] := by
  intro w before
  simp

theorem overhears_log (event : Event) : Overhears id (log event : Run (W × List γ) Unit) (log event) fun _ => [] := by
  intro w before
  simp [log, note]

theorem overhears_overheard (b : γ) (r : Run W α) : Overhears id (r.overheard b) r fun _ => [b] := fun _ _ => rfl

theorem Overhears.bind {e : β → β'} {r' : Run (W × List γ) α} {r : Run W α} {heard : W → List γ}
    (hr : Overhears id r' r heard) {f' : α → Run (W × List γ) β'} {f : α → Run W β} {heard' : α → W → List γ}
    (hf : ∀ a, Overhears e (f' a) (f a) (heard' a)) :
    Overhears e (r' >>= f') (r >>= f) fun w => heard w ++ heard' (r w).answer (r w).world := by
  intro w before
  simp only [bind_apply, hr w before, id, hf (r w).answer (r w).world, List.append_assoc]

theorem Overhears.mapM {e : β → β'} {f' : α → Run (W × List γ) β'} {f : α → Run W β} {b : α → γ}
    (hf : ∀ a, Overhears e (f' a) (f a) fun _ => [b a]) (as : List α) :
    Overhears (List.map e) (as.mapM f') (as.mapM f) fun _ => as.map b := by
  induction as with
  | nil => exact overhears_pure (List.map e) []
  | cons a as ih =>
    intro w before
    simp only [List.mapM_cons, bind_apply, pure_apply, hf a w before, ih (f a w).world, List.map_cons,
      List.append_assoc, List.singleton_append]

theorem overhears_report (event : Event) (answer : Option α) :
    Overhears id (log event >>= fun _ => pure answer : Run (W × List γ) (Option α)) (log event >>= fun _ => pure answer)
      fun _ => [] :=
  (overhears_log event).bind fun _ => overhears_pure id answer

/-- One is asked, and the others only if there is no answer. -/
theorem Overhears.first {ask' : Run (W × List γ) (Option α)} {ask : Run W (Option α)} {b : γ}
    (hask : Overhears id ask' ask fun _ => [b]) {f' : Option α → Run (W × List γ) β} {f : Option α → Run W β}
    (heard : W → List γ) (hs : ∀ a, Overhears id (f' (some a)) (f (some a)) fun _ => [])
    (hn : Overhears id (f' none) (f none) heard) :
    Overhears id (ask' >>= f') (ask >>= f)
      fun w => b :: if (ask w).answer.isSome then [] else heard (ask w).world := by
  have hbranch (answer : Option α) : Overhears id (f' answer) (f answer)
      fun w => if answer.isSome then [] else heard w := by
    cases answer with
    | some a => exact hs a
    | none => exact hn
  exact hask.bind hbranch

theorem map_consulted_cons (g : α → γ) (f : α → Run W (Option β)) (a : α) (as : List α) (w : W) :
    (consulted f (a :: as) w).map g =
      g a :: if (f a w).answer.isSome then [] else (consulted f as (f a w).world).map g := by
  rw [consulted, List.map_cons, apply_ite (List.map g), List.map_nil]

end Run

namespace Route

/-- The same route beside a record of what it is asked. -/
def overheard (r : Route W) (index : Nat) : Route (W × List Inquiry) where
  score u := (r.score u).overheard (.score index)
  dispatch u := (r.dispatch u).overheard (.dispatch index)
  link h := (r.link h).overheard (.link index)

/-- The members of a chain, with a common record of what each of them is asked. -/
def overhearing (routes : List (Route W)) : List (Route (W × List Inquiry)) :=
  routes.zipIdx.map fun r => r.1.overheard r.2

theorem zipIdx_overhearing (routes : List (Route W)) :
    (overhearing routes).zipIdx = routes.zipIdx.map fun r => (r.1.overheard r.2, r.2) := by
  have hfrom (n : Nat) : ((routes.zipIdx n).map fun r => r.1.overheard r.2).zipIdx n =
      (routes.zipIdx n).map fun r => (r.1.overheard r.2, r.2) := by
    induction routes generalizing n with
    | nil => rfl
    | cons r routes ih => simp [ih]
  exact hfrom 0

theorem overhears_linkFirst (h : Handler) (routes : List (Route W × Nat)) :
    Run.Overhears id (linkFirst h (routes.map fun r => (r.1.overheard r.2, r.2))) (linkFirst h routes)
      fun w => (Run.consulted (fun r : Route W × Nat => r.1.link h) routes w).map fun r => .link r.2 := by
  induction routes with
  | nil => exact Run.overhears_pure id none
  | cons r routes ih =>
    simp only [Run.map_consulted_cons]
    apply (Run.overhears_overheard (Inquiry.link r.2) (r.1.link h)).first fun w =>
      (Run.consulted (fun r : Route W × Nat => r.1.link h) routes w).map fun r => .link r.2
    · exact fun _ => Run.overhears_report _ _
    · exact ih

end Route

namespace Candidate

def overheard (c : Candidate W) : Candidate (W × List Inquiry) := ⟨c.score, c.index, c.route.overheard c.index⟩

theorem ranked_map_overheard (cs : List (Candidate W)) : ranked (cs.map overheard) = (ranked cs).map overheard :=
  (map_mergeSort_by Candidate.score overheard cs).symm

theorem overhears_scored (u : Url) (routes : List (Route W)) :
    Run.Overhears (List.map overheard) (scored u (Route.overhearing routes)) (scored u routes)
      fun _ => (List.range routes.length).map .score := by
  have hone (r : Route W × Nat) : Run.Overhears overheard
      (do return ⟨← (r.1.overheard r.2).score u, r.2, r.1.overheard r.2⟩) (do return ⟨← r.1.score u, r.2, r.1⟩)
      fun _ => [Inquiry.score r.2] := by
    intro w before
    rfl
  have hall := Run.Overhears.mapM hone routes.zipIdx
  have hrange : routes.zipIdx.map (fun r => Inquiry.score r.2) = (List.range routes.length).map .score := by
    rw [List.range_eq_range', ← List.zipIdx_map_snd, List.map_map]
    rfl
  rw [scored, Route.zipIdx_overhearing, List.mapM_map]
  rwa [hrange] at hall

theorem overhears_dispatch (u : Url) (cs : List (Candidate W)) :
    Run.Overhears id (dispatch u (cs.map overheard)) (dispatch u cs)
      fun w => (Run.consulted (fun c : Candidate W => c.route.dispatch u) cs w).map fun c => .dispatch c.index := by
  induction cs with
  | nil => exact Run.overhears_pure id none
  | cons c cs ih =>
    simp only [Run.map_consulted_cons]
    apply (Run.overhears_overheard (Inquiry.dispatch c.index) (c.route.dispatch u)).first fun w =>
      (Run.consulted (fun c : Candidate W => c.route.dispatch u) cs w).map fun c => .dispatch c.index
    · exact fun _ => Run.overhears_report _ _
    · exact ih

end Candidate

namespace Route

theorem overhears_chain_dispatch (u : Url) (routes : List (Route W)) :
    Run.Overhears id ((chain (overhearing routes)).dispatch u) ((chain routes).dispatch u) fun w =>
      let scored := Candidate.scored u routes w
      (List.range routes.length).map .score ++
        (Run.consulted (fun c : Candidate W => c.route.dispatch u) (Candidate.ranked scored.answer) scored.world).map
          fun c => .dispatch c.index := by
  intro w before
  have hscored := Candidate.overhears_scored u routes w before
  have hasked := Candidate.overhears_dispatch u (Candidate.ranked (Candidate.scored u routes w).answer)
    (Candidate.scored u routes w).world
  rw [chain, chain]
  simp only [Run.bind_apply, hscored, Candidate.ranked_map_overheard, hasked, List.append_assoc, id]

theorem overhears_chain_link (h : Handler) (routes : List (Route W)) :
    Run.Overhears id ((chain (overhearing routes)).link h) ((chain routes).link h) fun w =>
      (Run.consulted (fun r : Route W × Nat => r.1.link h) routes.zipIdx w).map fun r => .link r.2 := by
  have hlink := overhears_linkFirst h routes.zipIdx
  rwa [← zipIdx_overhearing] at hlink

end Route

end PageRouting
