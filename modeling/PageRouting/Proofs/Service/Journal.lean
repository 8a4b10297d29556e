import Mathlib.Data.List.Range
import PageRouting.Service

/-! Services that keep a journal of the calls on their collaborators. The journal is kept beside the world, and apart
from it such a service does what it does without. -/
namespace PageRouting

variable {W α β : Type}

/-- A call on a collaborator of a service, with what it answers. Observers go by their place in line. -/
inductive ServiceCall
  | begun (place : Nat) (u : Url)
  | scored (u : Url) (score : Int)
  | dispatched (u : Url) (found : Option Handler)
  | linked (h : Handler) (address : Option Url)
  | responded (h : Handler) (result : Except RoutingError Unit)
  | failed (place : Nat) (u : Url) (error : RoutingError)
  | recovered (error : RoutingError) (replacement : Option Handler)
  | detached (h : Handler)
  | ended (place : Nat) (u : Url)
  deriving DecidableEq

abbrev Journal := List ServiceCall

/-- As many observers in line are told something. -/
def Journal.told (n : Nat) (call : Nat → ServiceCall) : Journal := (List.range n).map call

namespace Run

/-- The same run, entered in the journal when it is over. -/
def journaled (call : α → ServiceCall) (r : Run W α) : Run (W × Journal) α := fun w =>
  ⟨(r w.1).answer, (r w.1).notes, (r w.1).world, w.2 ++ [call (r w.1).answer]⟩

/-- A run that does as another one does, and enters only such calls as are right for its answer. -/
def Journals (r : Run (W × Journal) α) (r₀ : Run W α) (entered : α → Journal → Prop) : Prop :=
  ∀ w journal, ∃ calls, entered (r₀ w).answer calls ∧
    r (w, journal) = ⟨(r₀ w).answer, (r₀ w).notes, (r₀ w).world, journal ++ calls⟩

theorem journals_journaled (call : α → ServiceCall) (r : Run W α) :
    Journals (r.journaled call) r fun a calls => calls = [call a] :=
  fun w _ => ⟨[call (r w).answer], rfl, rfl⟩

theorem journals_pure (a : α) : Journals (pure a) (pure a : Run W α) fun b calls => b = a ∧ calls = [] :=
  fun w journal => ⟨[], ⟨rfl, rfl⟩, by rw [List.append_nil]; rfl⟩

section
variable {r : Run (W × Journal) α} {r₀ : Run W α} {entered : α → Journal → Prop}

theorem Journals.imp {entered' : α → Journal → Prop} (h : Journals r r₀ entered)
    (himp : ∀ a calls, entered a calls → entered' a calls) : Journals r r₀ entered' := by
  intro w journal
  obtain ⟨calls, hcalls, hr⟩ := h w journal
  exact ⟨calls, himp _ _ hcalls, hr⟩

theorem Journals.bind {f : α → Run (W × Journal) β} {f₀ : α → Run W β} {Q : α → β → Journal → Prop}
    (hr : Journals r r₀ entered) (hf : ∀ a, Journals (f a) (f₀ a) (Q a)) :
    Journals (r >>= f) (r₀ >>= f₀) fun b calls =>
      ∃ a first second, entered a first ∧ Q a b second ∧ calls = first ++ second := by
  intro w journal
  obtain ⟨first, hfirst, hr⟩ := hr w journal
  obtain ⟨second, hsecond, hf⟩ := hf (r₀ w).answer (r₀ w).world (journal ++ first)
  refine ⟨first ++ second, ⟨_, first, second, hfirst, hsecond, rfl⟩, ?_⟩
  rw [bind_apply, hr]
  dsimp only
  rw [hf, List.append_assoc]
  rfl

/-- What is reported is not entered. -/
theorem Journals.after_log (h : Journals r r₀ entered) (e : Event) :
    Journals (log e >>= fun _ => r) (log e >>= fun _ => r₀) entered := by
  intro w journal
  obtain ⟨calls, hcalls, hr⟩ := h w journal
  refine ⟨calls, hcalls, ?_⟩
  have hrest : (log e >>= fun _ => r) (w, journal) =
      ⟨(r (w, journal)).answer, .event e :: (r (w, journal)).notes, (r (w, journal)).world⟩ := rfl
  rw [hrest, hr]
  rfl

end

end Run

namespace Observer

def journaled (o : Observer W) (place : Nat) : Observer (W × Journal) where
  begun u := (o.begun u).journaled fun _ => .begun place u
  ended u := (o.ended u).journaled fun _ => .ended place u
  failed u e := (o.failed u e).journaled fun _ => .failed place u e

/-- Observers in line, the first of them at the given place. -/
def journaledFrom (place : Nat) (os : List (Observer W)) : List (Observer (W × Journal)) :=
  (os.zipIdx place).map fun o => o.1.journaled o.2

theorem journaledFrom_append (place : Nat) (os os' : List (Observer W)) :
    journaledFrom place (os ++ os') = journaledFrom place os ++ journaledFrom (place + os.length) os' := by
  rw [journaledFrom, List.zipIdx_append, List.map_append]
  rfl

section
variable (tell : Observer (W × Journal) → Run (W × Journal) Unit) (tell₀ : Observer W → Run W Unit)
  (call : Nat → ServiceCall) (h : ∀ o place, tell (o.journaled place) = (tell₀ o).journaled fun _ => call place)
include h

theorem journals_forM (os : List (Observer W)) (place : Nat) :
    Run.Journals ((journaledFrom place os).forM tell) (os.forM tell₀) fun _ calls =>
      calls = (List.range' place os.length).map call := by
  induction os generalizing place with
  | nil => exact (Run.journals_pure ()).imp fun _ _ hc => hc.2
  | cons o os ih =>
    have hfirst : Run.Journals (tell (o.journaled place)) (tell₀ o) fun _ calls => calls = [call place] := by
      rw [h]
      exact Run.journals_journaled _ _
    refine (hfirst.bind fun _ => ih (place + 1)).imp ?_
    rintro _ _ ⟨_, _, _, rfl, rfl, rfl⟩
    rfl

/-- Telling all observers something tells each of them once, in line. -/
theorem journals_tell (os : List (Observer W)) :
    Run.Journals ((journaledFrom 0 os).forM tell) (os.forM tell₀) fun _ calls => calls = .told os.length call := by
  refine (journals_forM tell tell₀ call h os 0).imp fun _ _ hcalls => ?_
  rw [hcalls, Journal.told, List.range_eq_range']

end

end Observer

namespace Service
open Run

/-- The same service with a journal. -/
def journaled (s : Service W) : Service (W × Journal) where
  route := {
    score := fun u => (s.route.score u).journaled (.scored u)
    dispatch := fun u => (s.route.dispatch u).journaled (.dispatched u)
    link := fun h => (s.route.link h).journaled (.linked h) }
  executor := {
    respond := fun h => (s.executor.respond h).journaled (.responded h)
    detach := fun h => (s.executor.detach h).journaled fun _ => .detached h }
  recovery e := (s.recovery e).journaled (.recovered e)
  observers := Observer.journaledFrom 0 s.observers

variable (s : Service W)

theorem journals_dispatch (u : Url) :
    Journals (s.journaled.route.dispatch u) (s.route.dispatch u) fun found calls => calls = [.dispatched u found] :=
  journals_journaled (.dispatched u) (s.route.dispatch u)

theorem journals_respond (h : Handler) :
    Journals (s.journaled.executor.respond h) (s.executor.respond h) fun result calls =>
      calls = [.responded h result] :=
  journals_journaled (.responded h) (s.executor.respond h)

theorem journals_detach (h : Handler) :
    Journals (s.journaled.executor.detach h) (s.executor.detach h) fun _ calls => calls = [.detached h] :=
  journals_journaled (fun _ => .detached h) (s.executor.detach h)

theorem journals_recovery (e : RoutingError) :
    Journals (s.journaled.recovery e) (s.recovery e) fun replacement calls => calls = [.recovered e replacement] :=
  journals_journaled (.recovered e) (s.recovery e)

end Service
end PageRouting
