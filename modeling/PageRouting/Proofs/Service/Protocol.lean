import Mathlib.Data.List.Nodup
import PageRouting.Proofs.Service.Journal

/-! The protocol of a request: which collaborators are called, in which order, whatever fails on the way. -/
namespace PageRouting

variable {W : Type} {n : Nat} {u : Url}

/-- How a request goes, by what the collaborators answer. -/
inductive Course
  | unmatched
  | served (h : Handler)
  /-- The handler failed and nothing took its place. -/
  | failed (h : Handler) (error : RoutingError)
  /-- The handler failed and another took its place, which may have failed as well. -/
  | replaced (h : Handler) (error : RoutingError) (replacement : Handler) (result : Except RoutingError Unit)

namespace Course

/-- The handler that the route answered. -/
def found : Course → Option Handler
  | .unmatched => none
  | .served h => some h
  | .failed h _ => some h
  | .replaced h _ _ _ => some h

/-- The calls between the beginning of a request and its end. -/
def inner (n : Nat) (u : Url) : Course → Journal
  | .unmatched => [.dispatched u none]
  | .served h => [.dispatched u (some h), .responded h (.ok ()), .detached h]
  | .failed h e =>
    [.dispatched u (some h), .responded h (.error e)] ++ Journal.told n (.failed · u e) ++
      [.recovered e none, .detached h]
  | .replaced h e r result =>
    [.dispatched u (some h), .responded h (.error e)] ++ Journal.told n (.failed · u e) ++
      [.recovered e (some r), .responded r result, .detached r, .detached h]

/-- All calls of a request, told to as many observers as there are. -/
def calls (n : Nat) (u : Url) (c : Course) : Journal :=
  Journal.told n (.begun · u) ++ c.inner n u ++ Journal.told n (.ended · u)

/-- Every course is the one of some service. -/
theorem exists_service (c : Course) (u : Url) : ∃ (s : Service Bool) (w : Bool), s.observers = [] ∧
    (s.journaled.serve [] u (w, [])).world.2 = c.calls 0 u := by
  -- The world tells whether the next response is the first one.
  let script (first second : Except RoutingError Unit) (replacement : Option Handler) : Service Bool := {
    route := ⟨fun _ => pure 0, fun _ => pure c.found, fun _ => pure none⟩
    executor := ⟨fun _ w => ⟨if w then first else second, [], false⟩, fun _ => pure ()⟩
    recovery := fun _ => pure replacement }
  cases c with
  | unmatched => exact ⟨script (.ok ()) (.ok ()) none, true, rfl, rfl⟩
  | served h => exact ⟨script (.ok ()) (.ok ()) none, true, rfl, rfl⟩
  | failed h e => exact ⟨script (.error e) (.ok ()) none, true, rfl, rfl⟩
  | replaced h e r result =>
    refine ⟨script (.error e) result (some r), true, rfl, ?_⟩
    cases result <;> rfl

end Course

/-- A response or the release of what it held. -/
def ServiceCall.handles : ServiceCall → Bool
  | .responded _ _ => true
  | .detached _ => true
  | _ => false

/-- Each response is followed by one release of the same handler, after those of the handlers that responded since. -/
inductive Journal.Nested : Journal → Prop
  | nil : Nested []
  | wrap (h : Handler) (result : Except RoutingError Unit) {inner : Journal} :
    Nested inner → Nested (.responded h result :: (inner ++ [.detached h]))

/-- What holds of the calls of a request on every course. -/
structure Journal.Orderly (n : Nat) (u : Url) (calls : Journal) : Prop where
  begun_once : ∀ place, calls.count (.begun place u) = if place < n then 1 else 0
  ended_once : ∀ place, calls.count (.ended place u) = if place < n then 1 else 0
  nested : Nested (calls.filter ServiceCall.handles)
  /-- Observers hear of failures of the handler that the route answered only. -/
  of_failed : ∀ place v e, .failed place v e ∈ calls → v = u ∧
    ∃ h before after, calls = before ++ .dispatched u (some h) :: .responded h (.error e) :: after

namespace Journal

theorem mem_told {call : Nat → ServiceCall} {c : ServiceCall} : c ∈ told n call ↔ ∃ place < n, call place = c := by
  simp only [told, List.mem_map, List.mem_range]

theorem count_told (call : Nat → ServiceCall) (hcall : call.Injective) (place : Nat) :
    (told n call).count (call place) = if place < n then 1 else 0 := by
  have hnodup : (told n call).Nodup := List.nodup_range.map hcall
  rw [hnodup.count]
  simp only [mem_told, hcall.eq_iff, exists_eq_right]

theorem filter_told {call : Nat → ServiceCall} {p : ServiceCall → Bool} (h : ∀ place, p (call place) = false) :
    (told n call).filter p = [] := by
  rw [List.filter_eq_nil_iff]
  intro c hc
  obtain ⟨place, -, rfl⟩ := mem_told.mp hc
  simp [h place]

end Journal

namespace Course
open Journal

variable (c : Course)

theorem begun_not_mem_inner (place : Nat) : .begun place u ∉ c.inner n u := by
  cases c <;> simp [inner, mem_told]

theorem ended_not_mem_inner (place : Nat) : .ended place u ∉ c.inner n u := by
  cases c <;> simp [inner, mem_told]

theorem nested_inner : Nested ((c.inner n u).filter ServiceCall.handles) := by
  have htold (e : RoutingError) : (told n (.failed · u e)).filter ServiceCall.handles = [] :=
    filter_told fun _ => rfl
  cases c with
  | unmatched => exact .nil
  | served h => exact .wrap h _ .nil
  | failed h e =>
    rw [inner, List.filter_append, List.filter_append, htold]
    exact .wrap h _ .nil
  | replaced h e r result =>
    rw [inner, List.filter_append, List.filter_append, htold]
    exact .wrap h _ (.wrap r _ .nil)

theorem of_failed_mem_inner {place : Nat} {v : Url} {e : RoutingError} (hmem : .failed place v e ∈ c.inner n u) :
    v = u ∧ ∃ h rest, c.inner n u = .dispatched u (some h) :: .responded h (.error e) :: rest := by
  cases c with
  | unmatched => simp [inner] at hmem
  | served h => simp [inner] at hmem
  | failed h e' =>
    obtain ⟨rfl, rfl⟩ : u = v ∧ e' = e := by simp_all [inner, mem_told]
    exact ⟨rfl, h, _, rfl⟩
  | replaced h e' r result =>
    obtain ⟨rfl, rfl⟩ : u = v ∧ e' = e := by simp_all [inner, mem_told]
    exact ⟨rfl, h, _, rfl⟩

theorem orderly : Orderly n u (c.calls n u) where
  begun_once place := by
    have hended : .begun place u ∉ told n (.ended · u) := by simp [mem_told]
    rw [calls, List.count_append, List.count_append, List.count_eq_zero_of_not_mem (c.begun_not_mem_inner place),
      List.count_eq_zero_of_not_mem hended]
    exact count_told (.begun · u) (fun _ _ h => by simpa using h) place
  ended_once place := by
    have hbegun : .ended place u ∉ told n (.begun · u) := by simp [mem_told]
    rw [calls, List.count_append, List.count_append, List.count_eq_zero_of_not_mem (c.ended_not_mem_inner place),
      List.count_eq_zero_of_not_mem hbegun, Nat.zero_add]
    exact count_told (.ended · u) (fun _ _ h => by simpa using h) place
  nested := by
    have hbegun : (told n (.begun · u)).filter ServiceCall.handles = [] := filter_told fun _ => rfl
    have hended : (told n (.ended · u)).filter ServiceCall.handles = [] := filter_told fun _ => rfl
    rw [calls, List.filter_append, List.filter_append, hbegun, hended, List.nil_append, List.append_nil]
    exact c.nested_inner
  of_failed place v e hmem := by
    have hinner : .failed place v e ∈ c.inner n u := by simpa [calls, mem_told] using hmem
    obtain ⟨hv, h, rest, heq⟩ := c.of_failed_mem_inner hinner
    exact ⟨hv, h, told n (.begun · u), rest ++ told n (.ended · u), by rw [calls, heq]; simp⟩

theorem dispatched_mem_calls {found : Option Handler} : .dispatched u found ∈ c.calls n u ↔ c.found = found := by
  cases c <;> simp [calls, inner, Course.found, mem_told, eq_comm]

end Course

namespace Service
open Run

variable (s : Service W) (os : List (Observer W)) (u : Url) (h : Handler)

theorem journals_replace :
    Journals (s.journaled.replace h) (s.replace h) fun _ calls =>
      ∃ result, calls = [.responded h result, .detached h] := by
  refine ((s.journals_respond h).bind (Q := fun _ _ calls => calls = [.detached h]) fun result => ?_).imp ?_
  · cases result with
    | ok => exact s.journals_detach h
    | error e => exact (s.journals_detach h).after_log _
  · rintro _ _ ⟨result, _, _, rfl, rfl, rfl⟩
    exact ⟨result, rfl⟩

theorem journals_settle (result : Except RoutingError Unit) :
    Journals (s.journaled.settle (Observer.journaledFrom 0 os) u h result) (s.settle os u h result)
      fun _ calls => ∃ c : Course, c.found = some h ∧
        c.inner os.length u = .dispatched u (some h) :: .responded h result :: (calls ++ [.detached h]) := by
  cases result with
  | ok =>
    refine (journals_pure ()).imp ?_
    rintro _ _ ⟨-, rfl⟩
    exact ⟨.served h, rfl, rfl⟩
  | error e =>
    have htold := Observer.journals_tell (fun o => o.failed u e) (fun o => o.failed u e) (.failed · u e)
      (fun _ _ => rfl) os
    refine ((htold.bind fun _ => (s.journals_recovery e).bind (Q := fun replacement _ calls =>
      replacement = none ∧ calls = [] ∨
        ∃ r result, replacement = some r ∧ calls = [.responded r result, .detached r])
      fun replacement => ?_).imp ?_).after_log _
    · cases replacement with
      | none => exact (journals_pure ()).imp fun _ _ hc => .inl ⟨rfl, hc.2⟩
      | some r => exact (s.journals_replace r).imp fun _ _ ⟨result, hc⟩ => .inr ⟨r, result, rfl, hc⟩
    · rintro _ _ ⟨_, _, _, rfl, ⟨_, _, _, rfl, hrest, rfl⟩, rfl⟩
      rcases hrest with ⟨rfl, rfl⟩ | ⟨r, result, rfl, rfl⟩
      · exact ⟨.failed h e, rfl, by simp [Course.inner]⟩
      · exact ⟨.replaced h e r result, rfl, by simp [Course.inner]⟩

theorem journals_execute :
    Journals (s.journaled.execute (Observer.journaledFrom 0 os) u h) (s.execute os u h)
      fun _ calls => ∃ c : Course, c.found = some h ∧ c.inner os.length u = .dispatched u (some h) :: calls := by
  refine ((s.journals_respond h).bind fun result =>
    (s.journals_settle os u h result).bind fun _ => s.journals_detach h).imp ?_
  rintro _ _ ⟨result, _, _, rfl, ⟨_, calls, _, ⟨c, hfound, hinner⟩, rfl, rfl⟩, rfl⟩
  exact ⟨c, hfound, hinner⟩

theorem journals_answer (found : Option Handler) :
    Journals (s.journaled.answer (Observer.journaledFrom 0 os) u found) (s.answer os u found)
      fun handled calls => ∃ c : Course, c.found = found ∧ handled = found.isSome ∧
        c.inner os.length u = .dispatched u found :: calls := by
  cases found with
  | none =>
    refine ((journals_pure false).imp ?_).after_log _
    rintro _ _ ⟨rfl, rfl⟩
    exact ⟨.unmatched, rfl, rfl, rfl⟩
  | some h =>
    refine ((s.journals_execute os u h).bind fun _ => journals_pure true).imp ?_
    rintro _ _ ⟨_, calls, _, ⟨c, hfound, hinner⟩, ⟨rfl, rfl⟩, rfl⟩
    exact ⟨c, hfound, rfl, by rw [hinner, List.append_nil]⟩

theorem journals_serve (own : List (Observer W)) :
    Journals (s.journaled.serve (Observer.journaledFrom s.observers.length own) u) (s.serve own u)
      fun handled calls => ∃ c : Course, handled = c.found.isSome ∧
        calls = c.calls (s.observers ++ own).length u := by
  have hline : s.journaled.observers ++ Observer.journaledFrom s.observers.length own =
      Observer.journaledFrom 0 (s.observers ++ own) := by
    rw [Observer.journaledFrom_append, Nat.zero_add]
    rfl
  have hbegun := Observer.journals_tell (fun o => o.begun u) (fun o => o.begun u) (.begun · u) (fun _ _ => rfl)
    (s.observers ++ own)
  have hended := Observer.journals_tell (fun o => o.ended u) (fun o => o.ended u) (.ended · u) (fun _ _ => rfl)
    (s.observers ++ own)
  rw [serve, serve, hline]
  refine ((hbegun.bind fun _ => (s.journals_dispatch u).bind fun found =>
    (s.journals_answer (s.observers ++ own) u found).bind fun handled => hended.bind fun _ =>
      (journals_pure handled).after_log _).imp ?_).after_log _
  rintro _ _ ⟨_, _, _, rfl, ⟨found, _, _, rfl, ⟨handled, calls, _, ⟨c, rfl, rfl, hinner⟩,
    ⟨_, _, _, rfl, ⟨rfl, rfl⟩, rfl⟩, rfl⟩, rfl⟩, rfl⟩
  refine ⟨c, rfl, ?_⟩
  rw [Course.calls, hinner]
  simp

/-- Whatever the collaborators answer and however they fail, the calls made on them are those of one course, in order,
and keeping the journal changes nothing else. Every observer hears of the beginning and of the end once, every
response is followed by one release, and the answer tells whether the route knew the address. -/
theorem serve_protocol (own : List (Observer W)) (w : W) :
    let n := (s.observers ++ own).length
    ∃ c : Course, s.journaled.serve (Observer.journaledFrom s.observers.length own) u (w, []) =
        ⟨(s.serve own u w).answer, (s.serve own u w).notes, (s.serve own u w).world, c.calls n u⟩ ∧
      Journal.Orderly n u (c.calls n u) ∧
      ((s.serve own u w).answer = true ↔ ∃ h, .dispatched u (some h) ∈ c.calls n u) := by
  obtain ⟨_, ⟨c, hanswer, rfl⟩, hrun⟩ := s.journals_serve u own w []
  refine ⟨c, hrun, c.orderly, ?_⟩
  rw [hanswer, Option.isSome_iff_exists]
  exact exists_congr fun _ => c.dispatched_mem_calls.symm

end Service
end PageRouting
