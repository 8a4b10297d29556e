import PageRouting.Proofs.Registry

/-! Registries over a whole history of registrations, successful or not. A name that is an identifier goes to the
interface that is registered first under it, and stays with it. -/
namespace PageRouting.Registry

variable {r : Registry} {i : ListenerInterface} {n : Text}

theorem resolve_register (r : Registry) (i : ListenerInterface) (n : Text) :
    (r.register i).2.resolve n = (r.resolve n).or (if i.name = n ∧ n.isIdentifier then some i else none) := by
  obtain ⟨hi, he⟩ | ⟨hi, ht, he⟩ | ⟨hi, hf, he⟩ := r.register_cases i <;> rw [he]
  · have hn : ¬ (i.name = n ∧ n.isIdentifier) := by
      rintro ⟨rfl, hn⟩
      cases hi.symm.trans hn
    rw [if_neg hn, Option.or_none]
  · by_cases hn : i.name = n
    · subst hn
      rw [Option.or_of_isSome ht]
    · rw [if_neg fun hc => hn hc.1, Option.or_none]
  · rw [resolve, List.lookup_append]
    by_cases hn : i.name = n
    · subst hn
      simp [hi, resolve]
    · have hb : (n == i.name) = false := by simpa using Ne.symm hn
      simp [hn, hb, resolve, List.lookup_cons]

theorem entries_register (r : Registry) (i : ListenerInterface) :
    r.entries <+: (r.register i).2.entries := by
  obtain ⟨-, he⟩ | ⟨-, -, he⟩ | ⟨-, -, he⟩ := r.register_cases i <;> simp [he]

/-- The registry after registrations one after the other, whatever each of them comes to. -/
def after (r : Registry) (is : List ListenerInterface) : Registry := is.foldl (fun r i => (r.register i).2) r

theorem after_cons (r : Registry) (i : ListenerInterface) (is : List ListenerInterface) :
    r.after (i :: is) = (r.register i).2.after is := rfl

theorem after_append (r : Registry) (is js : List ListenerInterface) :
    r.after (is ++ js) = (r.after is).after js := List.foldl_append

/-- A name stands for what it stood for, else for the first interface that is registered under it. -/
theorem resolve_after (r : Registry) (is : List ListenerInterface) (n : Text) :
    (r.after is).resolve n = (r.resolve n).or (if n.isIdentifier then is.find? (·.name = n) else none) := by
  induction is generalizing r with
  | nil =>
    rw [List.find?_nil, ite_self, Option.or_none]
    rfl
  | cons i is ih =>
    rw [after_cons, ih, resolve_register, Option.or_assoc]
    by_cases hn : i.name = n
    · cases n.isIdentifier <;> simp [hn]
    · simp [hn]

theorem entries_after (r : Registry) (is : List ListenerInterface) : r.entries <+: (r.after is).entries := by
  induction is generalizing r with
  | nil => exact List.prefix_refl _
  | cons i is ih => exact (r.entries_register i).trans (ih _)

theorem Reachable.after (h : r.Reachable) (is : List ListenerInterface) : (r.after is).Reachable := by
  induction is generalizing r with
  | nil => exact h
  | cons i is ih => exact ih (h.register i)

/-- Registries that a history begins with. -/
inductive Initial : Registry → Prop
  | empty : Initial {}
  | builtins : Initial builtins
  | ofSettings {s : Settings} {r : Registry} (h : Registry.ofSettings s = .ok r) : Initial r

theorem Initial.reachable (h : r.Initial) : r.Reachable := by
  cases h with
  | empty => exact .empty
  | builtins => exact .builtins
  | ofSettings h => exact Reachable.builtins.registerAll h

/-- What is found under a name is the interface that was entered there, which has that name, and names and
registered interfaces stand for each other. -/
structure Consistent (r : Registry) : Prop extends Keyed r where
  resolve_iff : ∀ n i, r.resolve n = some i ↔ (n, i) ∈ r.entries
  of_resolve : ∀ n i, r.resolve n = some i → i.name = n
  nameOf_iff : ∀ n i, r.nameOf i = some n ↔ n = i.name ∧ r.resolve n = some i
  inverse : ∀ n i, r.nameOf i = some n ↔ r.resolve n = some i

theorem Keyed.consistent (h : r.Keyed) : r.Consistent where
  toKeyed := h
  resolve_iff _ _ := h.resolve_eq_some_iff
  of_resolve _ _ := h.name_of_resolve
  nameOf_iff n i := by
    rw [nameOf_eq_some_iff]
    exact and_congr_right fun hn => by rw [hn]
  inverse n i := by
    rw [nameOf_eq_some_iff]
    constructor
    · rintro ⟨rfl, hi⟩
      exact hi
    · intro hn
      have hname := h.name_of_resolve hn
      subst hname
      exact ⟨rfl, hn⟩

/-- What one registration comes to, by the name of the interface, and what it leaves behind. -/
structure Answers (r : Registry) (i : ListenerInterface) : Prop where
  of_not_isIdentifier : i.name.isIdentifier = false → (r.register i).1 = .error (.invalidInterfaceName i.name)
  of_taken : i.name.isIdentifier = true → (r.resolve i.name).isSome = true →
    (r.register i).1 = .error (.interfaceTaken i.name)
  of_free : i.name.isIdentifier = true → r.resolve i.name = none → (r.register i).1 = .ok ()
  of_error : ∀ e, (r.register i).1 = .error e → (r.register i).2 = r
  of_ok : (r.register i).1 = .ok () → (r.register i).2.entries = r.entries ++ [(i.name, i)] ∧
    ∀ n, (r.register i).2.resolve n = if n = i.name then some i else r.resolve n

theorem answers (r : Registry) (i : ListenerInterface) : r.Answers i where
  of_not_isIdentifier h := by rw [register_of_not_isIdentifier h]
  of_taken h ht := by rw [register_of_taken h ht]
  of_free h hf := by rw [register_of_free h hf]
  of_error e h := by
    obtain ⟨-, he⟩ | ⟨-, -, he⟩ | ⟨-, -, he⟩ := r.register_cases i <;> rw [he] at h ⊢
    cases h
  of_ok h := by
    obtain ⟨-, he⟩ | ⟨-, -, he⟩ | ⟨hi, hf, he⟩ := r.register_cases i
    · cases he ▸ h
    · cases he ▸ h
    · refine ⟨by rw [he], fun n => ?_⟩
      rw [resolve_register]
      by_cases hn : n = i.name
      · subst hn
        simp [hf, hi]
      · simp [hn, Ne.symm hn]

/-- After any registrations a registry is consistent, answers the next one by its name, and holds what was
entered before for good. -/
theorem consistent_history (h : r.Initial) (is : List ListenerInterface) :
    (r.after is).Consistent ∧ (∀ i, (r.after is).Answers i) ∧
    (∀ n, (r.after is).resolve n =
      (r.resolve n).or (if n.isIdentifier then is.find? (·.name = n) else none)) ∧
    r.entries <+: (r.after is).entries ∧
    ∀ js, (r.after is).entries <+: (r.after (is ++ js)).entries ∧
      ∀ n i, (r.after is).resolve n = some i → (r.after (is ++ js)).resolve n = some i := by
  refine ⟨(h.reachable.after is).keyed.consistent, answers _, resolve_after r is, entries_after r is, fun js => ?_⟩
  rw [after_append]
  refine ⟨entries_after _ js, fun n i hi => ?_⟩
  rw [resolve_after, hi]
  rfl

namespace Dragging

def drag : ListenerInterface := ⟨"IDragListener".toList, false⟩

def drop : ListenerInterface := ⟨"IDropListener".toList, true⟩

def declared : Registry := ⟨builtins.entries ++ [(drag.name, drag)]⟩

/-- A name that is no identifier, one that is built in, a new one, and the new one again. -/
def calls : List ListenerInterface :=
  [⟨"2drag".toList, true⟩, ⟨"ILinkListener".toList, false⟩, drop, ⟨"IDropListener".toList, false⟩]

theorem consistent_history_dragging : Registry.ofSettings { interfaces := [drag] } = .ok declared ∧
    (declared.after calls).Consistent ∧ (∀ i, (declared.after calls).Answers i) ∧
    (declared.after calls).resolve drop.name = some drop ∧
    (declared.after calls).resolve "ILinkListener".toList = some .link ∧
    (declared.after calls).resolve "2drag".toList = none := by
  have hs : Registry.ofSettings { interfaces := [drag] } = .ok declared := rfl
  obtain ⟨hconsistent, hanswers, hresolve, _⟩ := consistent_history (.ofSettings hs) calls
  refine ⟨hs, hconsistent, hanswers, ?_, ?_, ?_⟩
  · rw [hresolve]
    decide +kernel
  · rw [hresolve]
    decide +kernel
  · rw [hresolve]
    decide +kernel

end Dragging

end PageRouting.Registry
