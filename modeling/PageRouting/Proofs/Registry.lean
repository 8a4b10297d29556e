import PageRouting.Application
import PageRouting.Proofs.Except

/-! Registries as registration builds them. A call that fails leaves nothing behind, and one that succeeds adds
one entry, so that each entry stands under the name of its interface, an identifier, and no two under one name. -/
namespace PageRouting.Registry

variable {W : Type} {w : W} {r r' : Registry} {i : ListenerInterface} {n : Text} {is : List ListenerInterface}

/-- The names that are taken in a registry. -/
def names (r : Registry) : List Text := r.entries.map (·.1)

theorem isSome_resolve_iff : (r.resolve n).isSome = true ↔ n ∈ r.names := by
  rw [resolve, List.lookup_isSome_iff, names, List.mem_map]
  exact exists_congr fun e => and_congr_right fun _ => beq_iff_eq.trans eq_comm

theorem resolve_eq_none_iff : r.resolve n = none ↔ n ∉ r.names := by
  rw [← isSome_resolve_iff, Option.not_isSome_iff_eq_none]

theorem nameOf_eq_some_iff : r.nameOf i = some n ↔ n = i.name ∧ r.resolve i.name = some i := by
  rw [nameOf]
  cases hr : r.resolve i.name with
  | none => simp
  | some j =>
    by_cases hj : j = i
    · simp [hj, Option.filter, eq_comm]
    · simp [hj, Option.filter]

/-- Under a name that is free, an insertion displaces no entry. -/
theorem insert_of_free (h : r.resolve n = none) : r.insert n i = ⟨r.entries ++ [(n, i)]⟩ := by
  have hkeep : r.entries.filter (·.1 ≠ n) = r.entries := by
    refine List.filter_eq_self.mpr fun e he => ?_
    have hne : e.1 ≠ n := ne_of_mem_of_not_mem (List.mem_map_of_mem he) (resolve_eq_none_iff.mp h)
    simpa using hne
  rw [insert, hkeep]

theorem register_of_not_isIdentifier (h : i.name.isIdentifier = false) :
    r.register i = (.error (.invalidInterfaceName i.name), r) := by
  rw [register, h]
  rfl

theorem register_of_taken (h : i.name.isIdentifier = true) (ht : (r.resolve i.name).isSome = true) :
    r.register i = (.error (.interfaceTaken i.name), r) := by
  rw [register, h, ht]
  rfl

theorem register_of_free (h : i.name.isIdentifier = true) (hf : r.resolve i.name = none) :
    r.register i = (.ok (), ⟨r.entries ++ [(i.name, i)]⟩) := by
  rw [register, h, hf, insert_of_free hf]
  rfl

/-- All that a registration can come to. -/
theorem register_cases (r : Registry) (i : ListenerInterface) :
    (i.name.isIdentifier = false ∧ r.register i = (.error (.invalidInterfaceName i.name), r)) ∨
    (i.name.isIdentifier = true ∧ (r.resolve i.name).isSome = true ∧
      r.register i = (.error (.interfaceTaken i.name), r)) ∨
    (i.name.isIdentifier = true ∧ r.resolve i.name = none ∧
      r.register i = (.ok (), ⟨r.entries ++ [(i.name, i)]⟩)) := by
  cases h : i.name.isIdentifier with
  | false => exact .inl ⟨rfl, register_of_not_isIdentifier h⟩
  | true =>
    cases ht : (r.resolve i.name).isSome with
    | true => exact .inr (.inl ⟨rfl, rfl, register_of_taken h ht⟩)
    | false =>
      have hf : r.resolve i.name = none := Option.not_isSome_iff_eq_none.mp (by simp [ht])
      exact .inr (.inr ⟨rfl, hf, register_of_free h hf⟩)

/-- Each entry stands under the name of its interface, an identifier, and no two stand under one name. -/
structure Keyed (r : Registry) : Prop where
  name_eq : ∀ e ∈ r.entries, e.2.name = e.1
  isIdentifier : ∀ e ∈ r.entries, e.1.isIdentifier = true
  nodup : r.names.Nodup

namespace Keyed

theorem register (h : r.Keyed) (i : ListenerInterface) : (r.register i).2.Keyed := by
  obtain ⟨-, he⟩ | ⟨-, -, he⟩ | ⟨hi, hf, he⟩ := r.register_cases i
  · rwa [he]
  · rwa [he]
  · -- the entry that is added is the only one there is to look at
    have hnew : i.name ∉ r.names := resolve_eq_none_iff.mp hf
    rw [he]
    refine ⟨?_, ?_, ?_⟩
    · exact List.forall_mem_append.mpr ⟨h.name_eq, List.forall_mem_singleton.mpr rfl⟩
    · exact List.forall_mem_append.mpr ⟨h.isIdentifier, List.forall_mem_singleton.mpr hi⟩
    · have hclear : ∀ m ∈ r.names, ∀ k ∈ [i.name], m ≠ k := by
        intro m hm k hk hmk
        rw [hmk, List.mem_singleton.mp hk] at hm
        exact hnew hm
      rw [names, List.map_append]
      exact List.nodup_append.mpr ⟨h.nodup, by simp, hclear⟩

/-- A name stands for the interface that was entered under it. -/
theorem resolve_eq_some_iff (h : r.Keyed) : r.resolve n = some i ↔ (n, i) ∈ r.entries := by
  obtain ⟨entries⟩ := r
  have hnodup : (entries.map (·.1)).Nodup := h.nodup
  rw [resolve]
  clear h
  induction entries with
  | nil => simp
  | cons e entries ih =>
    obtain ⟨m, j⟩ := e
    obtain ⟨hnew, hrest⟩ := List.nodup_cons.mp hnodup
    by_cases hn : n = m
    · subst hn
      have hout : (n, i) ∉ entries := fun hi => hnew (List.mem_map.mpr ⟨(n, i), hi, rfl⟩)
      simp [hout, eq_comm]
    · have hb : (n == m) = false := by simpa using hn
      simp [List.lookup_cons, hb, hn, ih hrest]

theorem name_of_resolve (h : r.Keyed) (hn : r.resolve n = some i) : i.name = n :=
  h.name_eq _ (h.resolve_eq_some_iff.mp hn)

end Keyed

/-- Registries that come about by registering interfaces, one after the other, beside none or beside
the built-in ones. Some of the calls may fail. -/
inductive Reachable : Registry → Prop
  | empty : Reachable {}
  | builtins : Reachable builtins
  | register {r : Registry} (h : Reachable r) (i : ListenerInterface) : Reachable (r.register i).2

theorem Reachable.keyed (h : r.Reachable) : r.Keyed := by
  induction h with
  | empty => exact ⟨by simp, by simp, List.nodup_nil⟩
  | builtins => exact ⟨by decide, by decide, by decide⟩
  | register _ i ih => exact ih.register i

theorem Reachable.isIdentifier_of_resolve (h : r.Reachable) (hn : (r.resolve n).isSome) :
    n.isIdentifier := by
  obtain ⟨i, hi⟩ := Option.isSome_iff_exists.mp hn
  exact h.keyed.isIdentifier _ (h.keyed.resolve_eq_some_iff.mp hi)

theorem answer_declare (r : Registry) (is : List ListenerInterface) (w : W) :
    (r.declare is w).answer = r.registerAll is := by
  induction is generalizing r with
  | nil => rfl
  | cons i is ih =>
    rw [declare, registerAll]
    obtain ⟨-, he⟩ | ⟨-, -, he⟩ | ⟨-, -, he⟩ := r.register_cases i <;> rw [he]
    · rfl
    · rfl
    · exact ih _

theorem Reachable.registerAll (h : r.Reachable) (hr : r.registerAll is = .ok r') : r'.Reachable := by
  induction is generalizing r with
  | nil =>
    cases hr
    exact h
  | cons i is ih =>
    rw [Registry.registerAll] at hr
    have hi := h.register i
    split at hr
    · next he =>
      rw [he] at hi
      exact ih hi hr
    · cases hr

theorem Reachable.declare (h : r.Reachable) (hd : (r.declare is w).answer = .ok r') :
    r'.Reachable := by
  rw [answer_declare] at hd
  exact h.registerAll hd

end PageRouting.Registry
