import PageRouting.Proofs.NamedValues

/-! What the operations on page parameters do to the values of a name, and which parameters they
build. -/
namespace PageRouting

namespace Parameters
variable {p q : Parameters}

theorem values_add_self (p : Parameters) (n v : Text) : (p.add n v).values n = p.values n ++ [v] := by
  rw [values, values?, add, NamedValues.add_eq_update, NamedValues.values?_update_self]
  rfl

theorem values_add_of_ne {n m : Text} (h : n ≠ m) (p : Parameters) (v : Text) :
    (p.add n v).values m = p.values m := by
  rw [values, values?, add, NamedValues.add_eq_update, NamedValues.values?_update_of_ne h]
  rfl

theorem values_set_self (p : Parameters) (n v : Text) : (p.set n v).values n = [v] := by
  rw [values, values?, set, NamedValues.set_eq_update, NamedValues.values?_update_self]
  rfl

theorem values_set_of_ne {n m : Text} (h : n ≠ m) (p : Parameters) (v : Text) :
    (p.set n v).values m = p.values m := by
  rw [values, values?, set, NamedValues.set_eq_update, NamedValues.values?_update_of_ne h]
  rfl

@[simp] theorem indexed_addAll (p : Parameters) (pairs : List (Text × Text)) :
    (p.addAll pairs).indexed = p.indexed := by
  induction pairs generalizing p with
  | nil => rfl
  | cons e pairs ih => exact ih (p.add e.1 e.2)

theorem named_addAll (p : Parameters) (pairs : List (Text × Text)) :
    (p.addAll pairs).named = p.named.addAll pairs := by
  induction pairs generalizing p with
  | nil => rfl
  | cons e pairs ih => exact ih (p.add e.1 e.2)

theorem values_addAll (p : Parameters) (pairs : List (Text × Text)) (n : Text) :
    (p.addAll pairs).values n = p.values n ++ NamedValues.valuesIn pairs n := by
  induction pairs generalizing p with
  | nil => exact (List.append_nil _).symm
  | cons e pairs ih =>
    obtain ⟨m, v⟩ := e
    have hs := ih (p.add m v)
    by_cases h : m = n
    · subst h
      rw [values_add_self, List.append_assoc] at hs
      rw [NamedValues.valuesIn_cons_self]
      exact hs
    · rw [values_add_of_ne h] at hs
      rw [NamedValues.valuesIn_cons_of_ne h]
      exact hs

/-- The named values of well-formed parameters come back in their order. -/
theorem addAll_pairs (h : p.named.WellFormed) : addAll {} p.pairs = ⟨[], p.named⟩ := by
  have hi : (addAll {} p.pairs).indexed = [] := indexed_addAll {} p.pairs
  have hn : (addAll {} p.pairs).named = p.named := (named_addAll {} p.pairs).trans (NamedValues.addAll_pairs h)
  exact (congrArg (mk · _) hi).trans (congrArg (mk []) hn)

@[simp] theorem indexed_pushAll (p : Parameters) (vs : List Text) :
    (p.pushAll vs).indexed = p.indexed ++ vs := by
  induction vs generalizing p with
  | nil => exact (List.append_nil _).symm
  | cons v vs ih =>
    change ((p.push v).pushAll vs).indexed = _
    rw [ih, push, List.append_assoc]
    rfl

@[simp] theorem named_pushAll (p : Parameters) (vs : List Text) : (p.pushAll vs).named = p.named := by
  induction vs generalizing p with
  | nil => rfl
  | cons v vs ih => exact ih (p.push v)

theorem indexed_merge (p q : Parameters) : (p.merge q).indexed = p.indexed ++ q.indexed := by
  rw [merge, indexed_addAll, indexed_pushAll]

theorem named_merge (p q : Parameters) : (p.merge q).named = p.named.addAll q.pairs := by
  rw [merge, named_addAll, named_pushAll]

theorem values_eq_of_named (h : p.named = q.named) (n : Text) : p.values n = q.values n := by
  rw [values, values, values?, values?, h]

theorem valuesIn_pairs (h : p.named.WellFormed) (n : Text) :
    NamedValues.valuesIn p.pairs n = p.values n := by
  have hs := values_addAll {} p.pairs n
  rw [addAll_pairs h] at hs
  exact hs.symm

theorem values_merge (h : q.named.WellFormed) (p : Parameters) (n : Text) :
    (p.merge q).values n = p.values n ++ q.values n := by
  rw [merge, values_addAll, valuesIn_pairs h, values_eq_of_named (named_pushAll p q.indexed)]

theorem values_erase_self (p : Parameters) (n : Text) : (p.erase n).values n = [] := by
  rw [values, values?, erase, NamedValues.values?_erase_self]
  rfl

theorem values_erase_of_ne {n m : Text} (h : n ≠ m) (p : Parameters) : (p.erase n).values m = p.values m := by
  rw [values, values?, erase, NamedValues.values?_erase_of_ne h]
  rfl

theorem fst_takeFirst (p : Parameters) (n : Text) : (p.takeFirst n).1 = (p.values n).head? := by
  rw [takeFirst, values]
  split
  · next h => rw [h]; rfl
  · next h => rw [h]; rfl
  · next h => rw [h]; rfl
  · next h => rw [h]; rfl

@[simp] theorem indexed_takeFirst (p : Parameters) (n : Text) : (p.takeFirst n).2.indexed = p.indexed := by
  rw [takeFirst]
  split <;> rfl

theorem values_takeFirst_self (p : Parameters) (n : Text) :
    (p.takeFirst n).2.values n = (p.values n).tail := by
  have hv : p.values n = (p.values? n).getD [] := rfl
  rw [takeFirst, hv]
  split
  · next h => rw [hv, h]; rfl
  · next h => rw [h]; exact p.values_erase_self n
  · next h => rw [h]; exact p.values_erase_self n
  · next vs _ h =>
    rw [h, values, values?, NamedValues.set_eq_update, NamedValues.values?_update_self]
    rfl

theorem values_takeFirst_of_ne {n m : Text} (h : n ≠ m) (p : Parameters) :
    (p.takeFirst n).2.values m = p.values m := by
  rw [takeFirst]
  split
  · rfl
  · exact values_erase_of_ne h p
  · exact values_erase_of_ne h p
  · rw [values, values?, NamedValues.set_eq_update, NamedValues.values?_update_of_ne h]
    rfl

theorem wellFormed_takeFirst (h : p.named.WellFormed) (n : Text) : (p.takeFirst n).2.named.WellFormed := by
  rw [takeFirst]
  split
  · exact h
  · exact h.erase n
  · exact h.erase n
  · next hv _ => exact h.set n hv

/-- Taking a value can cost its own name, and leaves the others in their order. -/
theorem filter_names_takeFirst (p : Parameters) {n : Text} {f : Text → Bool} (hf : f n = false) :
    (p.takeFirst n).2.names.filter f = p.names.filter f := by
  have herase : (p.erase n).names.filter f = p.names.filter f := by
    change (p.named.erase n).names.filter f = p.named.names.filter f
    rw [NamedValues.names_erase, List.filter_filter]
    refine List.filter_congr fun m _ => ?_
    by_cases hm : m = n
    · rw [hm, hf, Bool.false_and]
    · rw [decide_eq_true hm, Bool.and_true]
  rw [takeFirst]
  split
  · rfl
  · exact herase
  · exact herase
  · next vs _ hv =>
    have hn : n ∈ p.named.names := by
      refine Decidable.byContradiction fun hn => ?_
      have hnone := NamedValues.values?_eq_none_iff.mpr hn
      rw [show p.named.values? n = _ from hv] at hnone
      cases hnone
    change (p.named.set n vs).names.filter f = p.named.names.filter f
    rw [NamedValues.set_eq_update, NamedValues.names_update, if_pos hn]

/-- The values of names in a path, then those of a query, then positional ones. -/
def gather (bound : List (Text × Text)) (query : Parameters) (tail : List Text) : Parameters :=
  ((addAll {} bound).merge query).pushAll tail

section gather
variable {bound : List (Text × Text)}

theorem indexed_gather (bound : List (Text × Text)) (hq : q.indexed = []) (tail : List Text) :
    (gather bound q tail).indexed = tail := by
  rw [gather, indexed_pushAll, indexed_merge, indexed_addAll, hq]
  rfl

theorem wellFormed_gather (bound : List (Text × Text)) (q : Parameters) (tail : List Text) :
    (gather bound q tail).named.WellFormed := by
  rw [gather, named_pushAll, named_merge, named_addAll]
  exact (NamedValues.WellFormed.nil.addAll bound).addAll q.pairs

theorem values_gather (bound : List (Text × Text)) (hq : q.named.WellFormed) (tail : List Text) (n : Text) :
    (gather bound q tail).values n = NamedValues.valuesIn bound n ++ q.values n := by
  rw [gather, values_eq_of_named (named_pushAll _ _), values_merge hq, values_addAll]
  rfl

theorem names_gather (hb : (bound.map Prod.fst).Nodup) (hq : q.named.WellFormed) (tail : List Text) :
    (gather bound q tail).names =
      bound.map Prod.fst ++ q.names.filter (· ∉ bound.map Prod.fst) := by
  have hn : (NamedValues.addAll [] bound).names = bound.map Prod.fst :=
    NamedValues.names_addAll_of_nodup hb
  change (gather bound q tail).named.names = _
  rw [gather, named_pushAll, named_merge, named_addAll, pairs, NamedValues.names_addAll_pairs hq, hn]
  rfl

/-- Parameters of a query alone are as they were. -/
theorem gather_nil (hq : q.named.WellFormed) (hi : q.indexed = []) : gather [] q [] = q := by
  have hmerge : gather [] q [] = addAll {} q.pairs := by
    change (pushAll {} q.indexed).addAll q.pairs = _
    rw [hi]
    rfl
  rw [hmerge, addAll_pairs hq, ← hi]

/-- Parameters are gathered again from values for the names in a path and from the rest, if these make
up all values and the rest keeps the order of its names. -/
theorem gather_eq (hb : (bound.map Prod.fst).Nodup) (hp : p.named.WellFormed) (hq : q.named.WellFormed)
    (hn : p.names = bound.map Prod.fst ++ q.names.filter (· ∉ bound.map Prod.fst))
    (hv : ∀ n, p.values n = NamedValues.valuesIn bound n ++ q.values n) :
    gather bound ⟨[], q.named⟩ p.indexed = p := by
  have hq' : (mk [] q.named).named.WellFormed := hq
  have hnames : (gather bound ⟨[], q.named⟩ p.indexed).named.names = p.named.names :=
    (names_gather hb hq' p.indexed).trans hn.symm
  have hnamed : (gather bound ⟨[], q.named⟩ p.indexed).named = p.named :=
    (wellFormed_gather _ _ _).ext hp hnames fun n => (values_gather bound hq' p.indexed n).trans (hv n).symm
  have hindexed := indexed_gather bound (q := ⟨[], q.named⟩) rfl p.indexed
  exact (congrArg (mk · _) hindexed).trans (congrArg (mk _) hnamed)

end gather

/-- Named values as a query. -/
def toQuery (p : Parameters) : Query := p.pairs.map fun e => .pair e.1 e.2

theorem ofQuery_toQuery (h : p.named.WellFormed) : ofQuery p.toQuery = ⟨[], p.named⟩ := by
  rw [ofQuery, toQuery, List.map_map]
  exact (congrArg (addAll {}) (List.map_id p.pairs)).trans (addAll_pairs h)

theorem flag_not_mem_toQuery (p : Parameters) (n : Text) : QueryEntry.flag n ∉ p.toQuery := by
  intro h
  obtain ⟨e, -, he⟩ := List.mem_map.mp h
  cases congrArg QueryEntry.value he

theorem wellFormed_ofQuery (q : Query) : (ofQuery q).named.WellFormed := by
  rw [ofQuery, named_addAll]
  exact NamedValues.WellFormed.nil.addAll _

/-- One pair of a query text is added as the entry that it reads as. -/
theorem addText_eq (p : Parameters) (t : Text) :
    p.addText t = p.add (QueryEntry.parse t).name (QueryEntry.parse t).content := by
  rw [addText, QueryEntry.parse]
  cases t.cut? '=' with
  | none => rfl
  | some e => rfl

theorem foldl_addText (p : Parameters) (ts : List Text) :
    ts.foldl addText p = p.addAll ((ts.map QueryEntry.parse).map fun e => (e.name, e.content)) := by
  induction ts generalizing p with
  | nil => rfl
  | cons t ts ih =>
    rw [List.foldl_cons, addText_eq, ih]
    rfl

theorem ofQueryText_eq (t : Text) :
    ofQueryText t = ofQuery (Query.parse (if t.head? = some '?' then t.tail else t)) :=
  foldl_addText {} _

/-- Parameters as their operations build them, from none or from the text of a query. -/
inductive Reachable : Parameters → Prop
  | empty : Reachable {}
  | ofQueryText (t : Text) : Reachable (ofQueryText t)
  | push {p : Parameters} (h : Reachable p) (value : Text) : Reachable (p.push value)
  | add {p : Parameters} (h : Reachable p) (name value : Text) : Reachable (p.add name value)
  | set {p : Parameters} (h : Reachable p) (name value : Text) : Reachable (p.set name value)
  | erase {p : Parameters} (h : Reachable p) (name : Text) : Reachable (p.erase name)
  | takeFirst {p : Parameters} (h : Reachable p) (name : Text) : Reachable (p.takeFirst name).2
  | merge {p q : Parameters} (hp : Reachable p) (hq : Reachable q) : Reachable (p.merge q)

theorem Reachable.wellFormed (h : p.Reachable) : p.named.WellFormed := by
  induction h with
  | empty => exact .nil
  | ofQueryText t =>
    rw [ofQueryText_eq]
    exact wellFormed_ofQuery _
  | push _ _ ih => exact ih
  | add _ n v ih => exact ih.add n v
  | set _ n v ih => exact ih.set n (List.cons_ne_nil v [])
  | erase _ n ih => exact ih.erase n
  | takeFirst _ n ih => exact wellFormed_takeFirst ih n
  | merge _ _ ih _ =>
    rw [named_merge]
    exact ih.addAll _

end Parameters
end PageRouting
