import Mathlib.Data.Finset.Card
import PageRouting.Parameters.Reader
import PageRouting.Proofs.Parameters

/-! Parameters are equal up to the order of their names when they have the same positional values and every
name has the same values. Neither reading nor changing them tells equal ones apart. -/
namespace PageRouting

namespace Parameters
variable {p q p' q' : Parameters} {n m : Text}

theorem values?_eq_ite (h : p.named.WellFormed) (n : Text) :
    p.values? n = if p.values n = [] then none else some (p.values n) := by
  cases hv : p.values? n with
  | none => simp [values, hv]
  | some vs =>
    have hvs : vs ≠ [] := h.values_ne_nil _ (h.values?_eq_some_iff.mp hv)
    simp [values, hv, hvs]

theorem mem_names_iff (h : p.named.WellFormed) : n ∈ p.names ↔ p.values n ≠ [] := by
  have hnone : p.values? n = none ↔ n ∉ p.names := NamedValues.values?_eq_none_iff
  rw [← not_iff_not, ← hnone, values?_eq_ite h]
  simp

theorem pairs_eq_flatMap (h : p.named.WellFormed) :
    p.pairs = p.names.flatMap fun n => (p.values n).map (n, ·) := by
  rw [pairs, names, List.flatMap_map]
  apply List.flatMap_congr
  rintro ⟨n, vs⟩ he
  have hv : p.values? n = some vs := h.values?_eq_some_iff.mpr he
  rw [values, hv]
  rfl

theorem mem_fst_pairs_iff (h : p.named.WellFormed) : n ∈ p.pairs.map Prod.fst ↔ n ∈ p.names := by
  rw [pairs_eq_flatMap h]
  constructor
  · intro hn
    obtain ⟨e, he, rfl⟩ := List.mem_map.mp hn
    obtain ⟨m, hm, he⟩ := List.mem_flatMap.mp he
    obtain ⟨v, _, rfl⟩ := List.mem_map.mp he
    exact hm
  · intro hn
    obtain ⟨v, hv⟩ := List.exists_mem_of_ne_nil _ ((mem_names_iff h).mp hn)
    apply List.mem_map_of_mem (f := Prod.fst) (a := (n, v))
    exact List.mem_flatMap.mpr ⟨n, hn, List.mem_map_of_mem hv⟩

theorem length_named (h : p.named.WellFormed) :
    p.named.length = (p.pairs.map Prod.fst).toFinset.card := by
  have hnames : (p.pairs.map Prod.fst).toFinset = p.names.toFinset := by
    ext n
    simpa using mem_fst_pairs_iff h
  have hnodup : p.names.Nodup := h.nodup_names
  rw [hnames, List.toFinset_card_of_nodup hnodup, names, List.length_map]

theorem isEmpty_iff (h : p.named.WellFormed) : p.isEmpty = true ↔ p.indexed = [] ∧ p.pairs = [] := by
  have hpairs : p.named = [] ↔ p.pairs = [] := by
    rw [← List.length_eq_zero_iff, length_named h]
    simp
  simp [isEmpty, hpairs]

/-- The same positional values, and the same values of every name. -/
structure Agrees (p q : Parameters) : Prop where
  indexed : p.indexed = q.indexed
  values : ∀ n, p.values n = q.values n

namespace Agrees

theorem values? (h : p.Agrees q) (hp : p.named.WellFormed) (hq : q.named.WellFormed) (n : Text) :
    p.values? n = q.values? n := by
  rw [values?_eq_ite hp, values?_eq_ite hq, h.values]

theorem perm_names (h : p.Agrees q) (hp : p.named.WellFormed) (hq : q.named.WellFormed) :
    p.names.Perm q.names := by
  apply (List.perm_ext_iff_of_nodup hp.nodup_names hq.nodup_names).mpr
  intro n
  change n ∈ p.names ↔ n ∈ q.names
  rw [mem_names_iff hp, mem_names_iff hq, h.values]

theorem perm_pairs (h : p.Agrees q) (hp : p.named.WellFormed) (hq : q.named.WellFormed) :
    p.pairs.Perm q.pairs := by
  rw [pairs_eq_flatMap hp, pairs_eq_flatMap hq, funext h.values]
  exact (h.perm_names hp hq).flatMap_right _

/-- A change to one name leaves the values of all others. -/
theorem of_one_name (n : Text) (hi : p.indexed = q.indexed) (hn : p.values n = q.values n)
    (ho : ∀ m, n ≠ m → p.values m = q.values m) : p.Agrees q := by
  refine ⟨hi, fun m => ?_⟩
  by_cases h : n = m
  · rw [← h, hn]
  · exact ho m h

theorem push (h : p.Agrees q) (v : Text) : (p.push v).Agrees (q.push v) :=
  ⟨congrArg (· ++ [v]) h.indexed, h.values⟩

theorem add (h : p.Agrees q) (n v : Text) : (p.add n v).Agrees (q.add n v) := by
  refine of_one_name n h.indexed ?_ ?_
  · rw [values_add_self, values_add_self, h.values]
  · intro m hm
    rw [values_add_of_ne hm, values_add_of_ne hm, h.values]

theorem set (h : p.Agrees q) (n v : Text) : (p.set n v).Agrees (q.set n v) := by
  refine of_one_name n h.indexed ?_ ?_
  · rw [values_set_self, values_set_self]
  · intro m hm
    rw [values_set_of_ne hm, values_set_of_ne hm, h.values]

theorem erase (h : p.Agrees q) (n : Text) : (p.erase n).Agrees (q.erase n) := by
  refine of_one_name n h.indexed ?_ ?_
  · rw [values_erase_self, values_erase_self]
  · intro m hm
    rw [values_erase_of_ne hm, values_erase_of_ne hm, h.values]

theorem takeFirst (h : p.Agrees q) (n : Text) : (p.takeFirst n).2.Agrees (q.takeFirst n).2 := by
  apply of_one_name n
  · simpa using h.indexed
  · rw [values_takeFirst_self, values_takeFirst_self, h.values]
  · intro m hm
    rw [values_takeFirst_of_ne hm, values_takeFirst_of_ne hm, h.values]

theorem merge (h : p.Agrees q) (h' : p'.Agrees q') (hp : p'.named.WellFormed) (hq : q'.named.WellFormed) :
    (p.merge p').Agrees (q.merge q') := by
  constructor
  · rw [indexed_merge, indexed_merge, h.indexed, h'.indexed]
  · intro n
    rw [values_merge hp, values_merge hq, h.values, h'.values]

end Agrees

theorem same_iff_agrees (hp : p.named.WellFormed) (hq : q.named.WellFormed) :
    p.same q = true ↔ p.Agrees q := by
  rw [same, Bool.and_eq_true, Bool.and_eq_true, beq_iff_eq, beq_iff_eq, List.all_eq_true]
  constructor
  · rintro ⟨⟨hi, hlength⟩, hall⟩
    have hvalues (n : Text) (hn : n ∈ p.names) : p.values? n = q.values? n := by
      obtain ⟨e, he, rfl⟩ := List.mem_map.mp hn
      rw [beq_iff_eq.mp (hall e he)]
      exact hp.values?_eq_some_iff.mpr he
    have hsub : p.names ⊆ q.names := by
      intro n hn
      rw [mem_names_iff hq, values, ← hvalues n hn]
      exact (mem_names_iff hp).mp hn
    -- as many names on both sides, so that none of `q` is left
    have hperm : p.names.Perm q.names := by
      apply (hp.nodup_names.subperm hsub).perm_of_length_le
      simpa [NamedValues.names, names] using hlength.ge
    refine ⟨hi, fun n => ?_⟩
    by_cases hn : n ∈ p.names
    · rw [values, values, hvalues n hn]
    · have hn' : n ∉ q.names := mt hperm.mem_iff.mpr hn
      rw [mem_names_iff hp, not_not] at hn
      rw [mem_names_iff hq, not_not] at hn'
      rw [hn, hn']
  · intro h
    have hlength : p.named.length = q.named.length := by
      simpa [names] using (h.perm_names hp hq).length_eq
    refine ⟨⟨h.indexed, hlength⟩, fun e he => ?_⟩
    rw [beq_iff_eq, ← h.values? hp hq]
    exact hp.values?_eq_some_iff.mpr he

/-- What reading shows of parameters, but for the order of names. -/
structure ReadsAlike (p q : Parameters) : Prop where
  isEmpty : p.isEmpty = q.isEmpty
  length_named : p.named.length = q.named.length
  values? : ∀ n, p.values? n = q.values? n
  get? : ∀ n, p.get? n = q.get? n
  getAs : ∀ {α : Type} (r : Reader α) (n : Text), p.getAs r n = q.getAs r n
  indexedAs : ∀ {α : Type} (r : Reader α) (i : Nat), p.indexedAs r i = q.indexedAs r i
  names : p.names.Perm q.names
  pairs : p.pairs.Perm q.pairs

theorem Agrees.readsAlike (h : p.Agrees q) (hp : p.named.WellFormed) (hq : q.named.WellFormed) :
    p.ReadsAlike q := by
  have hget (n : Text) : p.get? n = q.get? n := by rw [Parameters.get?, Parameters.get?, h.values]
  have hnames := h.perm_names hp hq
  have hpairs := h.perm_pairs hp hq
  constructor
  · have hnil : p.pairs = [] ↔ q.pairs = [] := by
      rw [← List.length_eq_zero_iff, hpairs.length_eq, List.length_eq_zero_iff]
    rw [Bool.eq_iff_iff, isEmpty_iff hp, isEmpty_iff hq, h.indexed, hnil]
  · simpa [Parameters.names] using hnames.length_eq
  · exact h.values? hp hq
  · exact hget
  · intro α r n
    rw [Parameters.getAs, Parameters.getAs, hget]
  · intro α r i
    rw [Parameters.indexedAs, Parameters.indexedAs, h.indexed]
  · exact hnames
  · exact hpairs

/-- A change to parameters. -/
inductive Change
  | push (value : Text)
  | add (name value : Text)
  | set (name value : Text)
  | erase (name : Text)
  | takeFirst (name : Text)
  | merge (other : Parameters)

namespace Change
variable {c d : Change} {cs ds : List Change}

def apply : Change → Parameters → Parameters
  | push value, p => p.push value
  | add name value, p => p.add name value
  | set name value, p => p.set name value
  | erase name, p => p.erase name
  | takeFirst name, p => (p.takeFirst name).2
  | merge other, p => p.merge other

/-- The values that a change takes out and hands back. -/
def taken : Change → Parameters → Option (List Text)
  | erase name, p => p.values? name
  | takeFirst name, p => (p.takeFirst name).1.map ([·])
  | _, _ => none

/-- The same change, where parameters that are merged may differ in the order of their names. -/
inductive Alike : Change → Change → Prop
  | push (value : Text) : Alike (.push value) (.push value)
  | add (name value : Text) : Alike (.add name value) (.add name value)
  | set (name value : Text) : Alike (.set name value) (.set name value)
  | erase (name : Text) : Alike (.erase name) (.erase name)
  | takeFirst (name : Text) : Alike (.takeFirst name) (.takeFirst name)
  | merge {p q : Parameters} (hp : p.Reachable) (hq : q.Reachable) (h : p.same q = true) :
    Alike (.merge p) (.merge q)

namespace Alike

theorem reachable (hc : c.Alike d) (hp : p.Reachable) (hq : q.Reachable) :
    (c.apply p).Reachable ∧ (d.apply q).Reachable := by
  cases hc with
  | push v => exact ⟨hp.push v, hq.push v⟩
  | add n v => exact ⟨hp.add n v, hq.add n v⟩
  | set n v => exact ⟨hp.set n v, hq.set n v⟩
  | erase n => exact ⟨hp.erase n, hq.erase n⟩
  | takeFirst n => exact ⟨hp.takeFirst n, hq.takeFirst n⟩
  | merge hl hr _ => exact ⟨hp.merge hl, hq.merge hr⟩

theorem agrees (hc : c.Alike d) (h : p.Agrees q) : (c.apply p).Agrees (d.apply q) := by
  cases hc with
  | push v => exact h.push v
  | add n v => exact h.add n v
  | set n v => exact h.set n v
  | erase n => exact h.erase n
  | takeFirst n => exact h.takeFirst n
  | merge hl hr hs =>
    have hagrees := (same_iff_agrees hl.wellFormed hr.wellFormed).mp hs
    exact h.merge hagrees hl.wellFormed hr.wellFormed

theorem taken_eq (hc : c.Alike d) (h : p.Agrees q) (hp : p.named.WellFormed) (hq : q.named.WellFormed) :
    c.taken p = d.taken q := by
  cases hc with
  | push | add | set | merge => rfl
  | erase n => exact h.values? hp hq n
  | takeFirst n => rw [taken, taken, fst_takeFirst, fst_takeFirst, h.values]

end Alike

end Change

/-- The parameters after a run of changes. -/
def changed (p : Parameters) (cs : List Change) : Parameters := cs.foldl (fun p c => c.apply p) p

/-- What each change of a run hands back. -/
def takenBy : Parameters → List Change → List (Option (List Text))
  | _, [] => []
  | p, c :: cs => c.taken p :: (c.apply p).takenBy cs

/-- Runs of the same changes hand back the same and end alike. -/
theorem Agrees.changed {cs ds : List Change} (hcs : List.Forall₂ Change.Alike cs ds) (h : p.Agrees q)
    (hp : p.Reachable) (hq : q.Reachable) :
    p.takenBy cs = q.takenBy ds ∧ (p.changed cs).same (q.changed ds) = true := by
  induction hcs generalizing p q with
  | nil => exact ⟨rfl, (same_iff_agrees hp.wellFormed hq.wellFormed).mpr h⟩
  | cons hc _ ih =>
    obtain ⟨hp', hq'⟩ := hc.reachable hp hq
    obtain ⟨htaken, hsame⟩ := ih (hc.agrees h) hp' hq'
    have hhead := hc.taken_eq h hp.wellFormed hq.wellFormed
    refine ⟨?_, hsame⟩
    rw [takenBy, takenBy, hhead, htaken]

theorem filter_names_of_not_mem (h : n ∉ p.names) : p.names.filter (· ≠ n) = p.names := by
  apply List.filter_eq_self.mpr
  intro m hm
  simpa using ne_of_mem_of_not_mem hm h

theorem names_takeFirst (h : p.named.WellFormed) (n : Text) :
    (p.takeFirst n).2.names = if 1 < (p.values n).length then p.names else p.names.filter (· ≠ n) := by
  have herase : (p.erase n).names = p.names.filter (· ≠ n) := NamedValues.names_erase p.named n
  rw [takeFirst, values]
  split
  · next hv =>
    have hn : n ∉ p.names := NamedValues.values?_eq_none_iff.mp hv
    simpa [hv] using (filter_names_of_not_mem hn).symm
  · next hv => simpa [hv] using herase
  · next hv => simpa [hv] using herase
  · next v vs hvs hv =>
    have hn : n ∈ p.names := by
      rw [mem_names_iff h, values, hv]
      exact List.cons_ne_nil v vs
    have hset : (p.named.set n vs).names = p.named.names := by
      rw [NamedValues.set_eq_update, NamedValues.names_update]
      exact if_pos hn
    have hlength : 1 < (v :: vs).length := Nat.succ_lt_succ (List.length_pos_of_ne_nil hvs)
    rw [hv, Option.getD_some, if_pos hlength]
    exact hset

section takings

/-- The parameters after values of a name have been taken `k` times. -/
def afterTaking (p : Parameters) (n : Text) (k : Nat) : Parameters :=
  p.changed (List.replicate k (.takeFirst n))

theorem afterTaking_succ (p : Parameters) (n : Text) (k : Nat) :
    p.afterTaking n (k + 1) = (p.takeFirst n).2.afterTaking n k := rfl

theorem indexed_afterTaking (p : Parameters) (n : Text) (k : Nat) :
    (p.afterTaking n k).indexed = p.indexed := by
  induction k generalizing p with
  | zero => rfl
  | succ k ih => rw [afterTaking_succ, ih, indexed_takeFirst]

theorem values_afterTaking_self (p : Parameters) (n : Text) (k : Nat) :
    (p.afterTaking n k).values n = (p.values n).drop k := by
  induction k generalizing p with
  | zero => rfl
  | succ k ih => rw [afterTaking_succ, ih, values_takeFirst_self, List.drop_tail]

theorem values_afterTaking_of_ne (h : n ≠ m) (p : Parameters) (k : Nat) :
    (p.afterTaking n k).values m = p.values m := by
  induction k generalizing p with
  | zero => rfl
  | succ k ih => rw [afterTaking_succ, ih, values_takeFirst_of_ne h]

/-- The name stays where it is until its last value is taken. -/
theorem names_afterTaking (h : p.named.WellFormed) (n : Text) (k : Nat) :
    (p.afterTaking n k).names = if k < (p.values n).length then p.names else p.names.filter (· ≠ n) := by
  induction k generalizing p with
  | zero =>
    change p.names = _
    split
    · rfl
    · next hk =>
      have hn : n ∉ p.names := by
        rw [mem_names_iff h, not_not]
        simpa using hk
      exact (filter_names_of_not_mem hn).symm
  | succ k ih =>
    have hrest : (p.takeFirst n).2.names.filter (· ≠ n) = p.names.filter (· ≠ n) :=
      filter_names_takeFirst p (by simp)
    rw [afterTaking_succ, ih (wellFormed_takeFirst h n), values_takeFirst_self, hrest, List.length_tail]
    by_cases hk : k + 1 < (p.values n).length
    · have hmore : 1 < (p.values n).length := by omega
      rw [if_pos hk, if_pos (by omega), names_takeFirst h, if_pos hmore]
    · rw [if_neg hk, if_neg (by omega)]

end takings

/-- Parameters keep every name once and none without values. They are equal if their positional values are and
every name has the same values, and then neither what is read of them nor what the same changes do to them is
different. Values of a name are taken in their order, which leaves all else as it is. -/
theorem equality_up_to_order (hp : p.Reachable) (hq : q.Reachable) :
    (p.names.Nodup ∧ ∀ n ∈ p.names, p.values n ≠ []) ∧
    (p.isEmpty = true ↔ p.indexed = [] ∧ p.pairs = []) ∧
    p.named.length = (p.pairs.map Prod.fst).toFinset.card ∧
    (∀ n, p.get? n = (p.values n).head? ∧ (p.get? n = none ↔ n ∉ p.names)) ∧
    (p.same q = true ↔ p.indexed = q.indexed ∧ ∀ n, p.values n = q.values n) ∧
    (p.same q = true → p.ReadsAlike q ∧ ∀ cs ds, List.Forall₂ Change.Alike cs ds →
      p.takenBy cs = q.takenBy ds ∧ (p.changed cs).same (q.changed ds) = true) ∧
    ∀ n k, ((p.afterTaking n k).takeFirst n).1 = (p.values n)[k]? ∧
      (p.afterTaking n k).values n = (p.values n).drop k ∧
      (∀ m, n ≠ m → (p.afterTaking n k).values m = p.values m) ∧
      (p.afterTaking n k).names =
        (if k < (p.values n).length then p.names else p.names.filter (· ≠ n)) ∧
      (p.afterTaking n k).indexed = p.indexed := by
  have hwp := hp.wellFormed
  have hwq := hq.wellFormed
  have hsame := same_iff_agrees hwp hwq
  refine ⟨⟨hwp.nodup_names, fun n => (mem_names_iff hwp).mp⟩, isEmpty_iff hwp, length_named hwp, ?_, ?_, ?_, ?_⟩
  · intro n
    rw [mem_names_iff hwp, not_not, get?, List.head?_eq_none_iff]
    exact ⟨rfl, Iff.rfl⟩
  · exact hsame.trans ⟨fun h => ⟨h.indexed, h.values⟩, fun h => ⟨h.1, h.2⟩⟩
  · intro h
    have hagrees := hsame.mp h
    exact ⟨hagrees.readsAlike hwp hwq, fun cs ds hcs => hagrees.changed hcs hp hq⟩
  · intro n k
    refine ⟨?_, values_afterTaking_self p n k, fun m hm => values_afterTaking_of_ne hm p k,
      names_afterTaking hwp n k, indexed_afterTaking p n k⟩
    rw [fst_takeFirst, values_afterTaking_self, List.head?_drop]

namespace Swapped

def left : Parameters := .ofQueryText "a=1&b=2".toList

def right : Parameters := (Parameters.add {} ['b'] ['2']).add ['a'] ['1']

/-- Two orders of the same two names, which a merge and the taking of a value do not tell apart. -/
theorem equality_up_to_order_swapped : left.Reachable ∧ right.Reachable ∧ left.names ≠ right.names ∧
    left.same right = true ∧
    left.takenBy [.merge left, .takeFirst ['a'], .erase ['b']] =
      right.takenBy [.merge right, .takeFirst ['a'], .erase ['b']] ∧
    (left.changed [.merge left, .takeFirst ['a'], .erase ['b']]).same
      (right.changed [.merge right, .takeFirst ['a'], .erase ['b']]) = true := by
  have hl : left.Reachable := .ofQueryText _
  have hr : right.Reachable := (Reachable.empty.add _ _).add _ _
  have hs : left.same right = true := by decide +kernel
  have hcs : List.Forall₂ Change.Alike [.merge left, .takeFirst ['a'], .erase ['b']]
      [.merge right, .takeFirst ['a'], .erase ['b']] :=
    .cons (.merge hl hr hs) (.cons (.takeFirst _) (.cons (.erase _) .nil))
  obtain ⟨_, _, _, _, _, hcongr, _⟩ := equality_up_to_order hl hr
  exact ⟨hl, hr, by decide +kernel, hs, (hcongr hs).2 _ _ hcs⟩

end Swapped

end Parameters
end PageRouting
