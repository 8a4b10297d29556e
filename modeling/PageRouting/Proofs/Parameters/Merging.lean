import PageRouting.Proofs.Parameters

/-! Parameters under merging. Names keep the order in which they first came, and the values of a name that of the
merges, so that it makes no difference in which groups sets are merged. -/
namespace PageRouting.Parameters

variable {p q a b c : Parameters}

/-- Parameters are nothing but their positional values, their names in order and the values of each. -/
theorem ext_of_wellFormed (hp : p.named.WellFormed) (hq : q.named.WellFormed) (hi : p.indexed = q.indexed)
    (hn : p.names = q.names) (hv : ∀ n, p.values n = q.values n) : p = q := by
  have hnamed : p.named = q.named := hp.ext hq hn hv
  calc
    p = ⟨p.indexed, p.named⟩ := rfl
    _ = ⟨q.indexed, q.named⟩ := by rw [hi, hnamed]

theorem eq_empty_of_isEmpty (h : p.isEmpty = true) : p = {} := by
  obtain ⟨indexed, named⟩ := p
  obtain ⟨hi, hn⟩ := Bool.and_eq_true_iff.mp h
  cases List.isEmpty_iff.mp hi
  cases List.isEmpty_iff.mp hn
  rfl

theorem wellFormed_merge (hp : p.named.WellFormed) (q : Parameters) : (p.merge q).named.WellFormed := by
  rw [named_merge]
  exact hp.addAll q.pairs

theorem names_merge (hq : q.named.WellFormed) (p : Parameters) :
    (p.merge q).names = p.names ++ q.names.filter (· ∉ p.names) := by
  change (p.merge q).named.names = _
  rw [named_merge, pairs, NamedValues.names_addAll_pairs hq]
  rfl

theorem merge_empty (p : Parameters) : p.merge {} = p := rfl

theorem empty_merge (hp : p.named.WellFormed) : ({} : Parameters).merge p = p := by
  have hnil : ({} : Parameters).named.WellFormed := .nil
  apply ext_of_wellFormed (wellFormed_merge hnil p) hp
  · rw [indexed_merge]
    rfl
  · rw [names_merge hp]
    exact List.filter_eq_self.mpr fun _ _ => rfl
  · intro n
    rw [values_merge hp]
    rfl

theorem merge_assoc (ha : a.named.WellFormed) (hb : b.named.WellFormed) (hc : c.named.WellFormed) :
    (a.merge b).merge c = a.merge (b.merge c) := by
  have hab := wellFormed_merge ha b
  have hbc := wellFormed_merge hb c
  apply ext_of_wellFormed (wellFormed_merge hab c) (wellFormed_merge ha (b.merge c))
  · rw [indexed_merge, indexed_merge, indexed_merge, indexed_merge, List.append_assoc]
  · rw [names_merge hc, names_merge hb, names_merge hbc, names_merge hc, List.filter_append, List.filter_filter,
      List.append_assoc]
    -- what `c` adds is in neither of the others, whichever it is held against first
    congr 2
    apply List.filter_congr
    intro n _
    by_cases hna : n ∈ a.names <;> simp [hna]
  · intro n
    rw [values_merge hc, values_merge hb, values_merge hbc, values_merge hc, List.append_assoc]

/-- Merging is associative, names and their order included, and does nothing with a set that is empty. A merged set
has all positional values of the first and then those of the second, and so have its names their values; its names
are those of the first and then the new ones of the second. -/
theorem merge_monoid (ha : a.Reachable) (hb : b.Reachable) (hc : c.Reachable) :
    (a.merge b).merge c = a.merge (b.merge c) ∧
      (∀ e : Parameters, e.isEmpty = true → e.merge a = a ∧ a.merge e = a) ∧
      (a.merge b).indexed = a.indexed ++ b.indexed ∧
      (∀ n, (a.merge b).values n = a.values n ++ b.values n) ∧
      (a.merge b).names = a.names ++ b.names.filter (· ∉ a.names) := by
  refine ⟨merge_assoc ha.wellFormed hb.wellFormed hc.wellFormed, fun e he => ?_, indexed_merge a b,
    values_merge hb.wellFormed a, names_merge hb.wellFormed a⟩
  cases eq_empty_of_isEmpty he
  exact ⟨empty_merge ha.wellFormed, merge_empty a⟩

namespace Merged

def first : Parameters := (ofQueryText "x=1&y=2".toList).push ['a']

def second : Parameters := ofQueryText "z&x=3&z=4".toList

def third : Parameters := (ofQueryText "w=5&z=6&y=".toList).push ['b']

/-- Three sets that share names in different orders. -/
theorem merge_monoid_shared : first.Reachable ∧ second.Reachable ∧ third.Reachable ∧
    (first.merge second).merge third = first.merge (second.merge third) ∧
    ({} : Parameters).merge first = first ∧ first.merge {} = first ∧
    (first.merge second).indexed = [['a']] ∧ (first.merge second).values ['x'] = [['1'], ['3']] ∧
    (first.merge second).names = [['x'], ['y'], ['z']] := by
  have hfirst : first.Reachable := (Reachable.ofQueryText _).push _
  have hsecond : second.Reachable := .ofQueryText _
  have hthird : third.Reachable := (Reachable.ofQueryText _).push _
  obtain ⟨hassoc, hempty, hindexed, hvalues, hnames⟩ := merge_monoid hfirst hsecond hthird
  obtain ⟨hleft, hright⟩ := hempty {} rfl
  refine ⟨hfirst, hsecond, hthird, hassoc, hleft, hright, ?_, ?_, ?_⟩
  · rw [hindexed]
    decide +kernel
  · rw [hvalues]
    decide +kernel
  · rw [hnames]
    decide +kernel

end Merged

end PageRouting.Parameters
