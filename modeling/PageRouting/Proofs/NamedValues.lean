import PageRouting.Parameters

/-! Named values as adding and replacing build them: names stand once and have values, and what happens
to one name leaves the values of all others alone. -/
namespace PageRouting

namespace NamedValues
variable {nv : NamedValues}

def names (nv : NamedValues) : List Text := nv.map Prod.fst

theorem names_cons (e : Text × List Text) (nv : NamedValues) : names (e :: nv) = e.1 :: nv.names := rfl

/-- Changes the values of a name where it stands; a name without values comes in at the end. Adding and
replacing are both of this kind. -/
def update : NamedValues → Text → (List Text → List Text) → NamedValues
  | [], n, f => [(n, f [])]
  | (m, vs) :: rest, n, f => if m = n then (m, f vs) :: rest else (m, vs) :: update rest n f

theorem add_eq_update (nv : NamedValues) (n v : Text) : nv.add n v = nv.update n (· ++ [v]) := by
  induction nv with
  | nil => rfl
  | cons e nv ih => rw [add, update, ih]

theorem set_eq_update (nv : NamedValues) (n : Text) (vs : List Text) :
    nv.set n vs = nv.update n fun _ => vs := by
  induction nv with
  | nil => rfl
  | cons e nv ih => rw [set, update, ih]

theorem values?_cons_self (n : Text) (vs : List Text) (nv : NamedValues) :
    NamedValues.values? ((n, vs) :: nv) n = some vs := List.lookup_cons_self

theorem values?_cons_of_ne {m n : Text} (h : m ≠ n) (vs : List Text) (nv : NamedValues) :
    NamedValues.values? ((m, vs) :: nv) n = nv.values? n := by
  have hb : (n == m) = false := beq_eq_false_iff_ne.mpr h.symm
  rw [values?, List.lookup_cons, hb]
  rfl

theorem values?_eq_none_iff {n : Text} : nv.values? n = none ↔ n ∉ nv.names := by
  induction nv with
  | nil => exact ⟨fun _ => List.not_mem_nil, fun _ => rfl⟩
  | cons e nv ih =>
    obtain ⟨m, vs⟩ := e
    rw [names_cons, List.mem_cons, not_or]
    by_cases h : m = n
    · rw [h, values?_cons_self]
      simp
    · rw [values?_cons_of_ne h, ih]
      exact ⟨fun hn => ⟨fun he => h he.symm, hn⟩, And.right⟩

theorem values?_update_self (nv : NamedValues) (n : Text) (f : List Text → List Text) :
    (nv.update n f).values? n = some (f ((nv.values? n).getD [])) := by
  induction nv with
  | nil => exact values?_cons_self n (f []) []
  | cons e nv ih =>
    obtain ⟨m, vs⟩ := e
    rw [update]
    split
    · next h =>
      subst h
      rw [values?_cons_self, values?_cons_self]
      rfl
    · next h => rw [values?_cons_of_ne h, values?_cons_of_ne h, ih]

theorem values?_update_of_ne {n m : Text} (h : n ≠ m) (nv : NamedValues) (f : List Text → List Text) :
    (nv.update n f).values? m = nv.values? m := by
  induction nv with
  | nil => exact values?_cons_of_ne h (f []) []
  | cons e nv ih =>
    obtain ⟨k, vs⟩ := e
    rw [update]
    split
    · next hk =>
      subst hk
      rw [values?_cons_of_ne h, values?_cons_of_ne h]
    · by_cases hm : k = m
      · rw [hm, values?_cons_self, values?_cons_self]
      · rw [values?_cons_of_ne hm, values?_cons_of_ne hm, ih]

theorem values?_erase_self (nv : NamedValues) (n : Text) : (nv.erase n).values? n = none := by
  rw [values?_eq_none_iff, names, erase]
  intro h
  obtain ⟨e, he, rfl⟩ := List.mem_map.mp h
  exact of_decide_eq_true (List.mem_filter.mp he).2 rfl

theorem values?_erase_of_ne {n m : Text} (h : n ≠ m) (nv : NamedValues) :
    (nv.erase n).values? m = nv.values? m := by
  induction nv with
  | nil => rfl
  | cons e nv ih =>
    obtain ⟨k, vs⟩ := e
    rw [erase] at ih
    rw [erase, List.filter_cons]
    by_cases hk : k = n
    · rw [if_neg (by simpa using hk), ih, hk, values?_cons_of_ne h]
    · rw [if_pos (by simpa using hk)]
      by_cases hm : k = m
      · rw [hm, values?_cons_self, values?_cons_self]
      · rw [values?_cons_of_ne hm, values?_cons_of_ne hm, ih]

theorem names_erase (nv : NamedValues) (n : Text) : (nv.erase n).names = nv.names.filter (· ≠ n) := by
  rw [names, names, erase, List.filter_map]
  rfl

theorem names_update (nv : NamedValues) (n : Text) (f : List Text → List Text) :
    (nv.update n f).names = if n ∈ nv.names then nv.names else nv.names ++ [n] := by
  induction nv with
  | nil => rfl
  | cons e nv ih =>
    obtain ⟨m, vs⟩ := e
    rw [update]
    by_cases h : m = n
    · have hn : n ∈ names ((m, vs) :: nv) := List.mem_cons.mpr (.inl h.symm)
      rw [if_pos h, if_pos hn]
      rfl
    · rw [if_neg h, names_cons, ih, names_cons]
      by_cases hn : n ∈ names nv
      · rw [if_pos hn, if_pos (List.mem_cons_of_mem _ hn)]
      · have hc : n ∉ m :: names nv := by
          rw [List.mem_cons, not_or]
          exact ⟨fun he => h he.symm, hn⟩
        rw [if_neg hn, if_neg hc]
        rfl

theorem names_add (nv : NamedValues) (n v : Text) :
    (nv.add n v).names = if n ∈ nv.names then nv.names else nv.names ++ [n] := by
  rw [add_eq_update, names_update]

/-- Every name stands once, and none without values. -/
structure WellFormed (nv : NamedValues) : Prop where
  nodup_names : nv.names.Nodup
  values_ne_nil : ∀ e ∈ nv, e.2 ≠ []

namespace WellFormed

theorem nil : WellFormed [] := ⟨List.nodup_nil, fun _ h => nomatch h⟩

theorem tail {e : Text × List Text} (h : WellFormed (e :: nv)) : nv.WellFormed :=
  ⟨(List.nodup_cons.mp h.nodup_names).2, fun e he => h.values_ne_nil e (List.mem_cons_of_mem _ he)⟩

theorem update (h : nv.WellFormed) (n : Text) {f : List Text → List Text} (hf : ∀ vs, f vs ≠ []) :
    (nv.update n f).WellFormed := by
  constructor
  · rw [names_update]
    split
    · exact h.nodup_names
    · next hn =>
      refine List.nodup_append.mpr ⟨h.nodup_names, List.pairwise_singleton _ _, ?_⟩
      rintro a ha b hb rfl
      exact hn (List.mem_singleton.mp hb ▸ ha)
  · induction nv with
    | nil =>
      intro e he
      cases List.mem_singleton.mp he
      exact hf []
    | cons e nv ih =>
      obtain ⟨m, vs⟩ := e
      rw [NamedValues.update]
      split
      · rintro e (_ | ⟨_, he⟩)
        · exact hf vs
        · exact h.tail.values_ne_nil e he
      · rintro e (_ | ⟨_, he⟩)
        · exact h.values_ne_nil _ List.mem_cons_self
        · exact ih h.tail e he

theorem add (h : nv.WellFormed) (n v : Text) : (nv.add n v).WellFormed := by
  rw [add_eq_update]
  exact h.update n fun vs => List.append_ne_nil_of_right_ne_nil vs (List.cons_ne_nil v [])

theorem set (h : nv.WellFormed) (n : Text) {vs : List Text} (hv : vs ≠ []) : (nv.set n vs).WellFormed := by
  rw [set_eq_update]
  exact h.update n fun _ => hv

theorem erase (h : nv.WellFormed) (n : Text) : (nv.erase n).WellFormed :=
  ⟨h.nodup_names.sublist (List.filter_sublist.map _),
    fun e he => h.values_ne_nil e (List.mem_filter.mp he).1⟩

theorem values?_eq_some_iff (h : nv.WellFormed) {n : Text} {vs : List Text} :
    nv.values? n = some vs ↔ (n, vs) ∈ nv := by
  induction nv with
  | nil => simp [NamedValues.values?]
  | cons e nv ih =>
    obtain ⟨m, ws⟩ := e
    have hnew : m ∉ names nv := (List.nodup_cons.mp h.nodup_names).1
    by_cases hm : m = n
    · subst hm
      have hrest : (m, vs) ∉ nv := fun hv => hnew (List.mem_map_of_mem hv)
      simp [values?_cons_self, hrest, eq_comm]
    · rw [values?_cons_of_ne hm, ih h.tail]
      simp [Ne.symm hm]

/-- Named values are nothing but their names, in order, and the values of each. -/
theorem ext {nv' : NamedValues} (h : nv.WellFormed) (h' : nv'.WellFormed) (hn : nv.names = nv'.names)
    (hv : ∀ n, (nv.values? n).getD [] = (nv'.values? n).getD []) : nv = nv' := by
  induction nv generalizing nv' with
  | nil => exact (List.map_eq_nil_iff.mp hn.symm).symm
  | cons e nv ih =>
    cases nv' with
    | nil => cases hn
    | cons e' nv' =>
      obtain ⟨n, vs⟩ := e
      obtain ⟨n', vs'⟩ := e'
      rw [names_cons, names_cons] at hn
      obtain ⟨rfl, hrest⟩ := List.cons.inj hn
      have hvs : vs = vs' := by
        have hc := hv n
        rwa [values?_cons_self, values?_cons_self] at hc
      subst hvs
      refine congrArg _ (ih h.tail h'.tail hrest fun m => ?_)
      by_cases hm : n = m
      · subst hm
        rw [values?_eq_none_iff.mpr (List.nodup_cons.mp h.nodup_names).1,
          values?_eq_none_iff.mpr (List.nodup_cons.mp h'.nodup_names).1]
      · have hc := hv m
        rwa [values?_cons_of_ne hm, values?_cons_of_ne hm] at hc

end WellFormed

/-- Adds one value after the other. -/
def addAll (nv : NamedValues) (pairs : List (Text × Text)) : NamedValues :=
  pairs.foldl (fun nv e => nv.add e.1 e.2) nv

/-- The values that pairs give to a name. -/
def valuesIn (pairs : List (Text × Text)) (n : Text) : List Text :=
  (pairs.filter (·.1 = n)).map Prod.snd

theorem valuesIn_cons_self (n v : Text) (pairs : List (Text × Text)) :
    valuesIn ((n, v) :: pairs) n = v :: valuesIn pairs n := by simp [valuesIn]

theorem valuesIn_cons_of_ne {m n : Text} (h : m ≠ n) (v : Text) (pairs : List (Text × Text)) :
    valuesIn ((m, v) :: pairs) n = valuesIn pairs n := by simp [valuesIn, h]

theorem WellFormed.addAll (h : nv.WellFormed) (pairs : List (Text × Text)) : (nv.addAll pairs).WellFormed := by
  induction pairs generalizing nv with
  | nil => exact h
  | cons e pairs ih => exact ih (h.add e.1 e.2)

theorem names_addAll_values (nv : NamedValues) (n : Text) {vs : List Text} (h : vs ≠ []) :
    (nv.addAll (vs.map (n, ·))).names = if n ∈ nv.names then nv.names else nv.names ++ [n] := by
  induction vs generalizing nv with
  | nil => exact absurd rfl h
  | cons v vs ih =>
    change ((nv.add n v).addAll (vs.map (n, ·))).names = _
    cases vs with
    | nil => exact names_add nv n v
    | cons w vs =>
      -- after the first value the name is there, so that the others add none
      have hmem : n ∈ (nv.add n v).names := by
        rw [names_add]
        split
        · next hn => exact hn
        · exact List.mem_append_right _ List.mem_cons_self
      rw [ih _ (List.cons_ne_nil w vs), if_pos hmem, names_add]

/-- Names that are new come after those that are there, in their own order. -/
theorem names_addAll_pairs {nv' : NamedValues} (h : nv'.WellFormed) (nv : NamedValues) :
    (nv.addAll nv'.pairs).names = nv.names ++ nv'.names.filter (· ∉ nv.names) := by
  induction nv' generalizing nv with
  | nil => exact (List.append_nil _).symm
  | cons e nv' ih =>
    obtain ⟨n, vs⟩ := e
    have hvs : vs ≠ [] := h.values_ne_nil (n, vs) List.mem_cons_self
    have hnew : n ∉ names nv' := (List.nodup_cons.mp h.nodup_names).1
    have hsplit : nv.addAll (pairs ((n, vs) :: nv')) = (nv.addAll (vs.map (n, ·))).addAll (pairs nv') :=
      List.foldl_append
    rw [hsplit, ih h.tail, names_addAll_values nv n hvs, names_cons]
    by_cases hn : n ∈ nv.names
    · rw [if_pos hn, List.filter_cons_of_neg (by simpa using hn)]
    · have hf : (names nv').filter (· ∉ nv.names ++ [n]) = (names nv').filter (· ∉ nv.names) := by
        refine List.filter_congr fun m hm => ?_
        have hne : m ≠ n := fun he => hnew (he ▸ hm)
        simp [hne]
      rw [if_neg hn, List.filter_cons_of_pos (by simpa using hn), hf, List.append_assoc]
      rfl

/-- One value for each name makes just these names. -/
theorem names_addAll_of_nodup {bound : List (Text × Text)} (h : (nv.names ++ bound.map Prod.fst).Nodup) :
    (nv.addAll bound).names = nv.names ++ bound.map Prod.fst := by
  induction bound generalizing nv with
  | nil => exact (List.append_nil _).symm
  | cons e bound ih =>
    have hsplit : nv.names ++ (e :: bound).map Prod.fst = (nv.names ++ [e.1]) ++ bound.map Prod.fst := by
      simp
    rw [hsplit] at h ⊢
    have hn : e.1 ∉ nv.names := by
      have hd := (List.nodup_append.mp (List.nodup_append.mp h).1).2.2
      exact fun hm => hd e.1 hm e.1 List.mem_cons_self rfl
    have hadd : (nv.add e.1 e.2).names = nv.names ++ [e.1] := by
      rw [names_add, if_neg hn]
    rw [← hadd] at h ⊢
    exact ih h

/-- A name that stands once has its value alone. -/
theorem valuesIn_of_nodup {bound : List (Text × Text)} (h : (bound.map Prod.fst).Nodup) {n v : Text}
    (hm : (n, v) ∈ bound) : valuesIn bound n = [v] := by
  induction bound with
  | nil => cases hm
  | cons e bound ih =>
    obtain ⟨m, u⟩ := e
    obtain ⟨hnew, hd⟩ := List.nodup_cons.mp h
    rcases List.mem_cons.mp hm with he | hm
    · cases he
      have hnone : valuesIn bound n = [] := by
        rw [valuesIn, List.map_eq_nil_iff, List.filter_eq_nil_iff]
        intro e he hn
        have hname : e.1 ∈ bound.map Prod.fst := List.mem_map_of_mem he
        exact hnew (of_decide_eq_true hn ▸ hname)
      rw [valuesIn_cons_self, hnone]
    · have hname : n ∈ bound.map Prod.fst := List.mem_map_of_mem hm
      have hne : m ≠ n := fun he => hnew (he ▸ hname)
      rw [valuesIn_cons_of_ne hne, ih hd hm]

theorem update_append {n : Text} (h : n ∉ nv.names) (nv' : NamedValues) (f : List Text → List Text) :
    update (nv ++ nv') n f = nv ++ update nv' n f := by
  induction nv with
  | nil => rfl
  | cons e nv ih =>
    obtain ⟨m, vs⟩ := e
    rw [names_cons, List.mem_cons, not_or] at h
    rw [List.cons_append, update, if_neg (Ne.symm h.1), ih h.2]
    rfl

private theorem addAll_last {n : Text} (h : n ∉ nv.names) (ws vs : List Text) :
    addAll (nv ++ [(n, ws)]) (vs.map (n, ·)) = nv ++ [(n, ws ++ vs)] := by
  induction vs generalizing ws with
  | nil => rw [List.append_nil]; rfl
  | cons v vs ih =>
    have hv : NamedValues.add (nv ++ [(n, ws)]) n v = nv ++ [(n, ws ++ [v])] := by
      rw [add_eq_update, update_append h, update, if_pos rfl]
    change addAll (NamedValues.add (nv ++ [(n, ws)]) n v) (vs.map (n, ·)) = _
    rw [hv, ih, List.append_assoc]
    rfl

private theorem addAll_new {n : Text} (h : n ∉ nv.names) {vs : List Text} (hv : vs ≠ []) :
    nv.addAll (vs.map (n, ·)) = nv ++ [(n, vs)] := by
  cases vs with
  | nil => exact absurd rfl hv
  | cons v vs =>
    have hn := update_append h [] (· ++ [v])
    rw [List.append_nil, ← add_eq_update] at hn
    change addAll (nv.add n v) (vs.map (n, ·)) = _
    rw [hn]
    exact addAll_last h [v] vs

/-- Names are restored in their order when the pairs come one by one. -/
theorem addAll_pairs {nv nv' : NamedValues} (h : WellFormed (nv ++ nv')) : nv.addAll nv'.pairs = nv ++ nv' := by
  induction nv' generalizing nv with
  | nil => exact (List.append_nil nv).symm
  | cons e nv' ih =>
    obtain ⟨n, vs⟩ := e
    have hn : n ∉ nv.names := by
      have hd := h.nodup_names
      rw [names, List.map_append, List.nodup_append] at hd
      exact fun hn => hd.2.2 n hn n List.mem_cons_self rfl
    have hv : vs ≠ [] := h.values_ne_nil (n, vs) (List.mem_append_right nv List.mem_cons_self)
    have hsplit : nv ++ (n, vs) :: nv' = nv ++ [(n, vs)] ++ nv' := by simp
    rw [hsplit] at h ⊢
    rw [← ih h, ← addAll_new hn hv]
    exact List.foldl_append

end NamedValues

end PageRouting
