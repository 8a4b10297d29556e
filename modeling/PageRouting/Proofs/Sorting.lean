/-! Lists sorted by descending key. Sorting is stable, so that what it makes of a list is known from what the list
holds of each key. -/
namespace PageRouting

section
variable {α β : Type} (key : α → Int)

theorem descends_trans (a b c : α) (hab : decide (key b ≤ key a)) (hbc : decide (key c ≤ key b)) :
    decide (key c ≤ key a) :=
  decide_eq_true (Int.le_trans (of_decide_eq_true hbc) (of_decide_eq_true hab))

theorem descends_total (a b : α) : decide (key b ≤ key a) || decide (key a ≤ key b) := by
  simpa using Int.le_total (key b) (key a)

theorem pairwise_mergeSort_by (l : List α) :
    (l.mergeSort fun a b => key b ≤ key a).Pairwise fun a b => key b ≤ key a :=
  (List.pairwise_mergeSort (descends_trans key) (descends_total key) l).imp of_decide_eq_true

/-- Sorting by a key leaves what is of one key in its order. -/
theorem filter_mergeSort_by (n : Int) (l : List α) :
    (l.mergeSort fun a b => key b ≤ key a).filter (key · = n) = l.filter (key · = n) := by
  have hclass : (l.filter (key · = n)).Pairwise fun a b => decide (key b ≤ key a) := by
    rw [List.pairwise_filter]
    apply List.pairwise_of_forall
    intro a b ha hb
    simp_all
  have hsub : (l.filter (key · = n)).Sublist (l.mergeSort fun a b => key b ≤ key a) :=
    List.sublist_mergeSort (descends_trans key) (descends_total key) hclass List.filter_sublist
  have hlength := ((List.mergeSort_perm l fun a b => key b ≤ key a).filter (key · = n)).length_eq
  apply Eq.symm
  apply List.Sublist.eq_of_length _ hlength.symm
  simpa using hsub.filter (key · = n)

section
variable {l l' : List α}

theorem mem_iff_of_filter_key (h : ∀ n, l.filter (key · = n) = l'.filter (key · = n)) (a : α) : a ∈ l ↔ a ∈ l' := by
  have hself (l : List α) : a ∈ l ↔ a ∈ l.filter (key · = key a) := by simp
  rw [hself l, h, ← hself]

/-- Lists that stand by descending key are known by what they hold of each key. -/
theorem eq_of_filter_key (hs : l.Pairwise fun a b => key b ≤ key a) (hs' : l'.Pairwise fun a b => key b ≤ key a)
    (h : ∀ n, l.filter (key · = n) = l'.filter (key · = n)) : l = l' := by
  have hmem := mem_iff_of_filter_key key h
  induction l generalizing l' with
  | nil => exact (List.eq_nil_iff_forall_not_mem.mpr fun a ha => List.not_mem_nil ((hmem a).mpr ha)).symm
  | cons a l ih =>
    cases l' with
    | nil => exact absurd ((hmem a).mp List.mem_cons_self) List.not_mem_nil
    | cons b l' =>
      -- each head has the highest key of both lists
      have hkey : key a = key b := by
        apply Int.le_antisymm
        · rcases List.mem_cons.mp ((hmem a).mp List.mem_cons_self) with rfl | ha
          · exact Int.le_refl _
          · exact List.rel_of_pairwise_cons hs' ha
        · rcases List.mem_cons.mp ((hmem b).mpr List.mem_cons_self) with rfl | hb
          · exact Int.le_refl _
          · exact List.rel_of_pairwise_cons hs hb
      have hhead := h (key a)
      simp only [List.filter_cons, hkey, decide_true, if_true, List.cons.injEq] at hhead
      obtain ⟨rfl, hclass⟩ := hhead
      have hrest (n : Int) : l.filter (key · = n) = l'.filter (key · = n) := by
        by_cases hn : key a = n
        · exact hn ▸ hclass
        · simpa [List.filter_cons, hn] using h n
      exact congrArg (a :: ·) (ih hs.tail hs'.tail hrest (mem_iff_of_filter_key key hrest))

end

/-- Sorting by a key before or after a map that keeps it. -/
theorem map_mergeSort_by (key : β → Int) (f : α → β) (l : List α) :
    (l.mergeSort fun a b => key (f b) ≤ key (f a)).map f = (l.map f).mergeSort fun a b => key b ≤ key a :=
  List.map_mergeSort fun _ _ _ _ => rfl

section
variable {key : α → Int} {key' : β → Int} {f : α → List β} {l : List α} (h : ∀ a ∈ l, ∀ b ∈ f a, key' b = key a)
include h

theorem filter_flatMap_by (n : Int) : (l.flatMap f).filter (key' · = n) = (l.filter (key · = n)).flatMap f := by
  induction l with
  | nil => rfl
  | cons a l ih =>
    obtain ⟨ha, hl⟩ := List.forall_mem_cons.mp h
    rw [List.flatMap_cons, List.filter_append, ih hl, List.filter_cons]
    by_cases hn : key a = n
    · have hall : (f a).filter (key' · = n) = f a := List.filter_eq_self.mpr fun b hb => by simp [ha b hb, hn]
      rw [hall, if_pos (decide_eq_true hn), List.flatMap_cons]
    · have hnone : (f a).filter (key' · = n) = [] := List.filter_eq_nil_iff.mpr fun b hb => by simp [ha b hb, hn]
      rw [hnone, if_neg (by simpa using hn), List.nil_append]

/-- Groups whose members have the key of the group may be sorted as they are or member by member. -/
theorem mergeSort_flatMap : (l.flatMap f).mergeSort (fun a b => key' b ≤ key' a) =
    (l.mergeSort fun a b => key b ≤ key a).flatMap f := by
  have hsorted : ∀ a ∈ l.mergeSort fun a b => key b ≤ key a, ∀ b ∈ f a, key' b = key a :=
    fun a ha => h a (List.mem_mergeSort.mp ha)
  apply eq_of_filter_key key' (pairwise_mergeSort_by key' _)
  · rw [List.pairwise_flatMap]
    constructor
    · intro a ha
      apply List.pairwise_of_forall_mem_list
      intro b hb c hc
      exact Int.le_of_eq ((hsorted a ha c hc).trans (hsorted a ha b hb).symm)
    · apply (pairwise_mergeSort_by key l).imp_of_mem
      intro a a' ha ha' hle b hb b' hb'
      rwa [hsorted a ha b hb, hsorted a' ha' b' hb']
  · intro n
    rw [filter_mergeSort_by, filter_flatMap_by h, filter_flatMap_by hsorted, filter_mergeSort_by]

end
end
end PageRouting
