import PageRouting.Proofs.Path.NormalForm

/-! What stands at the front of a path after collapsing. A `/` at the front is an empty segment and stays; but where
all segments before another empty one fall together, that one comes to the front. -/
namespace PageRouting.Path

variable {s path t : Text} {segments a b : List Text}

/-- A segment comes to the front only when those before it have gone, all among themselves. -/
theorem CollapsesTo.exists_of_cons (h : CollapsesTo segments (s :: a)) :
    ∃ before after, segments = before ++ s :: after ∧ CollapsesTo before [] ∧ CollapsesTo after a := by
  induction h using Relation.ReflTransGen.head_induction_on with
  | refl => exact ⟨[], a, rfl, .refl, .refl⟩
  | head hstep _ ih =>
    obtain ⟨front, tail, hsplit, hfront, htail⟩ := ih
    cases hstep with
    | pair before ht after =>
      rcases List.append_eq_append_iff.mp hsplit with ⟨mid, rfl, rfl⟩ | ⟨mid, rfl, hmid⟩
      -- the pair was taken out in front of the segment
      · exact ⟨_, tail, by simp, .head (.pair before ht mid) hfront, htail⟩
      · cases mid with
        | nil =>
          obtain rfl : after = _ := hmid.symm
          exact ⟨_, tail, by simp, .head (.pair front ht []) (by simpa using hfront), htail⟩
        | cons u mid =>
          obtain ⟨rfl, rfl⟩ := List.cons.inj hmid
          exact ⟨front, _, by simp, hfront, .head (.pair mid ht after) htail⟩

/-- Joined segments begin with the separator only where the first of several is empty. -/
theorem head?_join_iff (h : ∀ p ∈ segments, '/' ∉ p) :
    (Text.join '/' segments).head? = some '/' ↔ ∃ more, more ≠ [] ∧ segments = [] :: more := by
  match segments with
  | [] => simp [Text.join]
  | [p] =>
    have hp : '/' ∉ p := h p List.mem_cons_self
    simp only [Text.join, List.intercalate_singleton, List.cons.injEq]
    constructor
    · exact fun hhead => absurd (List.mem_of_mem_head? hhead) hp
    · rintro ⟨more, hmore, -, rfl⟩
      exact absurd rfl hmore
  | [] :: q :: rest => simp [Text.join, List.intercalate_cons_cons]
  | (c :: p) :: q :: rest =>
    have hc : '/' ≠ c := fun hc => h (c :: p) List.mem_cons_self (hc ▸ List.mem_cons_self)
    simp [Text.join, List.intercalate_cons_cons, Ne.symm hc]

theorem head?_collapse_iff_kept (path : Text) :
    (collapse path).head? = some '/' ↔
      kept (path.splitOn '/') = [[]] ∧ path.getLast? = some '/' ∨
        ∃ more, more ≠ [] ∧ kept (path.splitOn '/') = [] :: more := by
  rw [collapse_eq]
  split
  · next h => exact iff_of_true rfl (.inl h)
  · next h => rw [or_iff_right h, head?_join_iff fun _ => slash_not_mem_of_mem_kept]

/-- Segments that fall together stand in front of an empty one, which is the last or has something left after it. -/
def OpensAfter (dirs : List Text) (path : Text) : Prop :=
  CollapsesTo dirs [] ∧ (∀ d ∈ dirs, '/' ∉ d) ∧
    (dirs ≠ [] ∧ path = below dirs [] ∨ ∃ t, path = below dirs ('/' :: t) ∧ ¬ CollapsesTo (t.splitOn '/') [])

theorem exists_opensAfter_of_last (hkept : kept (path.splitOn '/') = [[]]) (hlast : path.getLast? = some '/') :
    ∃ dirs, OpensAfter dirs path := by
  obtain ⟨init, rfl⟩ := List.getLast?_eq_some_iff.mp hlast
  have hne := List.splitOn_ne_nil '/' init
  have hsplit : (init ++ ['/']).splitOn '/' = init.splitOn '/' ++ [[]] := List.splitOn_append_cons_self init []
  have hpath : init ++ ['/'] = below (init.splitOn '/') [] := by rw [← join_append_slash hne, Text.join_splitOn]
  rw [hsplit, kept_concat_nil] at hkept
  have hgone : kept (init.splitOn '/') = [] := by simpa using hkept
  exact ⟨_, collapsesTo_nil_iff.mpr hgone, fun _ => Text.not_mem_of_mem_splitOn, .inl ⟨hne, hpath⟩⟩

theorem exists_opensAfter_of_more {more : List Text} (hmore : more ≠ [])
    (hkept : kept (path.splitOn '/') = [] :: more) : ∃ dirs, OpensAfter dirs path := by
  have hsettled := settled_kept (path.splitOn '/')
  have hto := collapsesTo_kept (path.splitOn '/')
  rw [hkept] at hsettled hto
  obtain ⟨dirs, after, hsplit, hdirs, hafter⟩ := hto.exists_of_cons
  have hsep : ∀ p ∈ dirs ++ [] :: after, '/' ∉ p := fun p hp => Text.not_mem_of_mem_splitOn (hsplit ▸ hp)
  have hkeeps : kept after = more := by rw [hafter.kept_eq, hsettled.of_cons.kept_eq]
  have hne : after ≠ [] := by
    rintro rfl
    exact hmore hkeeps.symm
  have hpath : path = below dirs ('/' :: Text.join '/' after) := by
    rw [← Text.join_splitOn '/' path, hsplit, join_append (List.cons_ne_nil _ _), Text.join,
      List.intercalate_cons_of_ne_nil hne]
    rfl
  have ht : (Text.join '/' after).splitOn '/' = after :=
    Text.splitOn_join (fun p hp => hsep p (List.mem_append_right _ (List.mem_cons_of_mem _ hp))) hne
  refine ⟨dirs, hdirs, fun d hd => hsep d (List.mem_append_left _ hd), .inr ⟨_, hpath, ?_⟩⟩
  rw [ht, collapsesTo_nil_iff, hkeeps]
  exact hmore

theorem head?_collapse_iff (path : Text) : (collapse path).head? = some '/' ↔ ∃ dirs, OpensAfter dirs path := by
  rw [head?_collapse_iff_kept]
  constructor
  · rintro (⟨hkept, hlast⟩ | ⟨more, hmore, hkept⟩)
    · exact exists_opensAfter_of_last hkept hlast
    · exact exists_opensAfter_of_more hmore hkept
  · rintro ⟨dirs, hdirs, hsep, ⟨hne, rfl⟩ | ⟨t, rfl, ht⟩⟩
    · rw [splitOn_below hsep, kept_append_of_collapsesTo_nil hdirs]
      exact .inl ⟨rfl, getLast?_below hne []⟩
    · have hsplit : ('/' :: t).splitOn '/' = [] :: t.splitOn '/' := List.splitOn_append_cons_self [] t
      rw [splitOn_below hsep, hsplit, kept_append_of_collapsesTo_nil hdirs, kept_cons not_ordinary_nil]
      exact .inr ⟨_, mt collapsesTo_nil_iff.mpr ht, rfl⟩

/-- A `/` at the front stays as long as anything is left after it. Where there is none, one comes to the front just
where all segments before an empty one fall together. -/
theorem collapse_front (path : Text) :
    (∀ t, path = '/' :: t → ¬ CollapsesTo (t.splitOn '/') [] → (collapse path).head? = some '/') ∧
      (path.head? ≠ some '/' → ((collapse path).head? = some '/' ↔ ∃ dirs ≠ [], OpensAfter dirs path)) := by
  rw [head?_collapse_iff]
  refine ⟨fun t hpath ht => ⟨[], .refl, List.forall_mem_nil _, .inr ⟨t, hpath, ht⟩⟩, fun hfront => ?_⟩
  constructor
  · rintro ⟨dirs, hopens⟩
    refine ⟨dirs, ?_, hopens⟩
    rintro rfl
    rcases hopens.2.2 with ⟨hne, -⟩ | ⟨t, rfl, -⟩
    · exact hne rfl
    · exact hfront rfl
  · rintro ⟨dirs, -, hopens⟩
    exact ⟨dirs, hopens⟩

/-- A doubled `/` comes to the front, and the one that was there stays. -/
theorem collapse_front_sample :
    "app/..//login".toList.head? ≠ some '/' ∧ (collapse "app/..//login".toList).head? = some '/' ∧
      ¬ CollapsesTo ("app/../login".toList.splitOn '/') [] ∧
      (collapse "/app/../login".toList).head? = some '/' := by
  have hfront : "app/..//login".toList.head? ≠ some '/' := by decide
  have hpair : CollapsesTo ["app".toList, parent] [] := .single (.pair [] ⟨by decide, by decide⟩ [])
  have hopens : OpensAfter ["app".toList, parent] "app/..//login".toList :=
    ⟨hpair, by decide, .inr ⟨"login".toList, rfl, by rw [collapsesTo_nil_iff]; decide⟩⟩
  have hleft : ¬ CollapsesTo ("app/../login".toList.splitOn '/') [] := by
    rw [collapsesTo_nil_iff]
    decide
  exact ⟨hfront, ((collapse_front _).2 hfront).mpr ⟨_, List.cons_ne_nil _ _, hopens⟩, hleft,
    (collapse_front "/app/../login".toList).1 _ rfl hleft⟩

/-- So a `/` at the end can become one at the front. -/
theorem collapse_moves_slash : ¬ ∀ path, (collapse path).head? = some '/' ↔ path.head? = some '/' := by
  intro h
  have hfront := h "app/../".toList
  revert hfront
  decide

end PageRouting.Path
