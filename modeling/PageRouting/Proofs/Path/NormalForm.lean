import Mathlib.Logic.Relation
import PageRouting.Proofs.Path

/-! Normal forms of paths. A segment and the `..` after it go together, pair by pair; in whatever order that is done,
it ends, and the same segments remain. These are what the stack of segments holds in the end. -/
namespace PageRouting.Path

variable {s : Text} {segments next a b : List Text}

/-- A segment that a `..` after it undoes. -/
def Ordinary (s : Text) : Prop := s ≠ [] ∧ s ≠ parent

/-- One pair is taken out, wherever it stands. -/
inductive Collapses : List Text → List Text → Prop
  | pair (before : List Text) {s : Text} (hs : Ordinary s) (after : List Text) :
      Collapses (before ++ s :: parent :: after) (before ++ after)

/-- Any number of pairs, one after the other. -/
abbrev CollapsesTo : List Text → List Text → Prop := Relation.ReflTransGen Collapses

/-- No pair is left. -/
def Settled (segments : List Text) : Prop := ∀ next, ¬ Collapses segments next

theorem Collapses.length_eq (h : Collapses segments next) : segments.length = next.length + 2 := by
  cases h with
  | pair before hs after =>
    simp only [List.length_append, List.length_cons]
    omega

theorem wellFounded_collapses : WellFounded fun next segments => Collapses segments next := by
  refine Subrelation.wf (fun {next segments} h => ?_) (measure List.length).wf
  have hlength := h.length_eq
  exact show next.length < segments.length by omega

theorem Collapses.subset (h : Collapses segments next) : next ⊆ segments := by
  cases h with
  | pair before hs after =>
    intro t ht
    rcases List.mem_append.mp ht with ht | ht
    · exact List.mem_append_left _ ht
    · exact List.mem_append_right _ (List.mem_cons_of_mem _ (List.mem_cons_of_mem _ ht))

theorem CollapsesTo.subset (h : CollapsesTo segments next) : next ⊆ segments := by
  induction h with
  | refl => exact List.Subset.refl _
  | tail _ hstep ih => exact List.Subset.trans hstep.subset ih

theorem Collapses.append_left (before : List Text) (h : Collapses a b) : Collapses (before ++ a) (before ++ b) := by
  cases h with
  | pair before' hs after =>
    rw [← List.append_assoc, ← List.append_assoc]
    exact .pair (before ++ before') hs after

theorem Collapses.append_right (h : Collapses a b) (after : List Text) : Collapses (a ++ after) (b ++ after) := by
  cases h with
  | pair before hs after' =>
    rw [List.append_assoc, List.append_assoc]
    exact .pair before hs (after' ++ after)

theorem CollapsesTo.append_left (before : List Text) (h : CollapsesTo a b) :
    CollapsesTo (before ++ a) (before ++ b) :=
  h.lift (before ++ ·) fun _ _ hstep => hstep.append_left before

theorem CollapsesTo.append_right (h : CollapsesTo a b) (after : List Text) :
    CollapsesTo (a ++ after) (b ++ after) :=
  h.lift (· ++ after) fun _ _ hstep => hstep.append_right after

theorem CollapsesTo.eq_of_settled (h : CollapsesTo segments next) (hs : Settled segments) : next = segments := by
  rcases Relation.ReflTransGen.cases_head h with rfl | ⟨t, ht, -⟩
  · rfl
  · exact absurd ht (hs t)

namespace Settled

theorem of_append (h : Settled (a ++ b)) : Settled a := by
  intro next ha
  cases ha with
  | pair before hs after =>
    apply h
    rw [List.append_assoc]
    exact .pair before hs (after ++ b)

theorem of_cons (h : Settled (s :: a)) : Settled a :=
  fun _ hstep => h _ (hstep.append_left [s])

theorem cons_of_not_ordinary (hs : ¬ Ordinary s) (h : Settled a) : Settled (s :: a) := by
  intro next hstep
  generalize hl : s :: a = l at hstep
  cases hstep with
  | pair before ht after =>
    cases before with
    | nil =>
      obtain ⟨rfl, -⟩ := List.cons.inj hl
      exact hs ht
    | cons u before =>
      obtain ⟨-, rfl⟩ := List.cons.inj hl
      exact h _ (.pair before ht after)

/-- Only a `..` that follows an ordinary segment makes a pair. -/
theorem concat (h : Settled a) (hs : ∀ t, a.getLast? = some t → Ordinary t → s ≠ parent) : Settled (a ++ [s]) := by
  intro next ha
  generalize hl : a ++ [s] = l at ha
  cases ha with
  | @pair before t ht after =>
    rcases List.eq_nil_or_concat after with rfl | ⟨after, last, rfl⟩
    · have hsplit : a ++ [s] = (before ++ [t]) ++ [parent] := by rw [hl, List.append_assoc]; rfl
      obtain ⟨rfl, hparent⟩ := List.append_inj' hsplit rfl
      exact hs t List.getLast?_concat ht (List.cons.inj hparent).1
    · have hsplit : a ++ [s] = (before ++ t :: parent :: after) ++ [last] := by
        rw [hl, List.append_assoc, List.concat_eq_append]; rfl
      obtain ⟨rfl, -⟩ := List.append_inj' hsplit rfl
      exact h _ (.pair before ht after)

theorem of_parent_not_mem (h : parent ∉ a) : Settled a := by
  intro next ha
  cases ha with
  | pair before hs after => exact h (List.mem_append_right _ (List.mem_cons_of_mem _ List.mem_cons_self))

end Settled

/-- A segment either undoes the one on top of the stack or comes to lie on it. -/
theorem collapseStep_cases (stack : List Text) (s : Text) :
    (∃ top rest, stack = top :: rest ∧ Ordinary top ∧ s = parent ∧ collapseStep stack s = rest) ∨
      (∀ top, stack.head? = some top → Ordinary top → s ≠ parent) ∧ collapseStep stack s = s :: stack := by
  cases stack with
  | nil => exact .inr ⟨fun _ h => (by cases h), rfl⟩
  | cons top rest =>
    by_cases h : s = parent ∧ Ordinary top
    · exact .inl ⟨top, rest, rfl, h.2, h.1, if_pos h⟩
    · refine .inr ⟨?_, if_neg h⟩
      rintro _ ⟨⟩ htop rfl
      exact h ⟨rfl, htop⟩

theorem collapseStep_of_ne (h : s ≠ parent) (stack : List Text) : collapseStep stack s = s :: stack := by
  rcases collapseStep_cases stack s with ⟨_, _, _, _, hs, _⟩ | ⟨-, he⟩
  · exact absurd hs h
  · exact he

theorem collapseStep_parent (h : Ordinary s) (rest : List Text) : collapseStep (s :: rest) parent = rest :=
  if_pos ⟨rfl, h⟩

/-- The segments on the stack in the end. -/
def kept (segments : List Text) : List Text := (segments.foldl collapseStep []).reverse

theorem collapsesTo_foldl (stack segments : List Text) :
    CollapsesTo (stack.reverse ++ segments) (segments.foldl collapseStep stack).reverse := by
  induction segments generalizing stack with
  | nil =>
    rw [List.append_nil]
    exact .refl
  | cons s segments ih =>
    rw [List.foldl_cons]
    rcases collapseStep_cases stack s with ⟨top, rest, rfl, htop, rfl, he⟩ | ⟨-, he⟩
    · rw [he, List.reverse_cons, List.append_assoc]
      exact .head (.pair rest.reverse htop segments) (ih rest)
    · have hpush := ih (s :: stack)
      rw [List.reverse_cons, List.append_assoc] at hpush
      rw [he]
      exact hpush

theorem collapsesTo_kept (segments : List Text) : CollapsesTo segments (kept segments) :=
  collapsesTo_foldl [] segments

theorem settled_foldl {stack : List Text} (h : Settled stack.reverse) (segments : List Text) :
    Settled (segments.foldl collapseStep stack).reverse := by
  induction segments generalizing stack with
  | nil => exact h
  | cons s segments ih =>
    apply ih
    rcases collapseStep_cases stack s with ⟨top, rest, rfl, -, -, he⟩ | ⟨hs, he⟩
    · rw [he]
      rw [List.reverse_cons] at h
      exact h.of_append
    · rw [he, List.reverse_cons]
      refine h.concat fun t ht => hs t ?_
      rwa [List.getLast?_reverse] at ht

theorem settled_kept (segments : List Text) : Settled (kept segments) :=
  settled_foldl (.of_parent_not_mem List.not_mem_nil) segments

/-- Taking out a pair makes no difference to the stack that comes after it. -/
theorem Collapses.kept_eq (h : Collapses segments next) : kept segments = kept next := by
  cases h with
  | pair before hs after =>
    rw [kept, kept, List.foldl_append, List.foldl_append, List.foldl_cons, List.foldl_cons,
      collapseStep_of_ne hs.2, collapseStep_parent hs]

theorem CollapsesTo.kept_eq (h : CollapsesTo segments next) : kept segments = kept next := by
  induction h with
  | refl => rfl
  | tail _ hstep ih => rw [ih, hstep.kept_eq]

theorem Settled.kept_eq (h : Settled segments) : kept segments = segments :=
  (collapsesTo_kept segments).eq_of_settled h

theorem collapsesTo_nil_iff : CollapsesTo segments [] ↔ kept segments = [] := by
  constructor
  · exact fun h => h.kept_eq
  · intro h
    have hkept := collapsesTo_kept segments
    rwa [h] at hkept

theorem kept_append_of_collapsesTo_nil (h : CollapsesTo a []) (segments : List Text) :
    kept (a ++ segments) = kept segments :=
  (h.append_right segments).kept_eq

theorem not_ordinary_nil : ¬ Ordinary [] := fun h => h.1 rfl

/-- A segment that no `..` undoes stays in front. -/
theorem kept_cons (hs : ¬ Ordinary s) (segments : List Text) : kept (s :: segments) = s :: kept segments := by
  have hkept : CollapsesTo (s :: segments) (s :: kept segments) := (collapsesTo_kept segments).append_left [s]
  rw [hkept.kept_eq, ((settled_kept segments).cons_of_not_ordinary hs).kept_eq]

theorem kept_concat_nil (segments : List Text) : kept (segments ++ [[]]) = kept segments ++ [[]] := by
  rw [kept, List.foldl_append, List.foldl_cons, List.foldl_nil, collapseStep_of_ne (by decide), List.reverse_cons, kept]

/-- A path that ends with `/` keeps its last, empty segment. Where that is all it keeps, no `/` comes from joining
segments. -/
theorem collapse_eq (path : Text) :
    collapse path = if kept (path.splitOn '/') = [[]] ∧ path.getLast? = some '/' then ['/']
      else Text.join '/' (kept (path.splitOn '/')) := by
  change (if path.getLast? = some '/' ∧ (Text.join '/' (kept (path.splitOn '/'))).getLast? ≠ some '/' then
    Text.join '/' (kept (path.splitOn '/')) ++ ['/'] else Text.join '/' (kept (path.splitOn '/'))) = _
  by_cases hlast : path.getLast? = some '/'
  · obtain ⟨init, rfl⟩ := List.getLast?_eq_some_iff.mp hlast
    have hsplit : (init ++ ['/']).splitOn '/' = init.splitOn '/' ++ [[]] := List.splitOn_append_cons_self init []
    rw [hsplit, kept_concat_nil]
    by_cases hnil : kept (init.splitOn '/') = []
    · rw [hnil, if_pos ⟨hlast, by decide⟩, if_pos ⟨rfl, hlast⟩]
      rfl
    · have hends : (Text.join '/' (kept (init.splitOn '/') ++ [[]])).getLast? = some '/' := by
        rw [join_concat, ← join_append_slash hnil]
        exact List.getLast?_concat
      have hmore : kept (init.splitOn '/') ++ [[]] ≠ [[]] := by simpa using hnil
      rw [if_neg fun h => h.2 hends, if_neg fun h => hmore h.1]
  · rw [if_neg (fun h => hlast h.1), if_neg (fun h => hlast h.2)]

theorem collapse_congr {p q : Text} (h : kept (p.splitOn '/') = kept (q.splitOn '/')) (hlast : p.getLast? = q.getLast?) :
    collapse p = collapse q := by
  rw [collapse_eq, collapse_eq, h, hlast]

theorem collapse_of_settled {path : Text} (h : Settled (path.splitOn '/')) : collapse path = path := by
  rw [collapse_eq, h.kept_eq, Text.join_splitOn]
  refine if_neg ?_
  rintro ⟨hsplit, hlast⟩
  have hjoin := Text.join_splitOn '/' path
  rw [hsplit] at hjoin
  subst hjoin
  cases hlast

theorem slash_not_mem_of_mem_kept {path p : Text} (h : p ∈ kept (path.splitOn '/')) : '/' ∉ p :=
  Text.not_mem_of_mem_splitOn ((collapsesTo_kept _).subset h)

/-- The segments of a collapsed path are those that are kept, but for empty ones where no others are left. -/
theorem splitOn_collapse_cases (path : Text) :
    (collapse path).splitOn '/' = kept (path.splitOn '/') ∨
      kept (path.splitOn '/') = [[]] ∧ (collapse path).splitOn '/' = [[], []] ∨
      kept (path.splitOn '/') = [] ∧ (collapse path).splitOn '/' = [[]] := by
  rw [collapse_eq]
  split
  · next h => exact .inr (.inl ⟨h.1, rfl⟩)
  · by_cases hnil : kept (path.splitOn '/') = []
    · rw [hnil]
      exact .inr (.inr ⟨rfl, rfl⟩)
    · exact .inl (Text.splitOn_join (fun _ => slash_not_mem_of_mem_kept) hnil)

theorem settled_splitOn_collapse (path : Text) : Settled ((collapse path).splitOn '/') := by
  rcases splitOn_collapse_cases path with h | ⟨-, h⟩ | ⟨-, h⟩
  · rw [h]
    exact settled_kept _
  · rw [h]
    exact .of_parent_not_mem (by decide)
  · rw [h]
    exact .of_parent_not_mem (by decide)

theorem getLast?_collapse {path : Text} (h : path.getLast? = some '/') : (collapse path).getLast? = some '/' := by
  unfold collapse
  dsimp only
  split
  · exact List.getLast?_concat
  · next hk => exact Decidable.not_not.mp fun hne => hk ⟨h, hne⟩

/-- Taking out pairs ends, in whatever order it is done, with the same segments, and collapsing a path gives their
text; only where a single empty segment is left of a path that ends with `/` is that text `/`. So collapsing twice is
collapsing once, it leaves no pair, and a `/` at the end survives. -/
theorem collapse_normal_form (path : Text) :
    (WellFounded fun next segments => Collapses segments next) ∧
      (∃ K, Settled K ∧
        (∀ segments, CollapsesTo (path.splitOn '/') segments →
          CollapsesTo segments K ∧ (Settled segments → segments = K)) ∧
        collapse path = if K = [[]] ∧ path.getLast? = some '/' then ['/'] else Text.join '/' K) ∧
      collapse (collapse path) = collapse path ∧ Settled ((collapse path).splitOn '/') ∧
      (path.getLast? = some '/' → (collapse path).getLast? = some '/') := by
  have hsettled := settled_splitOn_collapse path
  refine ⟨wellFounded_collapses, ⟨kept (path.splitOn '/'), settled_kept _, fun segments h => ?_, collapse_eq path⟩,
    collapse_of_settled hsettled, hsettled, getLast?_collapse⟩
  rw [h.kept_eq]
  exact ⟨collapsesTo_kept segments, fun hs => hs.kept_eq.symm⟩

/-- One pair, after which nothing is left but the end of the path. -/
theorem collapse_normal_form_sample :
    CollapsesTo ("app/../".toList.splitOn '/') [[]] ∧ "app/../".toList.getLast? = some '/' ∧
      collapse "app/../".toList = ['/'] ∧ (collapse "app/../".toList).getLast? = some '/' := by
  have hpair : CollapsesTo ("app/../".toList.splitOn '/') [[]] :=
    .single (.pair [] (s := "app".toList) ⟨by decide, by decide⟩ [[]])
  have hsettled : Settled [[]] := .of_parent_not_mem (by decide)
  have hlast : "app/../".toList.getLast? = some '/' := by decide
  obtain ⟨-, ⟨K, -, hunique, hcollapse⟩, -, -, hends⟩ := collapse_normal_form "app/../".toList
  refine ⟨hpair, hlast, ?_, hends hlast⟩
  rw [hcollapse, ← (hunique [[]] hpair).2 hsettled]
  exact if_pos ⟨rfl, hlast⟩

end PageRouting.Path
