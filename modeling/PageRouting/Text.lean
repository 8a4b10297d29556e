/-! Text as a list of characters, with the cuts and joins that addresses and tokens are made of. -/
namespace PageRouting

/-- Text is a list of characters, so that reading it is recursion on a list. -/
abbrev Text := List Char

instance : LawfulBEq Text := inferInstanceAs (LawfulBEq (List Char))

namespace Text

/-- The text before and after the first `sep`, if there is one. -/
def cut? (sep : Char) : Text → Option (Text × Text)
  | [] => none
  | c :: t => if c = sep then some ([], t) else (cut? sep t).map fun p => (c :: p.1, p.2)

/-- The parts with `sep` between neighbours. -/
def join (sep : Char) (parts : List Text) : Text := [sep].intercalate parts

/-- The text without the characters `c` at both ends. -/
def trim (c : Char) (t : Text) : Text :=
  ((t.dropWhile (· == c)).reverse.dropWhile (· == c)).reverse

theorem cut?_eq_some_iff {sep : Char} {t a b : Text} :
    cut? sep t = some (a, b) ↔ sep ∉ a ∧ t = a ++ sep :: b := by
  induction t generalizing a with
  | nil => simp [cut?]
  | cons c t ih =>
    by_cases h : c = sep
    · subst h
      cases a with
      | nil => simp [cut?]
      | cons d a => simp +contextual [cut?, eq_comm]
    · cases a with
      | nil => simp [cut?, h]
      | cons d a =>
        simp only [cut?, h, if_false, Option.map_eq_some_iff, Prod.exists, Prod.mk.injEq,
          List.cons.injEq, List.mem_cons, not_or, List.cons_append]
        constructor
        · rintro ⟨x, y, hxy, ⟨rfl, rfl⟩, rfl⟩
          obtain ⟨hx, rfl⟩ := ih.1 hxy
          exact ⟨⟨fun e => h e.symm, hx⟩, rfl, rfl⟩
        · rintro ⟨⟨_, ha⟩, rfl, rfl⟩
          exact ⟨a, b, ih.2 ⟨ha, rfl⟩, ⟨rfl, rfl⟩, rfl⟩

theorem cut?_eq_none_iff {sep : Char} {t : Text} : cut? sep t = none ↔ sep ∉ t := by
  induction t with
  | nil => simp [cut?]
  | cons c t ih =>
    by_cases h : c = sep
    · simp [cut?, h]
    · simp [cut?, h, ih, Ne.symm h]

theorem join_splitOn (sep : Char) (t : Text) : join sep (t.splitOn sep) = t :=
  List.intercalate_splitOn sep

theorem splitOn_join {sep : Char} {parts : List Text} (h : ∀ p ∈ parts, sep ∉ p) (hne : parts ≠ []) :
    (join sep parts).splitOn sep = parts :=
  List.splitOn_intercalate sep h hne

theorem mem_join {sep c : Char} {parts : List Text} (h : c ∈ join sep parts) :
    c = sep ∨ ∃ p ∈ parts, c ∈ p := by
  induction parts with
  | nil => cases h
  | cons p parts ih =>
    cases parts with
    | nil => exact .inr ⟨p, List.mem_cons_self, by simpa [join] using h⟩
    | cons q parts =>
      rw [join, List.intercalate_cons_cons] at h
      rcases List.mem_append.mp h with h | h
      · rcases List.mem_append.mp h with h | h
        · exact .inr ⟨p, List.mem_cons_self, h⟩
        · exact .inl (List.mem_singleton.mp h)
      · rcases ih h with hc | ⟨r, hr, hc⟩
        · exact .inl hc
        · exact .inr ⟨r, List.mem_cons_of_mem _ hr, hc⟩

theorem not_mem_of_mem_splitOn {sep : Char} {t part : Text} (h : part ∈ t.splitOn sep) : sep ∉ part := by
  induction t generalizing part with
  | nil =>
    cases List.mem_singleton.mp h
    exact List.not_mem_nil
  | cons c t ih =>
    obtain ⟨first, rest, hsplit⟩ := List.exists_cons_of_ne_nil (List.splitOn_ne_nil sep t)
    rw [List.splitOn_cons_eq_if_modifyHead, hsplit] at h
    rw [hsplit] at ih
    by_cases hc : c = sep
    · rw [if_pos (beq_iff_eq.mpr hc)] at h
      rcases List.mem_cons.mp h with rfl | h
      · exact List.not_mem_nil
      · exact ih h
    · rw [if_neg (mt beq_iff_eq.mp hc)] at h
      rcases List.mem_cons.mp h with rfl | h
      · exact List.not_mem_cons_of_ne_of_not_mem (Ne.symm hc) (ih List.mem_cons_self)
      · exact ih (List.mem_cons_of_mem _ h)

/-- The first part is empty where the text is, or opens with the separator. -/
theorem head?_splitOn_eq_nil_iff {sep : Char} {t : Text} :
    (t.splitOn sep).head? = some [] ↔ t = [] ∨ t.head? = some sep := by
  cases t with
  | nil => simp
  | cons c t =>
    obtain ⟨first, rest, hsplit⟩ := List.exists_cons_of_ne_nil (List.splitOn_ne_nil sep t)
    by_cases hc : c = sep
    · simp [List.splitOn_cons_eq_if_modifyHead, hc]
    · simp [List.splitOn_cons_eq_if_modifyHead, hsplit, hc]

/-- A later part is empty where the text ends with the separator, or has two in a row. -/
theorem nil_mem_tail_splitOn_iff {sep : Char} {t : Text} :
    [] ∈ (t.splitOn sep).tail ↔ t.getLast? = some sep ∨ [sep, sep] <:+: t := by
  induction t with
  | nil => simp
  | cons c t ih =>
    obtain ⟨first, rest, hsplit⟩ := List.exists_cons_of_ne_nil (List.splitOn_ne_nil sep t)
    have hfirst := @head?_splitOn_eq_nil_iff sep t
    rw [List.splitOn_cons_eq_if_modifyHead, List.infix_cons_iff]
    rw [hsplit] at ih hfirst ⊢
    by_cases hc : c = sep
    · subst hc
      have hlast : (c :: t).getLast? = some c ↔ t = [] ∨ t.getLast? = some c := by cases t <;> simp
      have hpair : [c, c] <+: c :: t ↔ t.head? = some c := by cases t <;> simp [List.cons_prefix_cons, eq_comm]
      simp only [List.head?_cons, Option.some.injEq, List.tail_cons] at hfirst ih
      simp only [beq_self_eq_true, if_true, List.tail_cons, List.mem_cons, hlast, hpair, ih, eq_comm (a := []), hfirst]
      exact or_or_or_comm
    · have hlast : (c :: t).getLast? = some sep ↔ t.getLast? = some sep := by
        cases t with
        | nil => simp [hc]
        | cons d t => simp
      have hpair : ¬ [sep, sep] <+: c :: t := by
        rintro ⟨u, hu⟩
        exact hc (List.cons.inj hu).1.symm
      simpa [hc, hlast, hpair] using ih

theorem nil_mem_splitOn_iff {sep : Char} {t : Text} :
    [] ∈ t.splitOn sep ↔ t = [] ∨ t.head? = some sep ∨ t.getLast? = some sep ∨ [sep, sep] <:+: t := by
  obtain ⟨first, rest, hsplit⟩ := List.exists_cons_of_ne_nil (List.splitOn_ne_nil sep t)
  have hfirst := @head?_splitOn_eq_nil_iff sep t
  have hlater := @nil_mem_tail_splitOn_iff sep t
  rw [hsplit] at hfirst hlater ⊢
  rw [List.mem_cons, ← hlater, ← or_assoc, ← hfirst, List.head?_cons, Option.some.injEq, eq_comm, List.tail_cons]

theorem count_join {sep : Char} {parts : List Text} (h : ∀ p ∈ parts, sep ∉ p) :
    (join sep parts).count sep = parts.length - 1 := by
  induction parts with
  | nil => rfl
  | cons p parts ih =>
    have hp : p.count sep = 0 := List.count_eq_zero.mpr (h p List.mem_cons_self)
    cases parts with
    | nil => rw [join, List.intercalate_singleton, hp, List.length_singleton]
    | cons q parts =>
      have hrest := ih fun r hr => h r (List.mem_cons_of_mem _ hr)
      rw [join] at hrest
      rw [join, List.intercalate_cons_cons, List.count_append, List.count_append, hp, List.count_singleton_self, hrest]
      simp only [List.length_cons]
      omega

theorem join_eq_nil_iff {sep : Char} {parts : List Text} :
    join sep parts = [] ↔ parts = [] ∨ parts = [[]] := by
  match parts with
  | [] => simp [join]
  | [p] => simp [join]
  | p :: q :: parts => simp [join, List.intercalate_cons_cons]

end Text
end PageRouting
