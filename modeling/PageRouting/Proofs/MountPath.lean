import PageRouting.MountPath
import PageRouting.Proofs.Except
import PageRouting.Proofs.Parameters

/-! Mount paths that are filled in and read again. The values that placeholders take from the
parameters and those that are left over make up all values. Paths that differ in a literal read no
address in common. -/
namespace PageRouting

namespace MountSegment
variable {ms : List MountSegment} {p rest : Parameters} {path : List Text}

/-- A path filled with values of `p`, and what is left of `p`. -/
inductive Filled : List MountSegment → Parameters → List Text → Parameters → Prop
  | nil (p : Parameters) : Filled [] p [] p
  | literal {ms : List MountSegment} {p rest : Parameters} {path : List Text} (text : Text)
      (h : Filled ms p path rest) : Filled (.literal text :: ms) p (text :: path) rest
  | placeholder {ms : List MountSegment} {p rest : Parameters} {path : List Text} {name v : Text}
      {vs : List Text} (hv : p.values name = v :: vs) (hne : v ≠ []) (h : Filled ms (p.takeFirst name).2 path rest) :
      Filled (.placeholder name :: ms) p (v :: path) rest

/-- A path that is read has every literal in its place. -/
theorem getElem?_of_read? (h : (read? ms path).isSome) {i : Nat} {text : Text}
    (hi : ms[i]? = some (.literal text)) : path[i]? = some text := by
  fun_induction read? ms path generalizing i with
  | case1 => cases hi
  | case2 => cases h
  | case3 _ _ _ ih =>
    cases i with
    | zero => cases hi; rfl
    | succ i => exact ih h hi
  | case4 => cases h
  | case5 => cases h
  | case6 _ _ _ _ _ ih =>
    rw [Option.isSome_map] at h
    cases i with
    | zero => cases hi
    | succ i => exact ih h hi

/-- Every segment of a mount path reads one of the path. -/
theorem length_le_of_read? (h : (read? ms path).isSome) : ms.length ≤ path.length := by
  fun_induction read? ms path with
  | case1 => exact Nat.zero_le _
  | case2 => cases h
  | case3 _ _ _ ih => exact Nat.succ_le_succ (ih h)
  | case4 => cases h
  | case5 => cases h
  | case6 _ _ _ _ _ ih =>
    rw [Option.isSome_map] at h
    exact Nat.succ_le_succ (ih h)

/-- Only a path of literals alone has as many of them as the path that it reads has segments. -/
theorem eq_map_literal_of_read? (h : (read? ms path).isSome) (hc : path.length ≤ ms.countP isLiteral) :
    ms = path.map .literal := by
  fun_induction read? ms path with
  | case1 path => cases List.eq_nil_of_length_eq_zero (Nat.le_zero.mp hc); rfl
  | case2 => cases h
  | case3 ms text path ih =>
    rw [List.countP_cons_of_pos rfl] at hc
    rw [ih h (Nat.le_of_succ_le_succ hc), List.map_cons]
  | case4 => cases h
  | case5 => cases h
  | case6 name ms s path _ _ =>
    rw [Option.isSome_map] at h
    rw [List.countP_cons_of_neg Bool.false_ne_true] at hc
    have hlt : path.length < path.length :=
      Nat.lt_of_lt_of_le hc (Nat.le_trans List.countP_le_length (length_le_of_read? h))
    exact absurd hlt (Nat.lt_irrefl _)

variable {bound : List (Text × Text)} {tail : List Text}

theorem names_of_read? (h : read? ms path = some (bound, tail)) :
    bound.map Prod.fst = ms.filterMap name? := by
  fun_induction read? ms path generalizing bound with
  | case1 => cases h; rfl
  | case2 => cases h
  | case3 _ _ _ ih => exact ih h
  | case4 => cases h
  | case5 => cases h
  | case6 name ms s path _ ih =>
    obtain ⟨r, hr, he⟩ := Option.map_eq_some_iff.mp h
    cases he
    exact congrArg (name :: ·) (ih hr)

/-- What was read can be filled in again from parameters whose first values are those that were read. -/
theorem filled_of_read? (h : read? ms path = some (bound, tail)) (hd : (ms.filterMap name?).Nodup)
    (hp : ∀ e ∈ bound, (p.values e.1).head? = some e.2) :
    ∃ front rest, path = front ++ tail ∧ Filled ms p front rest := by
  fun_induction read? ms path generalizing bound p with
  | case1 => cases h; exact ⟨[], p, rfl, .nil p⟩
  | case2 => cases h
  | case3 ms text path ih =>
    obtain ⟨front, rest, rfl, hf⟩ := ih h hd hp
    exact ⟨text :: front, rest, rfl, .literal text hf⟩
  | case4 => cases h
  | case5 => cases h
  | case6 name ms s path hs ih =>
    obtain ⟨⟨bound, tail⟩, hr, he⟩ := Option.map_eq_some_iff.mp h
    cases he
    obtain ⟨hnew, hd⟩ := List.nodup_cons.mp hd
    obtain ⟨hv, hp⟩ := List.forall_mem_cons.mp hp
    obtain ⟨vs, hv⟩ := List.head?_eq_some_iff.mp hv
    -- the names further on are others, so that taking this value leaves theirs alone
    have hp' : ∀ e ∈ bound, ((p.takeFirst name).2.values e.1).head? = some e.2 := by
      intro e he
      have hmem : e.1 ∈ ms.filterMap name? := names_of_read? hr ▸ List.mem_map_of_mem he
      have hne : name ≠ e.1 := fun hn => hnew (hn ▸ hmem)
      rw [Parameters.values_takeFirst_of_ne hne]
      exact hp e he
    obtain ⟨front, rest, rfl, hf⟩ := ih hr hd hp'
    exact ⟨s :: front, rest, rfl, .placeholder hv (by simpa using hs) hf⟩

theorem filled_of_fill (h : fill ms p = .ok (path, rest)) : Filled ms p path rest := by
  induction ms generalizing p path with
  | nil =>
    cases h
    exact .nil _
  | cons m ms ih =>
    cases m with
    | literal text =>
      obtain ⟨r, hr, he⟩ := except_map_eq_ok_iff.mp h
      cases he
      exact .literal text (ih hr)
    | placeholder name =>
      rw [fill] at h
      split at h
      · next c v q ht =>
        obtain ⟨r, hr, he⟩ := except_map_eq_ok_iff.mp h
        cases he
        have hh := p.fst_takeFirst name
        rw [ht] at hh
        obtain ⟨vs, hv⟩ := List.head?_eq_some_iff.mp hh.symm
        have hq : (p.takeFirst name).2 = q := congrArg Prod.snd ht
        rw [← hq] at hr
        exact .placeholder hv (List.cons_ne_nil c v) (ih hr)
      · cases h

namespace Filled

theorem wellFormed (h : Filled ms p path rest) (hp : p.named.WellFormed) : rest.named.WellFormed := by
  induction h with
  | nil p => exact hp
  | literal text _ ih => exact ih hp
  | placeholder _ _ _ ih => exact ih (Parameters.wellFormed_takeFirst hp _)

theorem indexed (h : Filled ms p path rest) : rest.indexed = p.indexed := by
  induction h with
  | nil p => rfl
  | literal text _ ih => exact ih
  | placeholder _ _ _ ih => rw [ih, Parameters.indexed_takeFirst]

/-- Reading gives the placeholders the values that were taken, before those that are left. -/
theorem read? (h : Filled ms p path rest) (tail : List Text) :
    ∃ bound, MountSegment.read? ms (path ++ tail) = some (bound, tail) ∧
      ∀ n, NamedValues.valuesIn bound n ++ rest.values n = p.values n := by
  induction h with
  | nil p => exact ⟨[], rfl, fun _ => rfl⟩
  | literal text _ ih =>
    obtain ⟨bound, hr, hv⟩ := ih
    refine ⟨bound, ?_, hv⟩
    rw [List.cons_append, MountSegment.read?, if_pos rfl, hr]
  | @placeholder ms p rest path name v vs hv hne _ ih =>
    obtain ⟨bound, hr, hb⟩ := ih
    refine ⟨(name, v) :: bound, ?_, fun n => ?_⟩
    · rw [List.cons_append, MountSegment.read?, hr]
      simp [hne]
    · by_cases hn : name = n
      · subst hn
        rw [NamedValues.valuesIn_cons_self, List.cons_append, hb, Parameters.values_takeFirst_self, hv]
        rfl
      · rw [NamedValues.valuesIn_cons_of_ne hn, hb, Parameters.values_takeFirst_of_ne hn]

theorem fill (h : Filled ms p path rest) : MountSegment.fill ms p = .ok (path, rest) := by
  induction h with
  | nil p => rfl
  | literal text _ ih => rw [MountSegment.fill, ih]; rfl
  | @placeholder ms p rest path name v vs hv hne _ ih =>
    have hfst : (p.takeFirst name).1 = some v := by rw [p.fst_takeFirst, hv]; rfl
    obtain ⟨c, v, rfl⟩ := List.exists_cons_of_ne_nil hne
    have htake : p.takeFirst name = (some (c :: v), (p.takeFirst name).2) := Prod.ext hfst rfl
    rw [MountSegment.fill, htake]
    dsimp only
    rw [ih]
    rfl

/-- Names that no placeholder has are left, in their order. -/
theorem filter_names (h : Filled ms p path rest) {f : Text → Bool}
    (hf : ∀ n ∈ ms.filterMap name?, f n = false) : rest.names.filter f = p.names.filter f := by
  induction h with
  | nil p => rfl
  | literal text _ ih => exact ih hf
  | placeholder _ _ _ ih =>
    obtain ⟨hn, hf⟩ := List.forall_mem_cons.mp hf
    rw [ih hf, Parameters.filter_names_takeFirst _ hn]

theorem exists_cons (h : Filled ms p path rest) (hne : ms ≠ []) (hm : MountSegment.literal [] ∉ ms) :
    ∃ s path', path = s :: path' ∧ s ≠ [] := by
  cases h with
  | nil p => exact absurd rfl hne
  | literal text _ =>
    refine ⟨text, _, rfl, ?_⟩
    rintro rfl
    exact hm List.mem_cons_self
  | @placeholder _ _ _ path' _ v _ _ hv _ => exact ⟨v, path', rfl, hv⟩

end Filled

/-- A path is filled in again from parameters that start with what was read from it. Reading it once more
gives the same names, and the values before those that are left over. -/
theorem exists_refilled (hr : read? ms path = some (bound, tail)) (hd : (ms.filterMap name?).Nodup)
    (hp : ∀ e ∈ bound, (p.values e.1).head? = some e.2) {names : List Text}
    (hn : p.names = bound.map Prod.fst ++ names.filter (· ∉ bound.map Prod.fst)) :
    ∃ front rest bound', Filled ms p front rest ∧
      read? ms (front ++ p.indexed) = some (bound', p.indexed) ∧ (bound'.map Prod.fst).Nodup ∧
      p.names = bound'.map Prod.fst ++ rest.names.filter (· ∉ bound'.map Prod.fst) ∧
      ∀ n, p.values n = NamedValues.valuesIn bound' n ++ rest.values n := by
  obtain ⟨front, rest, -, hf⟩ := filled_of_read? hr hd hp
  obtain ⟨bound', hr', hv⟩ := hf.read? p.indexed
  have hnames : bound'.map Prod.fst = bound.map Prod.fst := (names_of_read? hr').trans (names_of_read? hr).symm
  -- the names that are left are those that no placeholder has, in their order
  have hkept : rest.names.filter (· ∉ bound.map Prod.fst) = p.names.filter (· ∉ bound.map Prod.fst) := by
    apply hf.filter_names
    intro n hm
    simpa [names_of_read? hr] using hm
  refine ⟨front, rest, bound', hf, hr', ?_, ?_, fun n => (hv n).symm⟩
  · rw [hnames, names_of_read? hr]
    exact hd
  · rw [hnames, hkept, hn, List.filter_append, List.filter_filter]
    simp

/-- Different literals. -/
def Apart : MountSegment → MountSegment → Prop
  | .literal a, .literal b => a ≠ b
  | _, _ => False

instance : (m n : MountSegment) → Decidable (m.Apart n)
  | .literal a, .literal b => inferInstanceAs (Decidable (a ≠ b))
  | .literal _, .placeholder _ => inferInstanceAs (Decidable False)
  | .placeholder _, _ => inferInstanceAs (Decidable False)

end MountSegment

namespace MountPath

theorem spellSegment_ne_literal_nil {taken : List Text} {t : Text} {m : MountSegment}
    (h : spellSegment taken t = .ok m) : m ≠ .literal [] := by
  rintro rfl
  rw [spellSegment] at h
  split at h
  · cases h
  · next ht =>
    split at h
    · split at h
      · cases h
      · split at h <;> cases h
    · split at h
      · cases h
      · cases h
        exact ht rfl

theorem spellSegments_cons {taken : List Text} {t : Text} {ts : List Text} {ms : List MountSegment}
    (h : spellSegments taken (t :: ts) = .ok ms) :
    ∃ m ms', ms = m :: ms' ∧ spellSegment taken t = .ok m ∧
      spellSegments (m.name?.toList ++ taken) ts = .ok ms' := by
  obtain ⟨m, hm, h⟩ := except_bind_eq_ok_iff.mp h
  obtain ⟨ms', hs, h⟩ := except_bind_eq_ok_iff.mp h
  cases h
  exact ⟨m, ms', rfl, hm, hs⟩

theorem literal_nil_not_mem_of_spellSegments {taken ts : List Text} {ms : List MountSegment}
    (h : spellSegments taken ts = .ok ms) : MountSegment.literal [] ∉ ms := by
  induction ts generalizing taken ms with
  | nil =>
    cases h
    exact List.not_mem_nil
  | cons t ts ih =>
    obtain ⟨m, ms', rfl, hm, hs⟩ := spellSegments_cons h
    rw [List.mem_cons, not_or]
    exact ⟨(spellSegment_ne_literal_nil hm).symm, ih hs⟩

theorem not_mem_of_spellSegment {taken : List Text} {t : Text} {m : MountSegment}
    (h : spellSegment taken t = .ok m) : ∀ n ∈ m.name?, n ∉ taken := by
  rw [spellSegment] at h
  split at h
  · cases h
  split at h
  · split at h
    · cases h
    · split at h
      · cases h
      · next hn =>
        cases h
        rintro _ ⟨⟩
        exact hn
  · split at h
    · cases h
    · cases h
      rintro _ ⟨⟩

theorem nodup_of_spellSegments {taken ts : List Text} {ms : List MountSegment}
    (h : spellSegments taken ts = .ok ms) :
    (ms.filterMap MountSegment.name?).Nodup ∧ ∀ n ∈ ms.filterMap MountSegment.name?, n ∉ taken := by
  induction ts generalizing taken ms with
  | nil =>
    cases h
    exact ⟨List.nodup_nil, fun _ hn => absurd hn List.not_mem_nil⟩
  | cons t ts ih =>
    obtain ⟨m, ms', rfl, hm, hs⟩ := spellSegments_cons h
    obtain ⟨hd, hnew⟩ := ih hs
    have htaken := not_mem_of_spellSegment hm
    cases m with
    | literal text => exact ⟨hd, hnew⟩
    | placeholder name =>
      refine ⟨List.nodup_cons.mpr ⟨fun hn => hnew name hn List.mem_cons_self, hd⟩, ?_⟩
      rintro n (_ | ⟨_, hn⟩)
      · exact htaken name rfl
      · exact fun ht => hnew n hn (List.mem_cons_of_mem _ ht)

theorem spell_eq_ok {t : Text} {ms : List MountSegment} (h : spell t = .ok ms) :
    Text.trim '/' t ≠ [] ∧ spellSegments [] ((Text.trim '/' t).splitOn '/') = .ok ms := by
  rw [spell] at h
  split at h
  · cases h
  · next ht => exact ⟨fun hn => ht (List.isEmpty_iff.mpr hn), h⟩

theorem literal_nil_not_mem (m : MountPath) : MountSegment.literal [] ∉ m.segments :=
  literal_nil_not_mem_of_spellSegments (spell_eq_ok m.spelled).2

theorem nodup_placeholders (m : MountPath) : m.placeholders.Nodup :=
  (nodup_of_spellSegments (spell_eq_ok m.spelled).2).1

theorem segments_ne_nil (m : MountPath) : m.segments ≠ [] := by
  obtain ⟨-, hs⟩ := spell_eq_ok m.spelled
  cases ht : (Text.trim '/' m.text).splitOn '/' with
  | nil => exact absurd ht (List.splitOn_ne_nil _ _)
  | cons t ts =>
    rw [ht] at hs
    obtain ⟨s, ms, he, -, -⟩ := spellSegments_cons hs
    rw [he]
    exact List.cons_ne_nil s ms

variable {p q : MountPath} {path : List Text} {text : Text}

/-- Whether two paths have different literals at a position within both. -/
def Apart (p q : MountPath) : Prop := ∃ e ∈ p.segments.zip q.segments, e.1.Apart e.2

instance (p q : MountPath) : Decidable (p.Apart q) :=
  inferInstanceAs (Decidable (∃ e ∈ p.segments.zip q.segments, e.1.Apart e.2))

theorem Apart.not_both (h : p.Apart q) (hp : (MountSegment.read? p.segments path).isSome)
    (hq : (MountSegment.read? q.segments path).isSome) : False := by
  obtain ⟨⟨m, n⟩, he, hmn⟩ := h
  obtain ⟨i, hi⟩ := List.getElem?_of_mem he
  obtain ⟨hm, hn⟩ := List.getElem?_zip_eq_some.mp hi
  match m, n, hmn with
  | .literal a, .literal b, hab =>
    have ha := MountSegment.getElem?_of_read? hp hm
    rw [MountSegment.getElem?_of_read? hq hn] at ha
    exact hab (Option.some.inj ha).symm

/-- The literal that a path starts with. -/
def firstLiteral? (p : MountPath) : Option Text :=
  match p.segments with
  | .literal text :: _ => some text
  | _ => none

theorem segments_of_firstLiteral? (h : p.firstLiteral? = some text) : ∃ ms, p.segments = .literal text :: ms := by
  rw [firstLiteral?] at h
  split at h
  · next ms hms =>
    cases h
    exact ⟨ms, hms⟩
  · cases h

theorem head?_of_firstLiteral? (h : p.firstLiteral? = some text)
    (hp : (MountSegment.read? p.segments path).isSome) : path.head? = some text := by
  obtain ⟨ms, hms⟩ := segments_of_firstLiteral? h
  rw [List.head?_eq_getElem?]
  exact MountSegment.getElem?_of_read? hp (by rw [hms]; rfl)

theorem ne_nil_of_firstLiteral? (h : p.firstLiteral? = some text) : text ≠ [] := by
  obtain ⟨ms, hms⟩ := segments_of_firstLiteral? h
  rintro rfl
  exact p.literal_nil_not_mem (hms ▸ List.mem_cons_self)

theorem literalCount_pos_of_firstLiteral? (h : p.firstLiteral? = some text) : 0 < p.literalCount := by
  obtain ⟨ms, hms⟩ := segments_of_firstLiteral? h
  rw [literalCount, hms]
  exact List.countP_pos_iff.mpr ⟨_, List.mem_cons_self, rfl⟩

end MountPath
end PageRouting
