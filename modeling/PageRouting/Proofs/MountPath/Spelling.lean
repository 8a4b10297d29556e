import Mathlib.Data.List.DropRight
import PageRouting.Proofs.MountPath

/-! Which texts spell a mount path: between the slashes at their ends stand segments without braces and names in
braces, none of them empty and no name twice. -/
namespace PageRouting

namespace Text
variable {c : Char} {t : Text}

theorem head?_dropWhile_ne (c : Char) (t : Text) : (t.dropWhile (· == c)).head? ≠ some c := by
  intro h
  have hnot := List.head?_dropWhile_not (· == c) t
  rw [h] at hnot
  simp at hnot

/-- What is trimmed off are slashes, or whichever character it is, and none is left at either end. -/
theorem exists_trim (c : Char) (t : Text) :
    (∃ before after, t = before ++ trim c t ++ after ∧ ∀ d ∈ before ++ after, d = c) ∧
      (trim c t).head? ≠ some c ∧ (trim c t).getLast? ≠ some c := by
  have htrim : trim c t = (t.dropWhile (· == c)).rdropWhile (· == c) := rfl
  have hlast : t.dropWhile (· == c) = trim c t ++ (t.dropWhile (· == c)).rtakeWhile (· == c) := by
    rw [htrim, List.rdropWhile_append_rtakeWhile]
  refine ⟨⟨t.takeWhile (· == c), (t.dropWhile (· == c)).rtakeWhile (· == c), ?_, ?_⟩, ?_, ?_⟩
  · rw [List.append_assoc, ← hlast, List.takeWhile_append_dropWhile]
  · intro d hd
    have hc : (d == c) = true := by
      rcases List.mem_append.mp hd with hd | hd
      · exact List.mem_takeWhile_imp (p := (· == c)) hd
      · exact List.mem_rtakeWhile_imp (p := (· == c)) hd
    exact beq_iff_eq.mp hc
  · intro h
    obtain ⟨rest, hrest⟩ := List.head?_eq_some_iff.mp h
    apply head?_dropWhile_ne c t
    rw [hlast, hrest]
    rfl
  · rw [trim, List.getLast?_reverse]
    exact head?_dropWhile_ne c _

end Text

namespace MountPath
variable {t name : Text} {taken ts : List Text} {m : MountSegment} {ms : List MountSegment}

def braced (name : Text) : Text := '\x7b' :: (name ++ ['\x7d'])

/-- Text without braces. -/
def Plain (t : Text) : Prop := '\x7b' ∉ t ∧ '\x7d' ∉ t

instance (t : Text) : Decidable (Plain t) := inferInstanceAs (Decidable (_ ∧ _))

/-- What may stand between two slashes. -/
def IsSegment (t : Text) : Prop := t ≠ [] ∧ (Plain t ∨ ∃ name, t = braced name ∧ name ≠ [] ∧ Plain name)

theorem any_isBrace_eq_false_iff : t.any isBrace = false ↔ Plain t := by
  simp only [List.any_eq_false, isBrace, Plain]
  constructor
  · intro h
    exact ⟨fun hc => h _ hc rfl, fun hc => h _ hc rfl⟩
  · rintro ⟨hopen, hclose⟩ c hc hb
    rcases Bool.or_eq_true_iff.mp hb with hb | hb
    · exact hopen (of_decide_eq_true hb ▸ hc)
    · exact hclose (of_decide_eq_true hb ▸ hc)

theorem braced_injective : Function.Injective braced := by
  intro a b h
  exact List.append_cancel_right (List.cons.inj h).2

theorem braced?_eq_some_iff : braced? t = some name ↔ t = braced name := by
  constructor
  · intro h
    unfold braced? at h
    split at h
    · next t =>
      split at h
      · next hlast =>
        cases h
        rw [braced, List.dropLast_append_getLast? _ hlast]
      · cases h
    · cases h
  · rintro rfl
    have hlast : (name ++ ['\x7d']).getLast? = some '\x7d' := List.getLast?_concat
    change (if (name ++ ['\x7d']).getLast? = some '\x7d' then some (name ++ ['\x7d']).dropLast else none) = _
    rw [if_pos hlast, List.dropLast_concat]

theorem braced?_of_plain (h : Plain t) : braced? t = none := by
  rw [Option.eq_none_iff_forall_not_mem]
  intro name hn
  cases braced?_eq_some_iff.mp hn
  exact h.1 List.mem_cons_self

end MountPath

namespace MountSegment

/-- How segments are written. -/
inductive Spells : MountSegment → Text → Prop
  | literal {t : Text} (hne : t ≠ []) (hp : MountPath.Plain t) : Spells (.literal t) t
  | placeholder {name : Text} (hne : name ≠ []) (hp : MountPath.Plain name) :
      Spells (.placeholder name) (MountPath.braced name)

theorem exists_spells_iff {t : Text} : (∃ m, Spells m t) ↔ MountPath.IsSegment t := by
  constructor
  · rintro ⟨m, hm⟩
    cases hm with
    | literal hne hp => exact ⟨hne, .inl hp⟩
    | placeholder hne hp => exact ⟨List.cons_ne_nil _ _, .inr ⟨_, rfl, hne, hp⟩⟩
  · rintro ⟨ht, hp | ⟨name, rfl, hne, hp⟩⟩
    · exact ⟨_, .literal ht hp⟩
    · exact ⟨_, .placeholder hne hp⟩

end MountSegment

namespace MountPath
variable {t name : Text} {taken ts : List Text} {m : MountSegment} {ms : List MountSegment}

theorem spellSegment_eq_ok_iff : spellSegment taken t = .ok m ↔ m.Spells t ∧ ∀ n ∈ m.name?, n ∉ taken := by
  constructor
  · intro h
    refine ⟨?_, not_mem_of_spellSegment h⟩
    rw [spellSegment] at h
    split at h
    · cases h
    next hne =>
    split at h
    · next name hname =>
      cases braced?_eq_some_iff.mp hname
      split at h
      · cases h
      next hplain =>
      obtain ⟨hempty, hbrace⟩ := Bool.or_eq_false_iff.mp (Bool.eq_false_iff.mpr hplain)
      split at h
      · cases h
      · cases h
        exact .placeholder (List.isEmpty_eq_false_iff.mp hempty) (any_isBrace_eq_false_iff.mp hbrace)
    · split at h
      · cases h
      next hbrace =>
      cases h
      exact .literal (by simpa using hne) (any_isBrace_eq_false_iff.mp (Bool.eq_false_iff.mpr hbrace))
  · rintro ⟨hm, hfree⟩
    cases hm with
    | literal hne hp =>
      rw [spellSegment, if_neg (by simpa using hne), braced?_of_plain hp, any_isBrace_eq_false_iff.mpr hp]
      rfl
    | @placeholder name hne hp =>
      have hbraced : braced? (braced name) = some name := braced?_eq_some_iff.mpr rfl
      have hname : (name.isEmpty || name.any isBrace) = false := by
        rw [any_isBrace_eq_false_iff.mpr hp, List.isEmpty_eq_false_iff.mpr hne]
        rfl
      rw [spellSegment, hbraced]
      dsimp only
      rw [hname, if_neg (hfree name rfl)]
      rfl

theorem spellSegments_eq_ok_iff : spellSegments taken ts = .ok ms ↔
    List.Forall₂ MountSegment.Spells ms ts ∧ (ms.filterMap MountSegment.name?).Nodup ∧
      ∀ n ∈ ms.filterMap MountSegment.name?, n ∉ taken := by
  constructor
  · intro h
    refine ⟨?_, nodup_of_spellSegments h⟩
    induction ts generalizing taken ms with
    | nil =>
      cases h
      exact .nil
    | cons t ts ih =>
      obtain ⟨m, ms, rfl, hm, hms⟩ := spellSegments_cons h
      exact .cons (spellSegment_eq_ok_iff.mp hm).1 (ih hms)
  · rintro ⟨hspells, hnodup, hfree⟩
    induction hspells generalizing taken with
    | nil => rfl
    | @cons m t ms ts hm _ ih =>
      -- the names so far and those further on have none in common
      have hrest : (ms.filterMap MountSegment.name?).Nodup ∧
          (∀ n ∈ ms.filterMap MountSegment.name?, n ∉ m.name?.toList ++ taken) ∧ ∀ n ∈ m.name?, n ∉ taken := by
        cases m with
        | literal text => exact ⟨hnodup, hfree, fun _ h => (by cases h)⟩
        | placeholder name =>
          obtain ⟨hnew, hnodup⟩ := List.nodup_cons.mp hnodup
          obtain ⟨hname, hfree⟩ := List.forall_mem_cons.mp hfree
          refine ⟨hnodup, fun n hn hm => ?_, ?_⟩
          · rcases List.mem_cons.mp hm with rfl | hm
            · exact hnew hn
            · exact hfree n hn hm
          · rintro _ ⟨⟩
            exact hname
      obtain ⟨hnodup, hothers, hown⟩ := hrest
      rw [spellSegments, spellSegment_eq_ok_iff.mpr ⟨hm, hown⟩]
      change (do return m :: (← spellSegments (m.name?.toList ++ taken) ts)) = _
      rw [ih hnodup hothers]
      rfl

/-- The names in braces are those of the placeholders, in their order. -/
theorem map_braced_names (h : List.Forall₂ MountSegment.Spells ms ts) :
    (ms.filterMap MountSegment.name?).map braced = ts.filter (·.head? = some '\x7b') := by
  induction h with
  | nil => rfl
  | @cons m t ms ts hm _ ih =>
    cases hm with
    | literal _ hp =>
      have hhead : t.head? ≠ some '\x7b' := fun h => hp.1 (List.mem_of_head? h)
      rw [List.filter_cons_of_neg (by simpa using hhead), ← ih]
      rfl
    | placeholder _ _ =>
      rw [List.filter_cons_of_pos (by simp [braced]), ← ih]
      rfl

theorem exists_forall₂_spells (h : ∀ t ∈ ts, IsSegment t) : ∃ ms, List.Forall₂ MountSegment.Spells ms ts := by
  induction ts with
  | nil => exact ⟨[], .nil⟩
  | cons t ts ih =>
    obtain ⟨ht, hts⟩ := List.forall_mem_cons.mp h
    obtain ⟨m, hm⟩ := MountSegment.exists_spells_iff.mpr ht
    obtain ⟨ms, hms⟩ := ih hts
    exact ⟨m :: ms, .cons hm hms⟩

theorem isSegment_of_forall₂ (h : List.Forall₂ MountSegment.Spells ms ts) : ∀ t ∈ ts, IsSegment t := by
  induction h with
  | nil => exact fun _ h => absurd h List.not_mem_nil
  | cons hm _ ih => exact List.forall_mem_cons.mpr ⟨MountSegment.exists_spells_iff.mp ⟨_, hm⟩, ih⟩

theorem spell_eq_ok_iff : spell t = .ok ms ↔ Text.trim '/' t ≠ [] ∧
    List.Forall₂ MountSegment.Spells ms ((Text.trim '/' t).splitOn '/') ∧ (ms.filterMap MountSegment.name?).Nodup := by
  constructor
  · intro h
    obtain ⟨hne, hs⟩ := spell_eq_ok h
    obtain ⟨hspells, hnodup, -⟩ := spellSegments_eq_ok_iff.mp hs
    exact ⟨hne, hspells, hnodup⟩
  · rintro ⟨hne, hspells, hnodup⟩
    rw [spell, if_neg (by simpa using hne)]
    exact spellSegments_eq_ok_iff.mpr ⟨hspells, hnodup, fun _ _ => List.not_mem_nil⟩

theorem exists_spell_iff : (∃ ms, spell t = .ok ms) ↔ Text.trim '/' t ≠ [] ∧
    (∀ s ∈ (Text.trim '/' t).splitOn '/', IsSegment s) ∧
    ∃ names : List Text, names.map braced = ((Text.trim '/' t).splitOn '/').filter (·.head? = some '\x7b') ∧ names.Nodup := by
  constructor
  · rintro ⟨ms, h⟩
    obtain ⟨hne, hspells, hnodup⟩ := spell_eq_ok_iff.mp h
    exact ⟨hne, isSegment_of_forall₂ hspells, _, map_braced_names hspells, hnodup⟩
  · rintro ⟨hne, hsegments, names, hnames, hnodup⟩
    obtain ⟨ms, hspells⟩ := exists_forall₂_spells hsegments
    have hsame : names = ms.filterMap MountSegment.name? := by
      apply List.map_injective_iff.mpr braced_injective
      rw [hnames, map_braced_names hspells]
    exact ⟨ms, spell_eq_ok_iff.mpr ⟨hne, hspells, hsame ▸ hnodup⟩⟩

theorem parse_eq_ok_iff {p : MountPath} : parse t = .ok p ↔ p.text = t := by
  constructor
  · intro h
    rw [parse] at h
    split at h
    · cases h
      rfl
    · cases h
  · rintro rfl
    rw [parse]
    split
    · next segments hs =>
      have hsame : segments = p.segments := Except.ok.inj (hs.symm.trans p.spelled)
      cases hsame
      rfl
    · next fault hs => cases hs.symm.trans p.spelled

theorem exists_parse_iff : (∃ p, parse t = .ok p) ↔ ∃ ms, spell t = .ok ms := by
  constructor
  · rintro ⟨p, h⟩
    cases parse_eq_ok_iff.mp h
    exact ⟨p.segments, p.spelled⟩
  · rintro ⟨ms, h⟩
    exact ⟨⟨t, ms, h⟩, parse_eq_ok_iff.mpr rfl⟩

theorem map_braced_placeholders (p : MountPath) :
    p.placeholders.map braced = ((Text.trim '/' p.text).splitOn '/').filter (·.head? = some '\x7b') :=
  map_braced_names (spell_eq_ok_iff.mp p.spelled).2.1

/-- Slashes at the ends do not count. -/
theorem segments_eq_of_trim {p q : MountPath} (h : Text.trim '/' p.text = Text.trim '/' q.text) :
    p.segments = q.segments := by
  have hspell : spell p.text = spell q.text := by rw [spell, spell, h]
  rw [p.spelled, q.spelled] at hspell
  exact Except.ok.inj hspell

end MountPath
end PageRouting
