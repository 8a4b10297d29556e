import PageRouting.Proofs.Token.Parts

/-! The page part of tokens, field by field. -/
namespace PageRouting

namespace Token.PageForm

/-- The fields between the dots. -/
def fields (f : PageForm) : List Text :=
  f.pageMap.toList.map PageMapName.text ++ f.id.digits :: f.renderCount.toList.map Numeral.digits

theorem join_fields (f : PageForm) : Text.join '.' f.fields = f.text := by
  obtain ⟨m, n, k⟩ := f
  cases m <;> cases k <;> simp [Text.join, List.intercalate, fields, text, dotted]

theorem isWordChar_of_mem (f : PageForm) {t : Text} (ht : t ∈ f.fields) {c : Char} (hc : c ∈ t) :
    isWordChar c := by
  simp only [fields, List.mem_append, List.mem_cons, List.mem_map] at ht
  rcases ht with ⟨name, -, rfl⟩ | rfl | ⟨n, -, rfl⟩
  · exact name.isWordChar_of_mem hc
  · exact f.id.isWordChar_of_mem hc
  · exact n.isWordChar_of_mem hc

theorem splitOn_text (f : PageForm) : f.text.splitOn '.' = f.fields := by
  have hsep : ∀ t ∈ f.fields, '.' ∉ t := by
    intro t ht hc
    have hw := f.isWordChar_of_mem ht hc
    cases hw
  rw [← join_fields]
  exact Text.splitOn_join hsep (by simp [fields])

theorem dash_not_mem_text (f : PageForm) : '-' ∉ f.text := by
  rw [← join_fields]
  intro h
  rcases Text.mem_join h with hd | ⟨t, ht, hc⟩
  · cases hd
  · have hw := f.isWordChar_of_mem ht hc
    cases hw

theorem parse_text (f : PageForm) : PageLocator.parse f.text = some f.locator := by
  rw [PageLocator.parse_eq_some_iff, PageLocator.parts?, splitOn_text]
  obtain ⟨m, n, k⟩ := f
  cases m <;> cases k <;>
    simp [fields, locator, version, PageLocator.id?, PageLocator.renderCount, Decimal.word?_digits,
      PageMapName.word?_text]

theorem fields_injective {f g : PageForm} (h : f.fields = g.fields) : f = g := by
  obtain ⟨m, n, k⟩ := f
  obtain ⟨m', n', k'⟩ := g
  cases m <;> cases k <;> cases m' <;> cases k' <;> simp [fields] at h
  case none.none.none.none => rw [Numeral.ext_digits h]
  case none.some.none.some => rw [Numeral.ext_digits h.1, Numeral.ext_digits h.2]
  case none.some.some.none name => exact absurd h.1.symm (name.text_ne_digits n)
  case some.none.none.some name _ => exact absurd h.1 (name.text_ne_digits n')
  case some.none.some.none => rw [PageMapName.ext_text h.1, Numeral.ext_digits h.2]
  case some.some.some.some =>
    rw [PageMapName.ext_text h.1, Numeral.ext_digits h.2.1, Numeral.ext_digits h.2.2]

theorem text_injective {f g : PageForm} (h : f.text = g.text) : f = g := by
  have hf := congrArg (List.splitOn '.') h
  rw [splitOn_text, splitOn_text] at hf
  exact fields_injective hf

end Token.PageForm

theorem PageMapName.splitOn_text (name : PageMapName) : name.text.splitOn '.' = [name.text] := by
  apply List.splitOn_eq_singleton
  intro h
  have hw := name.isWordChar_of_mem h
  cases hw

theorem PageMapName.text_ne_form (name : PageMapName) (f : Token.PageForm) : name.text ≠ f.text := by
  intro h
  have hf := congrArg (List.splitOn '.') h
  rw [name.splitOn_text, f.splitOn_text] at hf
  obtain ⟨m, n, k⟩ := f
  cases m <;> simp [Token.PageForm.fields] at hf
  exact name.text_ne_digits n hf.1

namespace PageLocator
open Token

theorem parse_name (name : PageMapName) : parse name.text = some ⟨some name, none⟩ := by
  rw [parse_eq_some_iff, parts?, name.splitOn_text]
  simp only [PageMapName.word?_text]
  rfl

/-- A page part is a lone page map name or has a page form. -/
theorem exists_of_parse {t : Text} {l : PageLocator} (h : parse t = some l) :
    (∃ name : PageMapName, name.text = t ∧ l.id? = none) ∨ ∃ f : PageForm, f.text = t := by
  have ht := Text.join_splitOn '.' t
  rw [parse_eq_some_iff, parts?] at h
  split at h
  · next a hs =>
    rw [hs] at ht
    split at h
    · next w hw =>
      obtain ⟨n, rfl, -⟩ := Decimal.word?_eq_some_iff.mp hw
      exact .inr ⟨⟨none, n, none⟩, (PageForm.join_fields _).symm.trans ht⟩
    · obtain ⟨hm, hi, -⟩ : some a = l.pageMap.map (·.text) ∧ none = l.id? ∧ 0 = l.renderCount := by
        simpa using h
      obtain ⟨name, -, rfl⟩ := Option.map_eq_some_iff.mp hm.symm
      refine .inl ⟨name, ?_, hi.symm⟩
      rw [← ht]
      simp [Text.join]
  · next a b hs =>
    rw [hs] at ht
    obtain ⟨w, hw, h⟩ := Option.bind_eq_some_iff.mp h
    split at h
    · next v hv =>
      obtain ⟨i, rfl, -⟩ := Decimal.word?_eq_some_iff.mp hv
      obtain ⟨n, rfl, -⟩ := Decimal.word?_eq_some_iff.mp hw
      exact .inr ⟨⟨none, i, some n⟩, (PageForm.join_fields _).symm.trans ht⟩
    · have hm : some a = l.pageMap.map (·.text) := congrArg Prod.fst (Option.some.inj h)
      obtain ⟨name, -, rfl⟩ := Option.map_eq_some_iff.mp hm.symm
      obtain ⟨n, rfl, -⟩ := Decimal.word?_eq_some_iff.mp hw
      exact .inr ⟨⟨some name, n, none⟩, (PageForm.join_fields _).symm.trans ht⟩
  · next a b c hs =>
    rw [hs] at ht
    obtain ⟨w, hw, h⟩ := Option.bind_eq_some_iff.mp h
    obtain ⟨v, hv, h⟩ := Option.bind_eq_some_iff.mp h
    have hm : some a = l.pageMap.map (·.text) := congrArg Prod.fst (Option.some.inj h)
    obtain ⟨name, -, rfl⟩ := Option.map_eq_some_iff.mp hm.symm
    obtain ⟨i, rfl, -⟩ := Decimal.word?_eq_some_iff.mp hw
    obtain ⟨n, rfl, -⟩ := Decimal.word?_eq_some_iff.mp hv
    exact .inr ⟨⟨some name, i, some n⟩, (PageForm.join_fields _).symm.trans ht⟩
  · cases h

end PageLocator

theorem PageVersion.render_eq (v : PageVersion) :
    v.render = (Numeral.ofWord v.id).digits
      ++ Token.dotted (if v.renderCount = 0 then none else some (Numeral.ofWord v.renderCount)) := by
  rw [render]
  split <;> rfl

theorem PageLocator.render_version (m : Option PageMapName) (v : PageVersion) :
    render ⟨m, some v⟩ = (match m with
      | none => []
      | some name => name.text ++ ['.']) ++ v.render := by
  cases m with
  | none => rfl
  | some name => simp only [render, List.append_assoc, List.cons_append, List.nil_append]

namespace Token

theorem PageForm.renderCount_normal (f : PageForm) :
    f.normal.renderCount =
      if f.version.renderCount = 0 then none else some (Numeral.ofWord f.version.renderCount) := by
  obtain ⟨m, n, k⟩ := f
  cases k with
  | none => rfl
  | some k =>
    by_cases hk : k.value = 0 <;> simp [normal, version, hk, Option.filter_some, Numeral.ofWord_value]

theorem PageForm.version_normal (f : PageForm) : f.normal.version = f.version := by
  have hid : f.normal.id.value = f.id.value := f.id.value_trimmed
  rw [version, renderCount_normal, hid]
  by_cases hk : f.version.renderCount = 0
  · rw [if_pos hk]
    exact congrArg (PageVersion.mk f.id.value) hk.symm
  · rw [if_neg hk, Option.map_some, Numeral.value_ofWord]
    rfl

theorem PageForm.render_locator (f : PageForm) : f.locator.render = f.normal.text := by
  rw [locator, PageLocator.render_version, PageVersion.render_eq, ← renderCount_normal, ← List.append_assoc]
  change _ ++ (Numeral.ofWord f.id.value).digits ++ _ = _
  rw [Numeral.ofWord_value]
  rfl

end Token
end PageRouting
