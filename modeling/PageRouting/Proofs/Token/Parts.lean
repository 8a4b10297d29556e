import PageRouting.Proofs.Except
import PageRouting.Proofs.Token.Words

/-! What locators and tokens are put together from. A locator comes of its own parts and of no others, and a token
of a locator and a callback, which brings the render count of both. -/
namespace PageRouting

variable {e : RoutingError}

namespace PageMapName
variable {pageMap : Option Text}

theorem check_eq_ok_iff {name : Option PageMapName} :
    check pageMap = .ok name ↔ name.map (·.text) = pageMap := by
  cases pageMap with
  | none => cases name <;> simp [check]
  | some t =>
    rw [check, Option.map_eq_some_iff]
    cases h : ofText? t with
    | none =>
      constructor
      · intro he
        cases he
      · rintro ⟨n, -, hn⟩
        rw [ofText?_eq_some_iff.mpr hn] at h
        cases h
    | some n =>
      obtain rfl := ofText?_eq_some_iff.mp h
      constructor
      · intro hn
        exact ⟨n, (Except.ok.inj hn).symm, rfl⟩
      · rintro ⟨m, rfl, hm⟩
        rw [ext_text hm]

theorem check_eq_error_iff :
    check pageMap = .error e ↔ ∃ t ∈ pageMap, isPageMapName t = false ∧ e = .invalidPageMapName t := by
  cases pageMap with
  | none =>
    constructor
    · intro h
      cases h
    · rintro ⟨t, ht, -⟩
      cases ht
  | some t =>
    rw [check, ofText?]
    by_cases h : isPageMapName t = true
    · simp [h]
    · simp only [h, Option.mem_def, Option.some.injEq, exists_eq_left', true_and]
      exact ⟨fun he => (Except.error.inj he).symm, fun he => congrArg _ he.symm⟩

end PageMapName

namespace PageLocator
variable {pageMap : Option Text} {id : Option UInt32} {count : UInt32} {l : PageLocator}

/-- A locator is made of its page map name, its page id and its render count. -/
theorem ofParts_eq_ok_iff : ofParts pageMap id count = .ok l ↔
    l.pageMap.map (·.text) = pageMap ∧ l.id? = id ∧ l.renderCount = count := by
  obtain ⟨name, version⟩ := l
  rw [ofParts, except_bind_eq_ok_iff]
  constructor
  · rintro ⟨name', hname, h⟩
    rw [PageMapName.check_eq_ok_iff] at hname
    cases id with
    | some id =>
      cases h
      exact ⟨hname, rfl, rfl⟩
    | none =>
      dsimp only at h
      split at h
      · cases h
      · next hcount =>
        cases h
        exact ⟨hname, rfl, (Decidable.not_not.mp hcount).symm⟩
  · rintro ⟨hname, rfl, rfl⟩
    exact ⟨name, PageMapName.check_eq_ok_iff.mpr hname, by cases version <;> rfl⟩

/-- A page map of another name is refused, and else a render count that belongs to no page. -/
theorem ofParts_eq_error_iff : ofParts pageMap id count = .error e ↔
    (∃ t ∈ pageMap, isPageMapName t = false ∧ e = .invalidPageMapName t) ∨
    ((∀ t ∈ pageMap, isPageMapName t = true) ∧ id = none ∧ count ≠ 0 ∧ e = .renderCountWithoutPage count) := by
  rw [ofParts, except_bind_eq_error_iff, PageMapName.check_eq_error_iff]
  refine or_congr_right ⟨?_, ?_⟩
  · rintro ⟨name, hname, h⟩
    rw [PageMapName.check_eq_ok_iff] at hname
    subst hname
    have hvalid : ∀ t ∈ name.map (·.text), isPageMapName t = true := by
      intro t ht
      obtain ⟨n, -, rfl⟩ := Option.map_eq_some_iff.mp ht
      exact n.valid
    cases id with
    | some id => cases h
    | none =>
      dsimp only at h
      split at h
      · next hcount => exact ⟨hvalid, rfl, hcount, (Except.error.inj h).symm⟩
      · cases h
  · rintro ⟨hvalid, rfl, hcount, rfl⟩
    refine ⟨pageMap.pmap PageMapName.mk hvalid, PageMapName.check_eq_ok_iff.mpr ?_, if_pos hcount⟩
    cases pageMap <;> rfl

/-- Locators of the same parts are equal. -/
theorem ext_parts {l l' : PageLocator} (hm : l.pageMap = l'.pageMap) (hi : l.id? = l'.id?)
    (hc : l.renderCount = l'.renderCount) : l = l' := by
  have hl : ofParts (l'.pageMap.map (·.text)) l'.id? l'.renderCount = .ok l :=
    ofParts_eq_ok_iff.mpr ⟨congrArg _ hm, hi, hc⟩
  have hl' : ofParts (l'.pageMap.map (·.text)) l'.id? l'.renderCount = .ok l' :=
    ofParts_eq_ok_iff.mpr ⟨rfl, rfl, rfl⟩
  exact Except.ok.inj (hl.symm.trans hl')

/-- Reading a page part gives the locator of the parts that it names. -/
theorem parse_eq_some_iff {t : Text} :
    parse t = some l ↔ parts? t = some (l.pageMap.map (·.text), l.id?, l.renderCount) := by
  rw [parse, Option.bind_eq_bind, Option.bind_eq_some_iff]
  constructor
  · rintro ⟨⟨pageMap, id, count⟩, ht, h⟩
    obtain ⟨rfl, rfl, rfl⟩ := ofParts_eq_ok_iff.mp (except_toOption_eq_some_iff.mp h)
    exact ht
  · intro h
    exact ⟨_, h, except_toOption_eq_some_iff.mpr (ofParts_eq_ok_iff.mpr ⟨rfl, rfl, rfl⟩)⟩

end PageLocator

namespace Token
variable {l : PageLocator} {target : Option (UInt32 × Callback)}

/-- A token is made of the page map name and the page id of a locator, and of the callback. The render count is that
of the callback, where there is one. -/
theorem ofParts_eq_ok_iff {t : Token} : ofParts l target = .ok t ↔
    t.callback? = target.map (·.2) ∧ t.locator.pageMap = l.pageMap ∧ t.locator.id? = l.id? ∧
      t.locator.renderCount = (target.map (·.1)).getD l.renderCount := by
  constructor
  · intro h
    obtain ⟨name, version⟩ := l
    cases target with
    | none =>
      cases h
      exact ⟨rfl, rfl, rfl, rfl⟩
    | some c =>
      cases version with
      | none => cases h
      | some v =>
        cases h
        exact ⟨rfl, rfl, rfl, rfl⟩
  · rintro ⟨hc, hm, hi, hn⟩
    cases t with
    | page l' =>
      cases target with
      | none =>
        obtain rfl : l' = l := PageLocator.ext_parts hm hi hn
        rfl
      | some c => cases hc
    | callback name' v' c' =>
      obtain ⟨name, version⟩ := l
      cases target with
      | none => cases hc
      | some c =>
        cases version with
        | none => cases hi
        | some v =>
          obtain ⟨id, count⟩ := v'
          cases hc
          cases hm
          cases hi
          cases hn
          rfl

/-- Nothing but a callback that no page is named for is refused. -/
theorem ofParts_eq_error_iff : ofParts l target = .error e ↔
    target.isSome ∧ l.id? = none ∧ e = .callbackWithoutPage := by
  obtain ⟨name, version⟩ := l
  cases target <;> cases version <;> simp [ofParts, PageLocator.id?, eq_comm]

end Token
end PageRouting
