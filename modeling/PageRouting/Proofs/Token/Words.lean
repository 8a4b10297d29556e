import PageRouting.Proofs.Token.Grammar

/-! The words of tokens: page map names, identifiers and numbers. None of them holds a separator, and no
name is a number. -/
namespace PageRouting

/-- The characters of words. -/
def isWordChar (c : Char) : Bool := c.isAlphanum || c == '_'

theorem Numeral.isWordChar_of_mem (n : Numeral) {c : Char} (h : c ∈ n.digits) : isWordChar c := by
  have hd := n.all_digits c h
  simp [isWordChar, Char.isAlphanum, hd]

theorem PageMapName.ofText?_eq_some_iff {t : Text} {name : PageMapName} :
    ofText? t = some name ↔ name.text = t := by
  obtain ⟨n, hn⟩ := name
  rw [ofText?]
  constructor
  · intro h
    split at h
    · exact (PageMapName.mk.inj (Option.some.inj h)).symm
    · cases h
  · rintro rfl
    rw [dif_pos hn]

theorem PageMapName.ext_text {n m : PageMapName} (h : n.text = m.text) : n = m := by
  cases n
  cases m
  cases h
  rfl

theorem PageMapName.isWordChar_of_mem (name : PageMapName) {c : Char} (h : c ∈ name.text) : isWordChar c := by
  have hv := name.valid
  rw [isPageMapName, Bool.and_eq_true, List.all_eq_true] at hv
  exact hv.1 c h

theorem PageMapName.exists_not_digit (name : PageMapName) : ∃ c ∈ name.text, ¬ c.isDigit := by
  have hv := name.valid
  rw [isPageMapName, Bool.and_eq_true, List.any_eq_true] at hv
  simpa using hv.2

/-- A page map name is never a number. -/
theorem PageMapName.text_ne_digits (name : PageMapName) (n : Numeral) : name.text ≠ n.digits := by
  obtain ⟨c, hc, hd⟩ := name.exists_not_digit
  exact fun h => n.not_mem_digits hd (h ▸ hc)

theorem PageMapName.word?_text (name : PageMapName) : Decimal.word? name.text = none := by
  obtain ⟨c, hc, hd⟩ := name.exists_not_digit
  exact Decimal.word?_eq_none hc hd

theorem Text.isWordChar_of_mem {t : Text} (h : t.isIdentifier) {c : Char} (hc : c ∈ t) : isWordChar c := by
  cases t with
  | nil => cases hc
  | cons d t =>
    rw [isIdentifier, Bool.and_eq_true, List.all_eq_true] at h
    rcases List.mem_cons.mp hc with rfl | hc
    · have hd := h.1
      rw [isWordChar, Char.isAlphanum]
      rw [Bool.or_eq_true] at hd ⊢
      exact hd.imp_left fun ha => Bool.or_eq_true_iff.mpr (.inl ha)
    · exact h.2 c hc

namespace Token

theorem mem_dotted {n : Option Numeral} {c : Char} (h : c ∈ dotted n) : c = '.' ∨ isWordChar c := by
  cases n with
  | none => cases h
  | some n => exact (List.mem_cons.mp h).imp_right n.isWordChar_of_mem

/-- The `.` before a number is the first one after a text without any. -/
theorem cut?_dotted {t : Text} (h : '.' ∉ t) (n : Option Numeral) :
    (t ++ dotted n).cut? '.' = n.map fun n => (t, n.digits) := by
  cases n with
  | none => exact Text.cut?_eq_none_iff.mpr (by rwa [dotted, List.append_nil])
  | some n => exact Text.cut?_eq_some_iff.mpr ⟨h, rfl⟩

theorem append_dotted_inj {t t' : Text} (h : '.' ∉ t) (h' : '.' ∉ t') {n n' : Option Numeral}
    (he : t ++ dotted n = t' ++ dotted n') : t = t' ∧ n = n' := by
  have hc := congrArg (Text.cut? '.') he
  rw [cut?_dotted h, cut?_dotted h'] at hc
  cases n with
  | none =>
    cases n' with
    | none => exact ⟨List.append_cancel_right he, rfl⟩
    | some n' => cases hc
  | some n =>
    cases n' with
    | none => cases hc
    | some n' =>
      obtain ⟨rfl, hn⟩ := Prod.mk.inj (Option.some.inj hc)
      exact ⟨rfl, congrArg some (Numeral.ext_digits hn)⟩

end Token
end PageRouting
