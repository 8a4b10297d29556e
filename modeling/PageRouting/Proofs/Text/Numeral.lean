import PageRouting.Text.Decimal

/-! Written numbers. A word has many of them, which differ in leading zeros only, and the one
that it is rendered as has none. -/
namespace PageRouting

/-- A non-empty run of digits whose value is a 32-bit word. -/
structure Numeral where
  digits : Text
  ne_nil : digits ≠ []
  all_digits : ∀ c ∈ digits, c.isDigit
  fits : Nat.ofDigitChars 10 digits 0 < UInt32.size
  deriving DecidableEq, Repr

namespace Numeral

def value (n : Numeral) : UInt32 := UInt32.ofNat (Nat.ofDigitChars 10 n.digits 0)

theorem toNat_value (n : Numeral) : n.value.toNat = Nat.ofDigitChars 10 n.digits 0 := by
  rw [value, UInt32.toNat_ofNat', Nat.mod_eq_of_lt n.fits]

theorem ext_digits {n m : Numeral} (h : n.digits = m.digits) : n = m := by
  cases n
  cases m
  cases h
  rfl

theorem not_mem_digits (n : Numeral) {c : Char} (h : ¬ c.isDigit) : c ∉ n.digits :=
  fun hc => h (n.all_digits c hc)

/-- The numeral without leading zeros. -/
def ofWord (w : UInt32) : Numeral where
  digits := Decimal.ofNat w.toNat
  ne_nil := Nat.toDigits_ne_nil
  all_digits _ hc := Nat.isDigit_of_mem_toDigits (by decide) (by decide) hc
  fits := by
    rw [Decimal.ofNat, Nat.ofDigitChars_ten_toDigits]
    exact w.toNat_lt

theorem value_ofWord (w : UInt32) : (ofWord w).value = w := by
  apply UInt32.toNat_inj.mp
  rw [toNat_value]
  exact Nat.ofDigitChars_ten_toDigits

/-- Digits without leading zeros. The last digit stays. -/
def dropZeros : Text → Text
  | '0' :: c :: t => dropZeros (c :: t)
  | t => t

theorem dropZeros_of_ne {c : Char} (h : c ≠ '0') (t : Text) : dropZeros (c :: t) = c :: t := by
  rw [dropZeros]
  intro d t' hc
  exact h (List.cons.inj hc).1

private theorem digitChar_of_isDigit {c : Char} (h : c.isDigit) :
    c.toNat - 48 < 10 ∧ (c.toNat - 48).digitChar = c := by
  have hc : 48 ≤ c.toNat ∧ c.toNat ≤ 57 := by simpa [Char.isDigit, UInt32.le_iff_toNat_le] using h
  have hlt : c.toNat - 48 < 10 := by omega
  have hd : (c.toNat - 48).digitChar.toNat = c.toNat := by
    rw [Nat.toNat_digitChar_of_lt_ten hlt]
    omega
  exact ⟨hlt, Char.toNat_inj.mp hd⟩

/-- Digits after a positive number are the digits that its value gains. -/
private theorem toDigits_ofDigitChars {n : Nat} {t : Text} (hn : 0 < n) (h : ∀ c ∈ t, c.isDigit) :
    Nat.toDigits 10 (Nat.ofDigitChars 10 t n) = Nat.toDigits 10 n ++ t := by
  induction t generalizing n with
  | nil => rw [Nat.ofDigitChars_nil, List.append_nil]
  | cons c t ih =>
    obtain ⟨hd, hc⟩ := digitChar_of_isDigit (h c List.mem_cons_self)
    have hstep : Nat.toDigits 10 (10 * n + (c.toNat - 48)) = Nat.toDigits 10 n ++ [c] := by
      rw [← Nat.toDigits_append_toDigits (by decide) hn hd, Nat.toDigits_of_lt_base hd, hc]
    rw [Nat.ofDigitChars_cons]
    change Nat.toDigits 10 (Nat.ofDigitChars 10 t (10 * n + (c.toNat - 48))) = _
    rw [ih (by omega) fun d hd => h d (List.mem_cons_of_mem _ hd), hstep, List.append_assoc]
    rfl

theorem ofNat_ofDigitChars {t : Text} (hne : t ≠ []) (h : ∀ c ∈ t, c.isDigit) :
    Decimal.ofNat (Nat.ofDigitChars 10 t 0) = dropZeros t := by
  induction t with
  | nil => exact absurd rfl hne
  | cons c t ih =>
    have ht : ∀ d ∈ t, d.isDigit := fun d hd => h d (List.mem_cons_of_mem _ hd)
    obtain ⟨hd, hc⟩ := digitChar_of_isDigit (h c List.mem_cons_self)
    have hcons : Nat.ofDigitChars 10 (c :: t) 0 = Nat.ofDigitChars 10 t (c.toNat - 48) := by
      rw [Nat.ofDigitChars_cons, Nat.mul_zero, Nat.zero_add]
      rfl
    rw [hcons]
    by_cases h0 : c = '0'
    · subst h0
      cases t with
      | nil => rfl
      | cons d t => exact ih (List.cons_ne_nil d t) ht
    · have hpos : 0 < c.toNat - 48 := by
        apply Nat.pos_of_ne_zero
        intro hz
        rw [hz] at hc
        exact h0 hc.symm
      rw [dropZeros_of_ne h0, Decimal.ofNat, toDigits_ofDigitChars hpos ht, Nat.toDigits_of_lt_base hd, hc]
      rfl

theorem digits_ofWord_value (n : Numeral) : (ofWord n.value).digits = dropZeros n.digits := by
  rw [← ofNat_ofDigitChars n.ne_nil n.all_digits, ← toNat_value]
  rfl

/-- The numeral less its leading zeros. -/
def trimmed (n : Numeral) : Numeral where
  digits := dropZeros n.digits
  ne_nil := n.digits_ofWord_value ▸ (ofWord n.value).ne_nil
  all_digits := n.digits_ofWord_value ▸ (ofWord n.value).all_digits
  fits := n.digits_ofWord_value ▸ (ofWord n.value).fits

theorem ofWord_value (n : Numeral) : ofWord n.value = n.trimmed := ext_digits n.digits_ofWord_value

@[simp] theorem value_trimmed (n : Numeral) : n.trimmed.value = n.value := by
  rw [← ofWord_value, value_ofWord]

end Numeral

namespace Decimal

theorem word?_digits (n : Numeral) : word? n.digits = some n.value := by
  have hall : n.digits.all Char.isDigit := List.all_eq_true.mpr n.all_digits
  have hne : n.digits.isEmpty = false := by simpa using n.ne_nil
  rw [word?, hall, hne, decide_eq_true n.fits]
  rfl

theorem word?_eq_some_iff {t : Text} {w : UInt32} :
    word? t = some w ↔ ∃ n : Numeral, n.digits = t ∧ n.value = w := by
  constructor
  · intro h
    rw [word?] at h
    split at h
    · next hc =>
      simp only [Bool.and_eq_true, Bool.not_eq_true', List.isEmpty_eq_false_iff, List.all_eq_true,
        decide_eq_true_eq] at hc
      exact ⟨⟨t, hc.1.1, hc.1.2, hc.2⟩, rfl, Option.some.inj h⟩
    · cases h
  · rintro ⟨n, rfl, rfl⟩
    exact word?_digits n

theorem word?_eq_none {t : Text} {c : Char} (hc : c ∈ t) (h : ¬ c.isDigit) : word? t = none := by
  rw [Option.eq_none_iff_forall_ne_some]
  intro w hw
  obtain ⟨n, rfl, -⟩ := word?_eq_some_iff.mp hw
  exact n.not_mem_digits h hc

end Decimal
end PageRouting
