import Mathlib.Data.List.TakeWhile
import PageRouting.Text.Decimal
import PageRouting.Text.IntegerRange

/-! What comes of reading an integer can be told from its text as a whole: from its sign, the run of digits after it and
what is left, although the digits are read one at a time and the first fault ends the reading. -/
namespace PageRouting

namespace Decimal

/-- A number with zeros before its digits. -/
def padded (zeros n : Nat) : Text := List.replicate zeros '0' ++ ofNat n

/-- The texts of an integer: any zeros before its digits, and `-` or perhaps `+` before these. -/
inductive SpelledAs : Int → Text → Prop
  | plain (n zeros : Nat) : SpelledAs n (padded zeros n)
  | plus (n zeros : Nat) : SpelledAs n ('+' :: padded zeros n)
  | minus (n zeros : Nat) (h : 0 < n) : SpelledAs (-n) ('-' :: padded zeros n)

theorem spelledAs_ofInt (v : Int) : SpelledAs v (ofInt v) := by
  rw [ofInt]
  split
  · next h =>
    have hminus := SpelledAs.minus v.natAbs 0 (by omega)
    rwa [show -(v.natAbs : Int) = v by omega] at hminus
  · next h =>
    have hplain := SpelledAs.plain v.natAbs 0
    rwa [show (v.natAbs : Int) = v by omega] at hplain

section
variable (zeros n : Nat)

theorem isDigit_of_mem_padded {c : Char} (h : c ∈ padded zeros n) : c.isDigit := by
  rcases List.mem_append.mp h with h | h
  · rw [List.eq_of_mem_replicate h]
    rfl
  · exact Nat.isDigit_of_mem_toDigits (by decide) (by decide) h

theorem padded_ne_nil : padded zeros n ≠ [] := List.append_ne_nil_of_right_ne_nil _ Nat.toDigits_ne_nil

theorem ofDigitChars_padded : Nat.ofDigitChars 10 (padded zeros n) 0 = n := by
  rw [padded, Nat.ofDigitChars_append, Nat.ofDigitChars_replicate_zero, Nat.mul_zero]
  exact Nat.ofDigitChars_ten_toDigits

end

end Decimal

namespace IntegerRange
variable {r : IntegerRange} {t : Text}

def Contains (r : IntegerRange) (v : Int) : Prop := r.least ≤ v ∧ v ≤ r.greatest

instance (r : IntegerRange) (v : Int) : Decidable (r.Contains v) := inferInstanceAs (Decidable (_ ∧ _))

/-! ### The parts of a text -/

/-- The sign that a text opens with. Without negative numbers a `-` is none. -/
def sign (r : IntegerRange) : Text → Text
  | '+' :: _ => ['+']
  | '-' :: _ => if r.signed then ['-'] else []
  | _ => []

def unsigned (r : IntegerRange) (t : Text) : Text := t.drop (r.sign t).length

/-- The digits after the sign, as far as they go. -/
def digits (r : IntegerRange) (t : Text) : Text := (r.unsigned t).takeWhile Char.isDigit

def remainder (r : IntegerRange) (t : Text) : Text := (r.unsigned t).dropWhile Char.isDigit

/-- What digits are worth under a sign. -/
def worth (sign digits : Text) : Int :=
  if sign = ['-'] then -(Nat.ofDigitChars 10 digits 0 : Nat) else (Nat.ofDigitChars 10 digits 0 : Nat)

/-- The value that a text stands for, in the range or not. -/
def value (r : IntegerRange) (t : Text) : Int := worth (r.sign t) (r.digits t)

/-- Digits, nothing after them, and a value in the range. -/
def Readable (r : IntegerRange) (t : Text) : Prop :=
  r.digits t ≠ [] ∧ r.remainder t = [] ∧ r.Contains (r.value t)

instance (r : IntegerRange) (t : Text) : Decidable (r.Readable t) := inferInstanceAs (Decidable (_ ∧ _ ∧ _))

/-- What is wrong with a text that is not readable. Digits that lead out of the range count before all that
follows them. -/
def fault (r : IntegerRange) (t : Text) : IntegerFault :=
  if t = [] then .empty
  else if r.Contains (r.value t) then .notDigit
  else if r.sign t = ['-'] then .tooSmall else .tooLarge

theorem sign_append_unsigned (r : IntegerRange) (t : Text) : r.sign t ++ r.unsigned t = t := by
  have hprefix : r.sign t <+: t := by
    rw [sign.eq_def]
    split
    · exact ⟨_, rfl⟩
    · split
      · exact ⟨_, rfl⟩
      · exact List.nil_prefix
    · exact List.nil_prefix
  exact List.prefix_iff_eq_append.mp hprefix

@[simp] theorem sign_plus (r : IntegerRange) (t : Text) : r.sign ('+' :: t) = ['+'] := rfl

@[simp] theorem sign_minus (r : IntegerRange) (t : Text) : r.sign ('-' :: t) = if r.signed then ['-'] else [] := rfl

theorem sign_of_ne {c : Char} (hplus : c ≠ '+') (hminus : c ≠ '-') (t : Text) : r.sign (c :: t) = [] := by
  rw [sign]
  · rintro t' ⟨⟩
    exact hplus rfl
  · rintro t' ⟨⟩
    exact hminus rfl

theorem digits_append_remainder (r : IntegerRange) (t : Text) : r.digits t ++ r.remainder t = r.unsigned t :=
  List.takeWhile_append_dropWhile

theorem isDigit_of_mem_digits {c : Char} (h : c ∈ r.digits t) : c.isDigit := List.mem_takeWhile_imp h

theorem not_isDigit_of_mem_head?_remainder {c : Char} (h : c ∈ (r.remainder t).head?) : ¬ c.isDigit := by
  have hhead := List.head?_dropWhile_not Char.isDigit (r.unsigned t)
  rw [remainder] at h
  rw [Option.mem_def.mp h] at hhead
  simpa using hhead

/-! ### Reading digit by digit -/

/-- More digits never make less. -/
theorem le_ofDigitChars (t : Text) (n : Nat) : n ≤ Nat.ofDigitChars 10 t n := by
  have hpow : n ≤ 10 ^ t.length * n := Nat.le_mul_of_pos_left n (Nat.pow_pos (by decide))
  rw [Nat.ofDigitChars_eq_ofDigitChars_zero]
  omega

/-- A run of digits that is too large is found out before its end, for the values on the way only grow. Otherwise all
depends on whether something follows it. -/
theorem readUp_eq {n : Nat} (hn : (n : Int) ≤ r.greatest) (t : Text) :
    r.readUp n t =
      if r.greatest < (Nat.ofDigitChars 10 (t.takeWhile Char.isDigit) n : Nat) then .error .tooLarge
      else if t.dropWhile Char.isDigit = [] then .ok (Nat.ofDigitChars 10 (t.takeWhile Char.isDigit) n : Nat)
      else .error .notDigit := by
  induction t generalizing n with
  | nil => simp [readUp, Int.not_lt.mpr hn]
  | cons c t ih =>
    by_cases hc : c.isDigit
    · have hstep : (n : Int) * 10 + (c.toNat - 48 : Nat) = (10 * n + (c.toNat - 48) : Nat) := by omega
      rw [readUp, List.takeWhile_cons_of_pos hc, List.dropWhile_cons_of_pos hc, Nat.ofDigitChars_cons]
      simp only [hc, Bool.not_true, Bool.false_eq_true, if_false, hstep]
      by_cases hfits : ((10 * n + (c.toNat - 48) : Nat) : Int) ≤ r.greatest
      · rw [if_pos hfits, ih hfits]
        rfl
      · have hgrows := le_ofDigitChars (t.takeWhile Char.isDigit) (10 * n + (c.toNat - '0'.toNat))
        have hlarge : r.greatest < (Nat.ofDigitChars 10 (t.takeWhile Char.isDigit) (10 * n + (c.toNat - '0'.toNat)) : Nat) :=
          Int.lt_of_lt_of_le (Int.not_le.mp hfits) (Int.ofNat_le.mpr hgrows)
        rw [if_neg hfits, if_pos hlarge]
    · simp [readUp, hc, Int.not_lt.mpr hn]

/-- The range of the same numbers with their signs changed. -/
def mirrored (r : IntegerRange) : IntegerRange := ⟨r.name, -r.greatest, -r.least⟩

/-- An outcome of reading upwards, seen from the mirrored range. -/
def reflect : Except IntegerFault Int → Except IntegerFault Int
  | .ok v => .ok (-v)
  | .error .tooLarge => .error .tooSmall
  | .error fault => .error fault

theorem readDown_neg (r : IntegerRange) (n : Int) (t : Text) : r.readDown (-n) t = reflect (r.mirrored.readUp n t) := by
  induction t generalizing n with
  | nil => rfl
  | cons c t ih =>
    have hstep : -n * 10 - (c.toNat - 48 : Nat) = -(n * 10 + (c.toNat - 48 : Nat)) := by omega
    have hfits : r.least ≤ -(n * 10 + (c.toNat - 48 : Nat)) ↔ n * 10 + (c.toNat - 48 : Nat) ≤ r.mirrored.greatest := by
      simp only [mirrored]
      omega
    rw [readDown, readUp]
    by_cases hc : c.isDigit
    · simp only [hc, Bool.not_true, Bool.false_eq_true, if_false, hstep, hfits, ih]
      split <;> rfl
    · simp only [hc, Bool.not_false, if_true]
      rfl

theorem readDown_eq (h : r.least ≤ 0) (t : Text) :
    r.readDown 0 t =
      if -(Nat.ofDigitChars 10 (t.takeWhile Char.isDigit) 0 : Nat) < r.least then .error .tooSmall
      else if t.dropWhile Char.isDigit = [] then .ok (-(Nat.ofDigitChars 10 (t.takeWhile Char.isDigit) 0 : Nat))
      else .error .notDigit := by
  have hzero : ((0 : Nat) : Int) ≤ r.mirrored.greatest := by
    simp only [mirrored]
    omega
  have hfits : r.mirrored.greatest < (Nat.ofDigitChars 10 (t.takeWhile Char.isDigit) 0 : Nat) ↔
      -((Nat.ofDigitChars 10 (t.takeWhile Char.isDigit) 0 : Nat) : Int) < r.least := by
    simp only [mirrored]
    omega
  have hmirror := r.readDown_neg 0 t
  rw [Int.neg_zero] at hmirror
  rw [hmirror, ← Int.natCast_zero, readUp_eq hzero]
  simp only [hfits]
  split
  · rfl
  · split <;> rfl

/-! ### Reading as a whole -/

/-- A sign is taken off first, and must not stand alone. -/
theorem read_of_ne_nil (h : t ≠ []) :
    r.read t = if r.unsigned t = [] then .error .notDigit
      else if r.sign t = ['-'] then r.readDown 0 (r.unsigned t) else r.readUp 0 (r.unsigned t) := by
  rw [unsigned, read.eq_def]
  split
  · exact absurd rfl h
  · rfl
  · rw [sign_minus]
    cases r.signed <;> rfl
  · next t hlone =>
    have ht : t ≠ [] := fun he => hlone he
    simp [ht]
  · next t hlone =>
    have ht : t ≠ [] := fun he => hlone he
    rw [sign_minus]
    split
    · simp [ht]
    · simp [readUp]
  · next hplus hminus =>
    obtain ⟨c, t, rfl⟩ := List.exists_cons_of_ne_nil h
    have hsign : r.sign (c :: t) = [] := sign_of_ne (fun hc => hplus t (hc ▸ rfl)) (fun hc => hminus t (hc ▸ rfl)) t
    simp [hsign]

theorem value_of_minus (hs : r.sign t = ['-']) : r.value t = -(Nat.ofDigitChars 10 (r.digits t) 0 : Nat) := if_pos hs

theorem value_of_no_minus (hs : r.sign t ≠ ['-']) : r.value t = (Nat.ofDigitChars 10 (r.digits t) 0 : Nat) := if_neg hs

/-- Under a `-` only the lower bound can be passed. -/
theorem contains_value_iff_of_minus (h : r.Contains 0) (hs : r.sign t = ['-']) :
    r.Contains (r.value t) ↔ ¬ r.value t < r.least := by
  have hvalue := value_of_minus hs
  simp only [Contains] at *
  omega

theorem contains_value_iff_of_no_minus (h : r.Contains 0) (hs : r.sign t ≠ ['-']) :
    r.Contains (r.value t) ↔ ¬ r.greatest < r.value t := by
  have hvalue := value_of_no_minus hs
  simp only [Contains] at *
  omega

/-- What the loops make of the text after a sign. -/
theorem read_unsigned (h : r.Contains 0) (t : Text) :
    (if r.sign t = ['-'] then r.readDown 0 (r.unsigned t) else r.readUp 0 (r.unsigned t)) =
      if r.Contains (r.value t) then if r.remainder t = [] then .ok (r.value t) else .error .notDigit
      else .error (if r.sign t = ['-'] then .tooSmall else .tooLarge) := by
  by_cases hs : r.sign t = ['-']
  · have hdown := readDown_eq h.1 (r.unsigned t)
    rw [← digits, ← remainder, ← value_of_minus hs] at hdown
    simp only [if_pos hs, hdown, contains_value_iff_of_minus h hs, ite_not]
  · have hzero : ((0 : Nat) : Int) ≤ r.greatest := h.2
    have hup := readUp_eq hzero (r.unsigned t)
    rw [← digits, ← remainder, ← value_of_no_minus hs] at hup
    simp only [if_neg hs, contains_value_iff_of_no_minus h hs, ite_not]
    exact hup

/-- What is read is the value of a readable text, and the fault of any other. -/
theorem read_eq (h : r.Contains 0) (t : Text) :
    r.read t = if r.Readable t then .ok (r.value t) else .error (r.fault t) := by
  by_cases ht : t = []
  · subst ht
    rfl
  rw [read_of_ne_nil ht]
  by_cases hu : r.unsigned t = []
  · have hdigits : r.digits t = [] := by rw [digits, hu]; rfl
    have hvalue : r.value t = 0 := by rw [value, hdigits]; exact ite_self _
    simp [hu, Readable, hdigits, fault, ht, hvalue, h]
  · rw [if_neg hu, read_unsigned h]
    by_cases hv : r.Contains (r.value t)
    · by_cases hrest : r.remainder t = []
      · have hdigits : r.digits t ≠ [] := by
          intro hd
          have hparts := r.digits_append_remainder t
          rw [hd, hrest] at hparts
          exact hu hparts.symm
        simp [Readable, hv, hrest, hdigits]
      · simp [Readable, hv, hrest, fault, ht]
    · simp [Readable, hv, fault, ht]

/-! ### Written integers -/

/-- A text whose digits are all that follows its sign. -/
theorem parts_of_sign {s ds : Text} (hs : r.sign (s ++ ds) = s) (hds : ∀ c ∈ ds, c.isDigit) :
    r.digits (s ++ ds) = ds ∧ r.remainder (s ++ ds) = [] := by
  have hu : r.unsigned (s ++ ds) = ds := by rw [unsigned, hs, List.drop_left]
  rw [digits, remainder, hu]
  exact ⟨List.takeWhile_eq_self_iff.mpr hds, List.dropWhile_eq_nil_iff.mpr hds⟩

theorem sign_of_digits {ds : Text} (hds : ∀ c ∈ ds, c.isDigit) : r.sign ds = [] := by
  cases ds with
  | nil => rfl
  | cons c ds =>
    have hc := hds c List.mem_cons_self
    refine sign_of_ne ?_ ?_ ds <;> rintro rfl <;> cases hc

/-- A number that is padded or not, after any sign that the range knows. -/
theorem read_padded {s : Text} {zeros n : Nat} (h : r.Contains 0)
    (hs : r.sign (s ++ Decimal.padded zeros n) = s) (hv : r.Contains (if s = ['-'] then -(n : Int) else n)) :
    r.read (s ++ Decimal.padded zeros n) = .ok (if s = ['-'] then -(n : Int) else n) := by
  obtain ⟨hdigits, hrest⟩ := parts_of_sign hs fun _ => Decimal.isDigit_of_mem_padded zeros n
  have hvalue : r.value (s ++ Decimal.padded zeros n) = if s = ['-'] then -(n : Int) else n := by
    rw [value, hs, hdigits, worth, Decimal.ofDigitChars_padded]
  have hread : r.Readable (s ++ Decimal.padded zeros n) :=
    ⟨by rw [hdigits]; exact Decimal.padded_ne_nil zeros n, hrest, by rwa [hvalue]⟩
  rw [read_eq h, if_pos hread, hvalue]

/-- Every text of an integer in the range is read as that integer. -/
theorem read_of_spelledAs {v : Int} (h : r.Contains 0) (hv : r.Contains v) (ht : Decimal.SpelledAs v t) :
    r.read t = .ok v := by
  cases ht with
  | plain n zeros => exact read_padded (s := []) h (sign_of_digits fun _ => Decimal.isDigit_of_mem_padded zeros n) hv
  | plus n zeros => exact read_padded (s := ['+']) h rfl hv
  | minus n zeros hn =>
    have hsigned : r.signed = true := decide_eq_true (Int.lt_of_le_of_lt hv.1 (by omega))
    exact read_padded (s := ['-']) h (by simp [hsigned]) hv

end IntegerRange
end PageRouting
