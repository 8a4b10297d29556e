import PageRouting.Text.Utf8

/-! Percent-encoding of UTF-8, as it is documented for URLs: an octet is written as `%` and two hexadecimal digits.
A character of the set to be escaped and every character beyond ASCII is written as the octets of its UTF-8 form,
in upper-case digits, and all other characters stand for themselves. Decoding takes digits of either case and
never fails: a `%` that no two digits follow is kept, and octets that are no UTF-8 become replacement
characters. -/
namespace PageRouting.Percent

def hexDigit (n : Nat) : Char := Char.ofNat (if n < 10 then 48 + n else 55 + n)

def hexValue? (c : Char) : Option Nat :=
  if '0' ≤ c ∧ c ≤ '9' then some (c.toNat - 48)
  else if 'A' ≤ c ∧ c ≤ 'F' then some (c.toNat - 55)
  else if 'a' ≤ c ∧ c ≤ 'f' then some (c.toNat - 87)
  else none

/-- The octet that two digits spell. -/
def octet? (hi lo : Char) : Option UInt8 := do
  return UInt8.ofNat ((← hexValue? hi) * 16 + (← hexValue? lo))

def escape (b : UInt8) : Text := ['%', hexDigit (b.toNat / 16), hexDigit (b.toNat % 16)]

/-- Only ASCII characters outside the reserved set stand for themselves. -/
def encodeChar (reserved : Char → Bool) (c : Char) : Text :=
  if c.toNat < 0x80 && !reserved c then [c] else (String.utf8EncodeChar c).flatMap escape

def encode (reserved : Char → Bool) (t : Text) : Text := t.flatMap (encodeChar reserved)

/-- The octets of a text with its escapes undone. A `%` without two digits is an ordinary character. -/
def octets : Text → List UInt8
  | [] => []
  | '%' :: hi :: lo :: t =>
    match octet? hi lo with
    | some b => b :: octets t
    | none => 0x25 :: octets (hi :: lo :: t)
  | c :: t => String.utf8EncodeChar c ++ octets t

def decode (t : Text) : Text := Utf8.decode (octets t)

theorem hexValue?_hexDigit {n : Nat} (h : n < 16) : hexValue? (hexDigit n) = some n := by
  revert n; decide

theorem octet?_hexDigits (b : UInt8) :
    octet? (hexDigit (b.toNat / 16)) (hexDigit (b.toNat % 16)) = some b := by
  have hb := b.toNat_lt
  rw [octet?, hexValue?_hexDigit (by omega), hexValue?_hexDigit (by omega)]
  change some (UInt8.ofNat (b.toNat / 16 * 16 + b.toNat % 16)) = some b
  rw [Nat.div_add_mod', UInt8.ofNat_toNat]

theorem octets_escape (b : UInt8) (t : Text) : octets (escape b ++ t) = b :: octets t := by
  simp only [escape, List.cons_append, List.nil_append, octets, octet?_hexDigits]

theorem octets_flatMap_escape (bs : List UInt8) (t : Text) :
    octets (bs.flatMap escape ++ t) = bs ++ octets t := by
  induction bs with
  | nil => rfl
  | cons b bs ih => rw [List.flatMap_cons, List.append_assoc, octets_escape, ih, List.cons_append]

theorem octets_cons {c : Char} (h : c ≠ '%') (t : Text) :
    octets (c :: t) = String.utf8EncodeChar c ++ octets t := by
  rw [octets]
  intro hi lo t' hc
  exact absurd hc h

/-- What is written with `%` reserved is read back, whatever follows it. -/
theorem octets_encode {reserved : Char → Bool} (h : reserved '%') (t rest : Text) :
    octets (encode reserved t ++ rest) = Utf8.encode t ++ octets rest := by
  induction t with
  | nil => rfl
  | cons c t ih =>
    rw [encode, Utf8.encode, List.flatMap_cons, List.flatMap_cons, List.append_assoc, List.append_assoc]
    rw [encodeChar]
    split
    · next hc =>
      have : c ≠ '%' := by rintro rfl; simp [h] at hc
      rw [List.cons_append, List.nil_append, octets_cons this]
      exact congrArg _ ih
    · rw [octets_flatMap_escape]
      exact congrArg _ ih

theorem decode_encode {reserved : Char → Bool} (h : reserved '%') (t : Text) :
    decode (encode reserved t) = t := by
  have := octets_encode h t []
  rw [List.append_nil] at this
  rw [decode, this, octets, List.append_nil, Utf8.decode_encode]

end PageRouting.Percent
