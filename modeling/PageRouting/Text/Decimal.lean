import PageRouting.Text

/-! Whole numbers in decimal, and the bare digits of a 32-bit word. -/
namespace PageRouting.Decimal

def ofNat (n : Nat) : Text := Nat.toDigits 10 n

def ofInt (i : Int) : Text := if i < 0 then '-' :: ofNat i.natAbs else ofNat i.natAbs

/-- The word that a non-empty run of digits spells. Leading zeros are allowed, signs are not. -/
def word? (t : Text) : Option UInt32 :=
  if !t.isEmpty && t.all Char.isDigit && Nat.ofDigitChars 10 t 0 < UInt32.size
  then some (UInt32.ofNat (Nat.ofDigitChars 10 t 0)) else none

end PageRouting.Decimal
