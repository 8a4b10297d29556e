import PageRouting.Text

/-! Signed decimal reading of integers within a range, which says what is wrong. -/
namespace PageRouting

/-- What stops the reading of an integer. -/
inductive IntegerFault
  | empty
  | notDigit
  | tooLarge
  | tooSmall
  deriving DecidableEq, Repr

def IntegerFault.message : IntegerFault → String
  | .empty => "cannot parse integer from empty string"
  | .notDigit => "invalid digit found in string"
  | .tooLarge => "number too large to fit in target type"
  | .tooSmall => "number too small to fit in target type"

/-- A range of integers with its name. -/
structure IntegerRange where
  name : String
  least : Int
  greatest : Int
  deriving DecidableEq, Repr

namespace IntegerRange

def int32 : IntegerRange := ⟨"i32", -0x80000000, 0x7FFFFFFF⟩
def int64 : IntegerRange := ⟨"i64", -0x8000000000000000, 0x7FFFFFFFFFFFFFFF⟩
def word32 : IntegerRange := ⟨"u32", 0, 0xFFFFFFFF⟩
def word64 : IntegerRange := ⟨"u64", 0, 0xFFFFFFFFFFFFFFFF⟩

def signed (r : IntegerRange) : Bool := r.least < 0

/-- Digits from left to right. The first one that is no digit, or that leads out of the range,
decides the fault. -/
def readUp (r : IntegerRange) : Int → Text → Except IntegerFault Int
  | n, [] => .ok n
  | n, c :: t =>
    if !c.isDigit then .error .notDigit
    else
      let n := n * 10 + (c.toNat - 48 : Nat)
      if n ≤ r.greatest then readUp r n t else .error .tooLarge

/-- The digits of a negative number, which count downwards so that the least number can be read. -/
def readDown (r : IntegerRange) : Int → Text → Except IntegerFault Int
  | n, [] => .ok n
  | n, c :: t =>
    if !c.isDigit then .error .notDigit
    else
      let n := n * 10 - (c.toNat - 48 : Nat)
      if r.least ≤ n then readDown r n t else .error .tooSmall

/-- An optional sign and at least one digit. A range without negative numbers takes no `-`. -/
def read (r : IntegerRange) : Text → Except IntegerFault Int
  | [] => .error .empty
  | ['+'] => .error .notDigit
  | ['-'] => .error .notDigit
  | '+' :: t => r.readUp 0 t
  | '-' :: t => if r.signed then r.readDown 0 t else .error .notDigit
  | t => r.readUp 0 t

end IntegerRange
end PageRouting
