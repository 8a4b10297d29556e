import PageRouting.Toml.Quoted
import PageRouting.Toml.Value

/-! Unquoted values of TOML: booleans, numbers, dates and times. -/
namespace PageRouting.Toml.Scalar

/-- Digits with single underscores between some of them. -/
def underscored? (isDigit : Char → Bool) (t : Text) : Option Text :=
  let runs := t.splitOn '_'
  if runs.all fun r => !r.isEmpty && r.all isDigit then some runs.flatten else none

def unsigned : Text → Text
  | '+' :: t => t
  | '-' :: t => t
  | t => t

def isNegative (t : Text) : Bool := t.head? = some '-'

/-- Whether no needless zero stands in front. -/
def isTrimmed (ds : Text) : Bool := ds.length = 1 || ds.head? ≠ some '0'

/-- A number within the reach of 128-bit integers. -/
def integer (n : Int) : Value := if -(Nat.pow 2 127) ≤ n ∧ n < Nat.pow 2 128 then .integer n else .illegible

def isHexDigit (c : Char) : Bool := (Percent.hexValue? c).isSome

/-- Whether underscores seem to stand between digits. At first sight only the ends of the runs
between them matter, and any hexadecimal digit will do. -/
def isSeparated : List Text → Bool
  | [] => true
  | [r] => r.head?.any isHexDigit
  | r :: rs => r.head?.any isHexDigit && r.getLast?.any isHexDigit && isSeparated rs

/-- A decimal number. What follows its first underscore is looked at closely only when the number is
used. -/
def decimal? (t : Text) : Option Value :=
  let body := unsigned t
  let runs := body.splitOn '_'
  let digits := runs.flatten
  if body.any (fun c => c ∈ [' ', '.', 'e', 'E']) || !isTrimmed body then none
  else if !((runs.headD []).all Char.isDigit && isSeparated runs) then none
  else if digits.all Char.isDigit then
    let n : Int := Nat.ofDigitChars 10 digits 0
    some (integer (if isNegative t then -n else n))
  else some .illegible

/-- Hexadecimal, octal and binary numbers have no sign and may start with zeros. One without digits
is found out when it is used. -/
def radix? : Text → Option Value
  | '0' :: 'x' :: t => based 16 t
  | '0' :: 'o' :: t => based 8 t
  | '0' :: 'b' :: t => based 2 t
  | _ => none
where
  based (base : Nat) (t : Text) : Option Value :=
    if t.isEmpty then some .illegible
    else (underscored? (fun c => (Percent.hexValue? c).any (· < base)) t).map fun ds =>
      integer (ds.foldl (fun n c => n * base + (Percent.hexValue? c).getD 0) 0 : Nat)

/-- Whether `n * 10 ^ e` is too large for a double, even after rounding. Powers of ten that decide
the question by themselves are not computed. -/
def overflows (n : Nat) (e : Int) : Bool :=
  let digits : Int := (Nat.toDigits 10 n).length
  let bound := Nat.pow 2 1024 - Nat.pow 2 970
  if n = 0 || digits + e < 309 then false
  else if 310 < digits + e then true
  else if 0 ≤ e then bound ≤ n * Nat.pow 10 e.toNat
  else bound * Nat.pow 10 (-e).toNat ≤ n

/-- A mantissa, and a fraction or an exponent or both. -/
def float? (t : Text) : Option Value := do
  let (mantissa, exponent) : Text × Option Text :=
    match (unsigned t).span fun c => c ≠ 'e' && c ≠ 'E' with
    | (m, []) => (m, none)
    | (m, _ :: e) => (m, some e)
  let (front, fraction) : Text × Option Text :=
    match Text.cut? '.' mantissa with
    | some (f, r) => (f, some r)
    | none => (mantissa, none)
  if exponent.isNone && fraction.isNone then none
  let front ← (underscored? Char.isDigit front).filter isTrimmed
  let fraction ← underscored fraction
  let power ← underscored (exponent.map unsigned)
  let size : Int := Nat.ofDigitChars 10 power 0
  let size := if exponent.any isNegative then -size else size
  return if overflows (Nat.ofDigitChars 10 (front ++ fraction) 0) (size - fraction.length) then .illegible
    else .float
where
  /-- Digits that may be missing. -/
  underscored : Option Text → Option Text
    | none => some []
    | some t => underscored? Char.isDigit t

def special? (t : Text) : Option Value :=
  if unsigned t ∈ ["inf".toList, "nan".toList] then some .float else none

def boolean? (t : Text) : Option Value :=
  if t = "true".toList then some (.boolean true)
  else if t = "false".toList then some (.boolean false)
  else none

/-- A number of exactly `n` digits at the front. -/
def fixed? (n : Nat) (t : Text) : Option (Nat × Text) :=
  let ds := t.take n
  if ds.length = n && ds.all Char.isDigit then some (Nat.ofDigitChars 10 ds 0, t.drop n) else none

def symbol? (c : Char) : Text → Option Text
  | [] => none
  | d :: t => if c = d then some t else none

def daysIn (year month : Nat) : Nat :=
  if month = 2 then
    if year % 4 = 0 && (year % 100 ≠ 0 || year % 400 = 0) then 29 else 28
  else if month ∈ [4, 6, 9, 11] then 30
  else 31

/-- The text after a date of the calendar. -/
def date? (t : Text) : Option Text := do
  let (year, t) ← fixed? 4 t
  let (month, t) ← fixed? 2 (← symbol? '-' t)
  let (day, t) ← fixed? 2 (← symbol? '-' t)
  if 1 ≤ month && month ≤ 12 && 1 ≤ day && day ≤ daysIn year month then some t else none

/-- Seconds and their fraction, both of which may be missing. -/
def seconds? : Text → Option Text
  | ':' :: t => do
    let (second, t) ← fixed? 2 t
    if 60 < second then none
    match t with
    | '.' :: t =>
      let rest := t.dropWhile Char.isDigit
      if rest.length < t.length then some rest else none
    | t => some t
  | t => some t

/-- The text after hours, minutes and perhaps seconds. -/
def time? (t : Text) : Option Text := do
  let (hour, t) ← fixed? 2 t
  let (minute, t) ← fixed? 2 (← symbol? ':' t)
  if hour ≤ 23 && minute ≤ 59 then seconds? t else none

/-- The text after an offset from universal time, which may be missing. -/
def offset? : Text → Option Text
  | [] => some []
  | c :: t =>
    if c = 'Z' || c = 'z' then some t
    else if c = '+' || c = '-' then do
      let (hour, t) ← fixed? 2 t
      let (minute, t) ← fixed? 2 (← symbol? ':' t)
      if hour ≤ 23 && minute ≤ 59 then some t else none
    else none

/-- A date, a time, or a date and a time with perhaps an offset. -/
def moment? (t : Text) : Option Value := do
  let rest ← match date? t with
    | some [] => some []
    | some (c :: rest) => if c ∈ ['T', 't', ' '] then (time? rest).bind offset? else none
    | none => time? t
  if rest.isEmpty then some .moment else none

def value? (t : Text) : Option Value :=
  boolean? t <|> decimal? t <|> radix? t <|> float? t <|> special? t <|> moment? t

/-- Whatever does not belong to the structure around a value. -/
def isPart (c : Char) : Bool :=
  c ∉ ['=', ',', '[', ']', '\x7b', '\x7d', '#', ' ', '\t', '\r', '\n']

/-- The longest text that could be a value, and the text after it. Blanks belong to the value where
more of it follows that does not start with a quote; `gap` holds those just passed, the last one in
front. -/
def spelling (gap : Text) : Text → Text × Text
  | [] => ([], gap.reverse)
  | c :: t =>
    if isBlank c then spelling (c :: gap) t
    else if isPart c && (gap.isEmpty || c ∉ ['\x22', '\x27']) then
      let (more, rest) := spelling [] t
      (gap.reverse ++ c :: more, rest)
    else ([], gap.reverse ++ c :: t)

def read (t : Text) : Option (Value × Text) := do
  let (front, rest) := spelling [] t
  return (← value? front, rest)

end PageRouting.Toml.Scalar
