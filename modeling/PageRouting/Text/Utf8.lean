import PageRouting.Text

/-! Text as UTF-8 octets. Reading is total: a sequence that cannot be completed is read as one
replacement character. -/
namespace PageRouting.Utf8

def encode (t : Text) : List UInt8 := t.flatMap String.utf8EncodeChar

/-- Stands for octets that spell no character. -/
def replacement : Char := '\ufffd'

/-- A sequence under way: the octets owed after the next one, the bits read so far, and the range
that the next octet has to lie in. -/
structure Pending where
  owed : Nat
  bits : Nat
  low : Nat
  high : Nat
  deriving DecidableEq, Repr

/-- What an octet means between characters: the text it completes and the sequence it opens.
The ranges leave out overlong forms, surrogates and everything above the last character. -/
def start (b : UInt8) : Text × Option Pending :=
  let n := b.toNat
  if n < 0x80 then ([Char.ofNat n], none)
  else if 0xC2 ≤ n ∧ n ≤ 0xDF then ([], some ⟨0, n - 0xC0, 0x80, 0xBF⟩)
  else if n = 0xE0 then ([], some ⟨1, 0, 0xA0, 0xBF⟩)
  else if n = 0xED then ([], some ⟨1, 0xD, 0x80, 0x9F⟩)
  else if 0xE1 ≤ n ∧ n ≤ 0xEF then ([], some ⟨1, n - 0xE0, 0x80, 0xBF⟩)
  else if n = 0xF0 then ([], some ⟨2, 0, 0x90, 0xBF⟩)
  else if 0xF1 ≤ n ∧ n ≤ 0xF3 then ([], some ⟨2, n - 0xF0, 0x80, 0xBF⟩)
  else if n = 0xF4 then ([], some ⟨2, 4, 0x80, 0x8F⟩)
  else ([replacement], none)

/-- The sequence after an octet in its range. -/
def Pending.push (p : Pending) (b : UInt8) : Text × Option Pending :=
  let bits := p.bits * 64 + (b.toNat - 0x80)
  match p.owed with
  | 0 => ([Char.ofNat bits], none)
  | n + 1 => ([], some ⟨n, bits, 0x80, 0xBF⟩)

/-- One octet. Where it does not continue the sequence under way, that sequence is given up as one
replacement and the octet is read afresh. -/
def step : Option Pending → UInt8 → Text × Option Pending
  | none, b => start b
  | some p, b =>
    if p.low ≤ b.toNat ∧ b.toNat ≤ p.high then p.push b
    else (replacement :: (start b).1, (start b).2)

def decodeFrom : Option Pending → List UInt8 → Text
  | none, [] => []
  | some _, [] => [replacement]
  | p, b :: bs => (step p b).1 ++ decodeFrom (step p b).2 bs

/-- The text that the octets spell, with a replacement for each sequence that spells nothing. -/
def decode (bs : List UInt8) : Text := decodeFrom none bs

/-- The text of well-formed octets: those that the text is written as again. -/
def decode? (bs : List UInt8) : Option Text :=
  if encode (decode bs) = bs then some (decode bs) else none

theorem decodeFrom_cons (p : Option Pending) (b : UInt8) (bs : List UInt8) :
    decodeFrom p (b :: bs) = (step p b).1 ++ decodeFrom (step p b).2 bs := by
  cases p <;> rfl

private theorem toNat_ofNat {n : Nat} (h : n < 256) : (UInt8.ofNat n).toNat = n := by
  simp [Nat.mod_eq_of_lt h]

private theorem decodeFrom_last {k low high n : Nat} (bs : List UInt8) (h : n < 256)
    (hl : low ≤ n) (hh : n ≤ high) :
    decodeFrom (some ⟨0, k, low, high⟩) (UInt8.ofNat n :: bs) =
      Char.ofNat (k * 64 + (n - 0x80)) :: decodeFrom none bs := by
  rw [decodeFrom_cons, step, toNat_ofNat h, if_pos ⟨hl, hh⟩, Pending.push, toNat_ofNat h]
  rfl

private theorem decodeFrom_owed {owed k low high n : Nat} (bs : List UInt8) (h : n < 256)
    (hl : low ≤ n) (hh : n ≤ high) :
    decodeFrom (some ⟨owed + 1, k, low, high⟩) (UInt8.ofNat n :: bs) =
      decodeFrom (some ⟨owed, k * 64 + (n - 0x80), 0x80, 0xBF⟩) bs := by
  rw [decodeFrom_cons, step, toNat_ofNat h, if_pos ⟨hl, hh⟩, Pending.push, toNat_ofNat h]
  rfl

private theorem start_two {n : Nat} (h : 0xC2 ≤ n) (h' : n ≤ 0xDF) :
    start (UInt8.ofNat n) = ([], some ⟨0, n - 0xC0, 0x80, 0xBF⟩) := by
  simp only [start]
  rw [toNat_ofNat (by omega), if_neg (by omega), if_pos ⟨h, h'⟩]

private theorem start_three {n : Nat} (h : 0xE0 ≤ n) (h' : n ≤ 0xEF) :
    ∃ low high, start (UInt8.ofNat n) = ([], some ⟨1, n - 0xE0, low, high⟩) ∧
      low = (if n = 0xE0 then 0xA0 else 0x80) ∧ high = (if n = 0xED then 0x9F else 0xBF) := by
  refine ⟨_, _, ?_, rfl, rfl⟩
  simp only [start]
  rw [toNat_ofNat (by omega), if_neg (by omega), if_neg (by omega)]
  by_cases h0 : n = 0xE0
  · subst h0; rfl
  by_cases h1 : n = 0xED
  · subst h1; rfl
  rw [if_neg h0, if_neg h1, if_pos (by omega), if_neg h0, if_neg h1]

private theorem start_four {n : Nat} (h : 0xF0 ≤ n) (h' : n ≤ 0xF4) :
    ∃ low high, start (UInt8.ofNat n) = ([], some ⟨2, n - 0xF0, low, high⟩) ∧
      low = (if n = 0xF0 then 0x90 else 0x80) ∧ high = (if n = 0xF4 then 0x8F else 0xBF) := by
  refine ⟨_, _, ?_, rfl, rfl⟩
  simp only [start]
  rw [toNat_ofNat (by omega), if_neg (by omega), if_neg (by omega), if_neg (by omega), if_neg (by omega),
    if_neg (by omega)]
  by_cases h0 : n = 0xF0
  · subst h0; rfl
  by_cases h1 : n = 0xF4
  · subst h1; rfl
  rw [if_neg h0, if_pos (by omega), if_neg h0, if_neg h1]

theorem decodeFrom_char (c : Char) (bs : List UInt8) :
    decodeFrom none (String.utf8EncodeChar c ++ bs) = c :: decodeFrom none bs := by
  have hv : c.val.toNat = c.toNat := rfl
  have hc : Char.ofNat c.toNat = c := Char.ofNat_toNat c
  have hb : c.toNat < 0xD800 ∨ (0xDFFF < c.toNat ∧ c.toNat < 0x110000) := c.valid
  generalize c.toNat = n at *
  simp only [String.utf8EncodeChar, hv]
  split
  · next h =>
    simp only [List.cons_append, List.nil_append, decodeFrom_cons, step, start]
    rw [toNat_ofNat (by omega), if_pos (by omega), hc]
    rfl
  split
  · next h1 h2 =>
    rw [List.cons_append, List.cons_append, List.nil_append, decodeFrom_cons, step,
      start_two (by omega) (by omega), List.nil_append,
      decodeFrom_last _ (by omega) (by omega) (by omega),
      show (n / 64 % 32 + 192 - 192) * 64 + (n % 64 + 128 - 128) = n by omega, hc]
  split
  · next h1 h2 h3 =>
    obtain ⟨low, high, hs, hl, hh⟩ := start_three (n := n / 4096 % 16 + 224) (by omega) (by omega)
    rw [List.cons_append, List.cons_append, List.cons_append, List.nil_append, decodeFrom_cons, step, hs,
      List.nil_append, decodeFrom_owed _ (by omega) (by rw [hl]; split <;> omega)
        (by rw [hh]; split <;> omega), decodeFrom_last _ (by omega) (by omega) (by omega),
      show ((n / 4096 % 16 + 224 - 224) * 64 + (n / 64 % 64 + 128 - 128)) * 64 + (n % 64 + 128 - 128) = n
        by omega, hc]
  · next h1 h2 h3 =>
    obtain ⟨low, high, hs, hl, hh⟩ := start_four (n := n / 262144 % 8 + 240) (by omega) (by omega)
    rw [List.cons_append, List.cons_append, List.cons_append, List.cons_append, List.nil_append,
      decodeFrom_cons, step, hs, List.nil_append,
      decodeFrom_owed _ (by omega) (by rw [hl]; split <;> omega) (by rw [hh]; split <;> omega),
      decodeFrom_owed _ (by omega) (by omega) (by omega),
      decodeFrom_last _ (by omega) (by omega) (by omega),
      show (((n / 262144 % 8 + 240 - 240) * 64 + (n / 4096 % 64 + 128 - 128)) * 64
        + (n / 64 % 64 + 128 - 128)) * 64 + (n % 64 + 128 - 128) = n by omega, hc]

theorem decode_encode (t : Text) : decode (encode t) = t := by
  induction t with
  | nil => rfl
  | cons c t ih =>
    rw [encode, List.flatMap_cons, decode, decodeFrom_char]
    exact congrArg (c :: ·) ih

/-- Well-formed octets are those that a text is written as. -/
theorem decode?_eq_some_iff {bs : List UInt8} {t : Text} : decode? bs = some t ↔ bs = encode t := by
  rw [decode?]
  constructor
  · intro h
    split at h
    · next hbs => rw [← Option.some.inj h, hbs]
    · cases h
  · rintro rfl
    rw [decode_encode, if_pos rfl]

end PageRouting.Utf8
