import PageRouting.Text.Percent

/-! Which characters percent encoding writes, and that reading what is not empty gives what is not
empty, well-formed or not. -/
namespace PageRouting

namespace Utf8

/-- A sequence under way ends as a character or as a replacement. -/
theorem decodeFrom_some_ne_nil (p : Pending) (bs : List UInt8) : decodeFrom (some p) bs ≠ [] := by
  induction bs generalizing p with
  | nil => exact List.cons_ne_nil _ _
  | cons b bs ih =>
    rw [decodeFrom_cons, step]
    split
    · obtain ⟨owed, bits, low, high⟩ := p
      cases owed with
      | zero => exact List.cons_ne_nil _ _
      | succ n => exact ih _
    · exact List.cons_ne_nil _ _

theorem start_cases (b : UInt8) : (start b).1 ≠ [] ∨ ∃ p, start b = ([], some p) := by
  rw [start]
  repeat' split
  all_goals first
    | exact .inl (List.cons_ne_nil _ _)
    | exact .inr ⟨_, rfl⟩

theorem decode_ne_nil {bs : List UInt8} (h : bs ≠ []) : decode bs ≠ [] := by
  cases bs with
  | nil => exact absurd rfl h
  | cons b bs =>
    rw [decode, decodeFrom_cons, step]
    rcases start_cases b with hs | ⟨p, hs⟩
    · exact fun hn => hs (List.append_eq_nil_iff.mp hn).1
    · rw [hs]
      exact decodeFrom_some_ne_nil p bs

end Utf8

namespace Percent

/-- The characters that escapes are written with. -/
def inEscapes (c : Char) : Bool := c = '%' || ('0' ≤ c && c ≤ '9') || ('A' ≤ c && c ≤ 'F')

private theorem inEscapes_hexDigit {n : Nat} (h : n < 16) : inEscapes (hexDigit n) := by
  revert n
  decide

theorem inEscapes_of_mem_escape {b : UInt8} {c : Char} (h : c ∈ escape b) : inEscapes c := by
  have hb := b.toNat_lt
  simp only [escape, List.mem_cons, List.not_mem_nil, or_false] at h
  obtain rfl | rfl | rfl := h
  · rfl
  · exact inEscapes_hexDigit (by omega)
  · exact inEscapes_hexDigit (by omega)

/-- The characters of encoded texts. -/
def isWritten (reserved : Char → Bool) (c : Char) : Bool := inEscapes c || (c.toNat < 0x80 && !reserved c)

theorem isWritten_of_mem {reserved : Char → Bool} {t : Text} {c : Char} (h : c ∈ encode reserved t) :
    isWritten reserved c := by
  obtain ⟨d, -, hd⟩ := List.mem_flatMap.mp h
  rw [encodeChar] at hd
  rw [isWritten, Bool.or_eq_true]
  split at hd
  · next hp =>
    cases List.mem_singleton.mp hd
    exact .inr (by simpa using hp)
  · obtain ⟨b, -, hb⟩ := List.mem_flatMap.mp hd
    exact .inl (inEscapes_of_mem_escape hb)

theorem encode_eq_nil_iff {reserved : Char → Bool} (hp : reserved '%') {t : Text} :
    encode reserved t = [] ↔ t = [] := by
  constructor
  · intro h
    rw [← decode_encode hp t, h]
    rfl
  · rintro rfl
    rfl

theorem octets_ne_nil {t : Text} (h : t ≠ []) : octets t ≠ [] := by
  fun_cases octets t with
  | case1 => exact absurd rfl h
  | case2 => exact List.cons_ne_nil _ _
  | case3 => exact List.cons_ne_nil _ _
  | case4 c t =>
    intro hn
    exact String.utf8EncodeChar_ne_nil (List.append_eq_nil_iff.mp hn).1

theorem decode_eq_nil_iff {t : Text} : decode t = [] ↔ t = [] := by
  constructor
  · intro h
    apply Decidable.byContradiction
    intro hne
    exact Utf8.decode_ne_nil (octets_ne_nil hne) h
  · rintro rfl
    rfl

end Percent
end PageRouting
