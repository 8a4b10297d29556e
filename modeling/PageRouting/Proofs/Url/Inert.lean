import PageRouting.Proofs.Url

/-! Written addresses are inert. Whatever they carry, their text is visible ASCII without double quotes, angle brackets,
backquotes and `#`, and it has no delimiters but their own. -/
namespace PageRouting

namespace Percent

/-- A digit that escapes are written with. -/
def isHexDigit (c : Char) : Bool := ('0' ≤ c && c ≤ '9') || ('A' ≤ c && c ≤ 'F')

/-- Every `%` opens an escape. -/
inductive Escaped : Text → Prop
  | nil : Escaped []
  | plain {c : Char} {t : Text} (hc : c ≠ '%') (h : Escaped t) : Escaped (c :: t)
  | escape {hi lo : Char} {t : Text} (hhi : isHexDigit hi) (hlo : isHexDigit lo) (h : Escaped t) :
      Escaped ('%' :: hi :: lo :: t)

theorem isHexDigit_hexDigit {n : Nat} (h : n < 16) : isHexDigit (hexDigit n) := by
  revert n
  decide

namespace Escaped
variable {s t : Text}

theorem append (hs : Escaped s) (ht : Escaped t) : Escaped (s ++ t) := by
  induction hs with
  | nil => exact ht
  | plain hc _ ih => exact .plain hc ih
  | escape hhi hlo _ ih => exact .escape hhi hlo ih

theorem join {sep : Char} (hsep : sep ≠ '%') {parts : List Text} (h : ∀ p ∈ parts, Escaped p) :
    Escaped (Text.join sep parts) := by
  induction parts with
  | nil => exact .nil
  | cons p parts ih =>
    have hp : Escaped p := h p List.mem_cons_self
    cases parts with
    | nil => rwa [Text.join, List.intercalate_singleton]
    | cons q parts =>
      have hrest := ih fun r hr => h r (List.mem_cons_of_mem _ hr)
      rw [Text.join, List.intercalate_cons_cons, List.append_assoc]
      exact hp.append (.plain hsep hrest)

/-- Two digits follow each `%`. -/
theorem exists_digits (h : Escaped t) {before after : Text} (ht : t = before ++ '%' :: after) :
    ∃ hi lo rest, after = hi :: lo :: rest ∧ isHexDigit hi ∧ isHexDigit lo := by
  induction h generalizing before with
  | nil => simp at ht
  | plain hc _ ih =>
    cases before with
    | nil => exact absurd (List.cons.inj ht).1 hc
    | cons d before => exact ih (List.cons.inj ht).2
  | @escape hi lo t hhi hlo _ ih =>
    match before with
    | [] => exact ⟨hi, lo, t, (List.cons.inj ht).2.symm, hhi, hlo⟩
    -- a digit of an escape is no `%`
    | [_] =>
      simp only [List.cons_append, List.nil_append, List.cons.injEq] at ht
      obtain ⟨-, rfl, -⟩ := ht
      cases hhi
    | [_, _] =>
      simp only [List.cons_append, List.nil_append, List.cons.injEq] at ht
      obtain ⟨-, -, rfl, -⟩ := ht
      cases hlo
    | _ :: _ :: _ :: before =>
      simp only [List.cons_append, List.cons.injEq] at ht
      exact ih ht.2.2.2

end Escaped

theorem escaped_flatMap_escape (bs : List UInt8) : Escaped (bs.flatMap escape) := by
  induction bs with
  | nil => exact .nil
  | cons b bs ih =>
    have hb := b.toNat_lt
    exact .escape (isHexDigit_hexDigit (by omega)) (isHexDigit_hexDigit (by omega)) ih

theorem escaped_encode {reserved : Char → Bool} (h : reserved '%') (t : Text) : Escaped (encode reserved t) := by
  induction t with
  | nil => exact .nil
  | cons c t ih =>
    rw [encode, List.flatMap_cons, encodeChar]
    split
    · next hc =>
      refine .plain ?_ ih
      rintro rfl
      simp [h] at hc
    · exact (escaped_flatMap_escape _).append ih

/-- Visible ASCII without the characters that end an attribute, open a tag or start a fragment. -/
def isInert (c : Char) : Bool := '!' ≤ c && c ≤ '~' && c ∉ ['\x22', '#', '<', '>', '\x60']

theorem of_forall_ascii {p : Char → Bool} (h : ∀ n < 0x80, p (Char.ofNat n)) {c : Char} (hc : c.toNat < 0x80) : p c := by
  have hp := h c.toNat hc
  rwa [Char.ofNat_toNat] at hp

theorem ascii_of_inEscapes {c : Char} (h : inEscapes c) : c.toNat < 0x80 := by
  simp only [inEscapes, Bool.or_eq_true, Bool.and_eq_true, decide_eq_true_eq] at h
  rcases h with (rfl | ⟨-, h⟩) | ⟨-, h⟩
  · decide
  · exact Nat.lt_of_le_of_lt (show c.toNat ≤ '9'.toNat from h) (by decide)
  · exact Nat.lt_of_le_of_lt (show c.toNat ≤ 'F'.toNat from h) (by decide)

/-- What is written is inert, if only inert characters are left to stand for themselves. -/
theorem isInert_of_isWritten {reserved : Char → Bool}
    (h : ∀ n < 0x80, reserved (Char.ofNat n) || isInert (Char.ofNat n)) {c : Char} (hc : isWritten reserved c) :
    isInert c := by
  rw [isWritten, Bool.or_eq_true, Bool.and_eq_true] at hc
  rcases hc with hc | ⟨hascii, hreserved⟩
  · have hescapes := of_forall_ascii (p := fun c => !inEscapes c || isInert c) (by decide) (ascii_of_inEscapes hc)
    simpa [hc] using hescapes
  · have hstands := of_forall_ascii (p := fun c => reserved c || isInert c) h (of_decide_eq_true hascii)
    have hfree : reserved c = false := by simpa using hreserved
    simpa [hfree] using hstands

end Percent

theorem Url.isInert_of_isWritten {c : Char} (h : Percent.isWritten Url.reserved c) : Percent.isInert c :=
  Percent.isInert_of_isWritten (by decide) h

theorem QueryEntry.isInert_of_isWritten {c : Char} (h : Percent.isWritten QueryEntry.reserved c) : Percent.isInert c :=
  Percent.isInert_of_isWritten (by decide) h

theorem QueryEntry.escaped_render (e : QueryEntry) : Percent.Escaped e.render := by
  obtain ⟨n, v⟩ := e
  have hname : Percent.Escaped (encode n) := Percent.escaped_encode (by decide) n
  cases v with
  | none => exact hname
  | some v => exact hname.append (.plain (by decide) (Percent.escaped_encode (by decide) v))

theorem Query.escaped_render (q : Query) : Percent.Escaped q.render := by
  exact .join (by decide) (List.forall_mem_map.mpr fun e _ => e.escaped_render)

namespace Url

theorem escaped_renderSegments (segments : List Text) : Percent.Escaped (renderSegments segments) := by
  exact .join (by decide) (List.forall_mem_map.mpr fun s _ => Percent.escaped_encode (by decide) s)

theorem escaped_render (u : Url) : Percent.Escaped u.render := by
  rw [render_eq]
  apply (escaped_renderSegments u.segments).append
  split
  · exact .nil
  · exact .plain (by decide) u.query.escaped_render

theorem isInert_of_mem_render {u : Url} {c : Char} (h : c ∈ u.render) : Percent.isInert c := by
  rw [render_eq] at h
  rcases List.mem_append.mp h with h | h
  · rcases mem_renderSegments h with rfl | h
    · decide
    · exact isInert_of_isWritten h
  · split at h
    · cases h
    · rcases List.mem_cons.mp h with rfl | h
      · decide
      · rcases Query.mem_render h with rfl | rfl | h
        · decide
        · decide
        · exact QueryEntry.isInert_of_isWritten h

/-- The path is all that stands before the first `?`. -/
theorem takeWhile_render (u : Url) : u.render.takeWhile (· ≠ '?') = renderSegments u.segments := by
  have hpath : ∀ c ∈ renderSegments u.segments, decide (c ≠ '?') = true := by
    intro c hc
    refine decide_eq_true ?_
    rintro rfl
    exact mark_not_mem_renderSegments u.segments hc
  rw [render_eq, List.takeWhile_append_of_pos hpath]
  split
  · exact List.append_nil _
  · exact List.append_nil _

theorem count_renderSegments (segments : List Text) : (renderSegments segments).count '/' = segments.length - 1 := by
  have hsep : ∀ p ∈ segments.map encodeSegment, '/' ∉ p :=
    List.forall_mem_map.mpr fun s _ => slash_not_mem_encodeSegment s
  rw [renderSegments, Text.count_join hsep, List.length_map]

theorem mark_mem_render_iff (u : Url) : '?' ∈ u.render ↔ u.query ≠ [] := by
  rw [render_eq, List.mem_append, or_iff_right (mark_not_mem_renderSegments u.segments)]
  cases u.query with
  | nil => simp
  | cons e q => simp

/-- The text of an address is inert. Each `%` in it opens an escape, the path has one `/` between any two segments and
no others, and a `?` comes only with a query. -/
theorem render_inert (u : Url) :
    (∀ c ∈ u.render, '!' ≤ c ∧ c ≤ '~' ∧ c ∉ ['\x22', '#', '<', '>', '\x60']) ∧
      (∀ before after, u.render = before ++ '%' :: after →
        ∃ hi lo rest, after = hi :: lo :: rest ∧ Percent.isHexDigit hi ∧ Percent.isHexDigit lo) ∧
      (u.render.takeWhile (· ≠ '?')).count '/' = u.segments.length - 1 ∧
      ('?' ∈ u.render ↔ u.query ≠ []) := by
  refine ⟨fun c hc => ?_, fun before after hsplit => u.escaped_render.exists_digits hsplit, ?_, u.mark_mem_render_iff⟩
  · have hinert := isInert_of_mem_render hc
    simpa only [Percent.isInert, Bool.and_eq_true, decide_eq_true_eq, and_assoc] using hinert
  · rw [takeWhile_render, count_renderSegments]

/-- A line end in a segment, and `?` and `<` in the query. -/
theorem render_inert_sample :
    'A' ∈ render ⟨[['a', '\n'], []], [.pair ['?'] ['<']]⟩ ∧
      ('!' ≤ 'A' ∧ 'A' ≤ '~' ∧ 'A' ∉ ['\x22', '#', '<', '>', '\x60']) ∧
      render ⟨[['a', '\n'], []], [.pair ['?'] ['<']]⟩ = "a%0A/??=".toList ++ '%' :: "3C".toList ∧
      ∃ hi lo rest, "3C".toList = hi :: lo :: rest ∧ Percent.isHexDigit hi ∧ Percent.isHexDigit lo := by
  have hmem : 'A' ∈ render ⟨[['a', '\n'], []], [.pair ['?'] ['<']]⟩ := by decide
  have hsplit : render ⟨[['a', '\n'], []], [.pair ['?'] ['<']]⟩ = "a%0A/??=".toList ++ '%' :: "3C".toList := by decide
  obtain ⟨hvisible, hescapes, -, -⟩ := render_inert ⟨[['a', '\n'], []], [.pair ['?'] ['<']]⟩
  exact ⟨hmem, hvisible _ hmem, hsplit, hescapes _ _ hsplit⟩

end Url
end PageRouting
