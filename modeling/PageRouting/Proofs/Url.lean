import Mathlib.Data.List.TakeWhile
import Mathlib.Data.Set.Operations
import PageRouting.Proofs.Text.Percent
import PageRouting.Url

/-! Addresses survive being written and read, all but those that no text stands for. The delimiters
cannot be forged: where one splits, no encoded part holds it. -/
namespace PageRouting

namespace QueryEntry

theorem encode_eq_nil_iff {t : Text} : encode t = [] ↔ t = [] := Percent.encode_eq_nil_iff (by decide)

theorem decode_eq_nil_iff {t : Text} : decode t = [] ↔ t = [] := by
  rw [decode, Percent.decode_eq_nil_iff, List.map_eq_nil_iff]

/-- No `+` is written, so that none is read as a space. -/
theorem decode_encode (t : Text) : decode (encode t) = t := by
  have hplus : ∀ c ∈ encode t, (if c = '+' then ' ' else c) = c := by
    intro c hc
    apply if_neg
    rintro rfl
    have hw := Percent.isWritten_of_mem hc
    cases hw
  rw [decode, List.map_congr_left hplus, List.map_id']
  exact Percent.decode_encode (by decide) t

theorem mem_render {e : QueryEntry} {c : Char} (h : c ∈ e.render) :
    c = '=' ∨ Percent.isWritten reserved c := by
  obtain ⟨n, v⟩ := e
  cases v with
  | none => exact .inr (Percent.isWritten_of_mem h)
  | some v =>
    rcases List.mem_append.mp h with h | h
    · exact .inr (Percent.isWritten_of_mem h)
    · exact (List.mem_cons.mp h).imp_right Percent.isWritten_of_mem

theorem parse_render (e : QueryEntry) : parse e.render = e := by
  have hsep (t : Text) : '=' ∉ encode t := by
    intro h
    have hw := Percent.isWritten_of_mem h
    cases hw
  obtain ⟨n, v⟩ := e
  cases v with
  | none =>
    rw [parse, render, Text.cut?_eq_none_iff.mpr (hsep n)]
    simp only [decode_encode, flag]
  | some v =>
    rw [parse, render, Text.cut?_eq_some_iff.mpr ⟨hsep n, rfl⟩]
    simp only [decode_encode, pair]

/-- Only the nameless flag leaves no text. -/
theorem render_eq_nil_iff {e : QueryEntry} : e.render = [] ↔ e = flag [] := by
  obtain ⟨n, v⟩ := e
  cases v with
  | none => simp only [render, encode_eq_nil_iff, flag, QueryEntry.mk.injEq, and_true]
  | some v => simp [render, flag]

theorem parse_ne_flag {t : Text} (h : t ≠ []) : parse t ≠ flag [] := by
  rw [parse]
  split
  · exact fun he => by cases congrArg QueryEntry.value he
  · exact fun he => h (decode_eq_nil_iff.mp (congrArg QueryEntry.name he))

end QueryEntry

namespace Query

theorem mem_render {q : Query} {c : Char} (h : c ∈ q.render) :
    c = '&' ∨ c = '=' ∨ Percent.isWritten QueryEntry.reserved c := by
  rcases Text.mem_join h with h | ⟨p, hp, h⟩
  · exact .inl h
  · obtain ⟨e, -, rfl⟩ := List.mem_map.mp hp
    exact .inr (QueryEntry.mem_render h)

/-- Nameless flags are lost, all else is read back. -/
theorem parse_render (q : Query) : parse q.render = q.filter (· ≠ .flag []) := by
  by_cases hq : q = []
  · subst hq
    rfl
  have hsep : ∀ p ∈ q.map QueryEntry.render, '&' ∉ p := by
    intro p hp h
    obtain ⟨e, -, rfl⟩ := List.mem_map.mp hp
    exact absurd (QueryEntry.mem_render h) (by decide)
  have hempty (e : QueryEntry) : (!e.render.isEmpty) = decide (e ≠ .flag []) := by
    rw [Bool.eq_iff_iff]
    simp [QueryEntry.render_eq_nil_iff]
  rw [parse, render, Text.splitOn_join hsep (by simpa using hq), List.filter_map, List.map_map]
  calc
    _ = (q.filter (· ≠ .flag [])).map (QueryEntry.parse ∘ QueryEntry.render) :=
      congrArg _ (List.filter_congr fun e _ => hempty e)
    _ = (q.filter (· ≠ .flag [])).map id := List.map_congr_left fun e _ => e.parse_render
    _ = _ := List.map_id _

theorem flag_not_mem_parse (t : Text) : QueryEntry.flag [] ∉ parse t := by
  intro h
  obtain ⟨p, hp, he⟩ := List.mem_map.mp h
  have hne : p ≠ [] := by simpa using (List.mem_filter.mp hp).2
  exact QueryEntry.parse_ne_flag hne he

end Query

namespace Url

/-- Addresses that have a text of their own: a lone empty segment would read as no segment, and a
nameless flag as no entry. -/
def Legible (u : Url) : Prop := u.segments ≠ [[]] ∧ QueryEntry.flag [] ∉ u.query

theorem encodeSegment_eq_nil_iff {t : Text} : encodeSegment t = [] ↔ t = [] :=
  Percent.encode_eq_nil_iff (by decide)

theorem decode_encodeSegment (t : Text) : Percent.decode (encodeSegment t) = t :=
  Percent.decode_encode (by decide) t

/-- The text of a path. -/
def renderSegments (segments : List Text) : Text := Text.join '/' (segments.map encodeSegment)

theorem mem_renderSegments {segments : List Text} {c : Char} (h : c ∈ renderSegments segments) :
    c = '/' ∨ Percent.isWritten reserved c := by
  rcases Text.mem_join h with h | ⟨p, hp, h⟩
  · exact .inl h
  · obtain ⟨s, -, rfl⟩ := List.mem_map.mp hp
    exact .inr (Percent.isWritten_of_mem h)

theorem slash_not_mem_encodeSegment (t : Text) : '/' ∉ encodeSegment t :=
  fun h => absurd (Percent.isWritten_of_mem h) (by decide)

theorem mark_not_mem_renderSegments (segments : List Text) : '?' ∉ renderSegments segments :=
  fun h => absurd (mem_renderSegments h) (by decide)

/-- A lone empty segment is lost, all other paths are read back. -/
theorem parseSegments_render {segments : List Text} (h : segments ≠ [[]]) :
    parseSegments (renderSegments segments) = segments := by
  by_cases hs : segments = []
  · subst hs
    rfl
  have hsep : ∀ p ∈ segments.map encodeSegment, '/' ∉ p :=
    List.forall_mem_map.mpr fun s _ => slash_not_mem_encodeSegment s
  have hne : (renderSegments segments).isEmpty = false := by
    rw [List.isEmpty_eq_false_iff, renderSegments, Ne, Text.join_eq_nil_iff]
    rintro (hn | hn)
    · exact hs (List.map_eq_nil_iff.mp hn)
    · obtain ⟨s, rest, rfl, hs', hr⟩ := List.map_eq_cons_iff.mp hn
      rw [List.map_eq_nil_iff.mp hr, encodeSegment_eq_nil_iff.mp hs'] at h
      exact h rfl
  rw [parseSegments, hne, renderSegments, Text.splitOn_join hsep (by simpa using hs), List.map_map]
  exact (List.map_congr_left fun s _ => decode_encodeSegment s).trans (List.map_id _)

theorem parseSegments_ne (t : Text) : parseSegments t ≠ [[]] := by
  rw [parseSegments]
  split
  · exact (List.cons_ne_nil _ _).symm
  · next ht =>
    intro h
    obtain ⟨s, rest, hs, hd, hr⟩ := List.map_eq_cons_iff.mp h
    have hj := Text.join_splitOn '/' t
    rw [hs, List.map_eq_nil_iff.mp hr, Percent.decode_eq_nil_iff.mp hd] at hj
    exact ht (by rw [← hj]; rfl)

theorem path_cons {s : Text} (h : s ≠ []) (segments : List Text) (q : Query) :
    path ⟨s :: segments, q⟩ = s :: segments := by
  cases s with
  | nil => exact absurd rfl h
  | cons c t => rfl

theorem render_eq (u : Url) :
    u.render = renderSegments u.segments ++ if u.query.isEmpty then [] else '?' :: u.query.render := rfl

theorem hash_not_mem_render (u : Url) : '#' ∉ u.render := by
  rw [render_eq]
  intro h
  rcases List.mem_append.mp h with h | h
  · exact absurd (mem_renderSegments h) (by decide)
  · split at h
    · cases h
    · rcases List.mem_cons.mp h with h | h
      · cases h
      · exact absurd (Query.mem_render h) (by decide)

/-- What is read from the text of any address. -/
theorem parse_render (u : Url) :
    parse u.render = ⟨if u.segments = [[]] then [] else u.segments, u.query.filter (· ≠ .flag [])⟩ := by
  have hvisible : u.render.takeWhile (· ≠ '#') = u.render := by
    refine List.takeWhile_eq_self_iff.mpr fun c hc => decide_eq_true ?_
    rintro rfl
    exact u.hash_not_mem_render hc
  have hpath : parseSegments (renderSegments u.segments) = if u.segments = [[]] then [] else u.segments := by
    split
    · next h =>
      rw [h]
      rfl
    · next h => exact parseSegments_render h
  have hsep := mark_not_mem_renderSegments u.segments
  rw [parse, hvisible, render_eq, ← hpath]
  by_cases hq : u.query = []
  · have hc : (renderSegments u.segments).cut? '?' = none := Text.cut?_eq_none_iff.mpr hsep
    simp only [hq, List.isEmpty_nil, if_true, List.append_nil, hc, List.filter_nil]
  · have hc : (renderSegments u.segments ++ '?' :: u.query.render).cut? '?' =
        some (renderSegments u.segments, u.query.render) := Text.cut?_eq_some_iff.mpr ⟨hsep, rfl⟩
    simp only [List.isEmpty_eq_false_iff.mpr hq, Bool.false_eq_true, if_false, hc, Query.parse_render]

theorem parse_render_eq_self_iff (u : Url) : parse u.render = u ↔ u.Legible := by
  obtain ⟨segments, query⟩ := u
  rw [parse_render, Url.mk.injEq, Legible]
  apply and_congr
  · constructor
    · rintro h rfl
      cases h
    · exact fun h => if_neg h
  · rw [List.filter_eq_self]
    constructor
    · intro h hf
      exact of_decide_eq_true (h _ hf) rfl
    · rintro h e he
      apply decide_eq_true
      rintro rfl
      exact h he

theorem legible_parse (t : Text) : (parse t).Legible := by
  rw [parse]
  split
  · exact ⟨parseSegments_ne _, Query.flag_not_mem_parse _⟩
  · exact ⟨parseSegments_ne _, List.not_mem_nil⟩

/-- An address is read back from its text exactly if it is legible, and whatever is read is. So reading
twice is reading once, and legible addresses have different texts. -/
theorem text_round_trip :
    (∀ u : Url, parse u.render = u ↔ u.Legible) ∧ (∀ t : Text, (parse t).Legible) ∧
      (∀ t : Text, parse (parse t).render = parse t) ∧ Set.InjOn render {u | u.Legible} := by
  refine ⟨parse_render_eq_self_iff, legible_parse, fun t => (parse_render_eq_self_iff _).mpr (legible_parse t), ?_⟩
  intro u hu v hv h
  rw [← (parse_render_eq_self_iff u).mpr hu, h]
  exact (parse_render_eq_self_iff v).mpr hv

end Url
end PageRouting
