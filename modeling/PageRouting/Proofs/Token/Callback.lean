import PageRouting.Proofs.Token.Words

/-! The callback part of tokens: its fields between bare `-`, and what they spell. -/
namespace PageRouting

namespace Callback

theorem escape_cons (c : Char) (t : Text) : escape (c :: t) = escapeChar c ++ escape t := List.flatMap_cons

theorem escape_of_plain {t : Text} (h₁ : '~' ∉ t) (h₂ : '-' ∉ t) : escape t = t := by
  induction t with
  | nil => rfl
  | cons c t ih =>
    have hc : ¬ (c = '~' ∨ c = '-') := by
      rintro (rfl | rfl)
      · exact h₁ List.mem_cons_self
      · exact h₂ List.mem_cons_self
    rw [escape_cons, escapeChar, if_neg hc,
      ih (fun h => h₁ (List.mem_cons_of_mem _ h)) fun h => h₂ (List.mem_cons_of_mem _ h)]
    rfl

/-- An escaped character goes to the front of the first field. -/
theorem fields_escapeChar (c : Char) (t : Text) : fields (escapeChar c ++ t) = (fields t).map (consHead c) := by
  rw [escapeChar]
  split
  · next h =>
    obtain rfl | rfl := h
    · rfl
    · rfl
  · next h =>
    rw [not_or] at h
    rw [List.cons_append, List.nil_append, fields]
    · intro t' hc _
      exact h.1 hc
    · intro t' hc _
      exact h.1 hc
    · exact h.1
    · exact h.2

theorem fields_escape_append (f t : Text) :
    fields (escape f ++ t) = (fields t).map fun fs => f.foldr consHead fs := by
  induction f with
  | nil => exact Option.map_id'.symm
  | cons c f ih =>
    rw [escape_cons, List.append_assoc, fields_escapeChar, ih, Option.map_map]
    rfl

theorem foldr_consHead (f g : Text) (gs : List Text) : f.foldr consHead (g :: gs) = (f ++ g) :: gs := by
  induction f with
  | nil => rfl
  | cons c f ih => rw [List.foldr_cons, ih]; rfl

/-- The text of fields that are separated by bare `-`. -/
def joined (f : Text) (gs : List Text) : Text := escape f ++ gs.flatMap fun g => '-' :: escape g

theorem joined_cons (f g : Text) (gs : List Text) : joined f (g :: gs) = escape f ++ '-' :: joined g gs := rfl

theorem fields_joined (f : Text) (gs : List Text) : fields (joined f gs) = some (f :: gs) := by
  induction gs generalizing f with
  | nil =>
    rw [joined, fields_escape_append]
    change some (f.foldr consHead [[]]) = _
    rw [foldr_consHead, List.append_nil]
  | cons g gs ih =>
    rw [joined_cons, fields_escape_append, fields, ih]
    change some (f.foldr consHead ([] :: g :: gs)) = _
    rw [foldr_consHead, List.append_nil]

theorem joined_consHead (c : Char) (f : Text) (gs : List Text) :
    joined (c :: f) gs = escapeChar c ++ joined f gs := by
  rw [joined, joined, escape_cons, List.append_assoc]

/-- Fields are read off no other text than the one that they join to. -/
theorem eq_joined_of_fields {t : Text} {fs : List Text} (h : fields t = some fs) :
    ∃ f gs, fs = f :: gs ∧ t = joined f gs := by
  fun_induction fields t generalizing fs with
  | case1 =>
    cases h
    exact ⟨[], [], rfl, rfl⟩
  | case2 t ih =>
    obtain ⟨fs', ht, rfl⟩ := Option.map_eq_some_iff.mp h
    obtain ⟨f, gs, rfl, rfl⟩ := ih ht
    exact ⟨'~' :: f, gs, rfl, (joined_consHead '~' f gs).symm⟩
  | case3 t ih =>
    obtain ⟨fs', ht, rfl⟩ := Option.map_eq_some_iff.mp h
    obtain ⟨f, gs, rfl, rfl⟩ := ih ht
    exact ⟨'-' :: f, gs, rfl, (joined_consHead '-' f gs).symm⟩
  | case4 => cases h
  | case5 t ih =>
    obtain ⟨fs', ht, rfl⟩ := Option.map_eq_some_iff.mp h
    obtain ⟨f, gs, rfl, rfl⟩ := ih ht
    exact ⟨[], f :: gs, rfl, rfl⟩
  | case6 c t _ _ h₁ h₂ ih =>
    obtain ⟨fs', ht, rfl⟩ := Option.map_eq_some_iff.mp h
    obtain ⟨f, gs, rfl, rfl⟩ := ih ht
    have hc : escapeChar c = [c] := if_neg (not_or.mpr ⟨h₁, h₂⟩)
    exact ⟨c :: f, gs, rfl, by rw [joined_consHead, hc]; rfl⟩

end Callback

namespace ComponentPath

theorem ofIds_toOption_eq_some_iff {ids : List Text} {p : ComponentPath} :
    (ofIds ids).toOption = some p ↔ p.ids = ids := by
  obtain ⟨is, hne, hok⟩ := p
  rw [ofIds]
  constructor
  · intro h
    split at h
    · cases h
      rfl
    · cases h
  · rintro rfl
    rw [dif_pos ⟨hne, hok⟩]
    rfl

theorem ext_ids {p q : ComponentPath} (h : p.ids = q.ids) : p = q := by
  cases p
  cases q
  cases h
  rfl

end ComponentPath

namespace Callback
open Token

theorem parseTarget_dotted {t : Text} (h : '.' ∉ t) (n : Option Numeral) :
    parseTarget (t ++ dotted n) = some (t, n.map Numeral.value) := by
  rw [parseTarget, cut?_dotted h]
  cases n with
  | none => simp only [Option.map_none, dotted, List.append_nil]
  | some n => simp only [Option.map_some, Decimal.word?_digits]

theorem dotted_of_parseTarget {t name : Text} {b : Option UInt32} (h : parseTarget t = some (name, b)) :
    ∃ n, t = name ++ dotted n := by
  rw [parseTarget] at h
  split at h
  · next name' index hc =>
    obtain ⟨w, hw, he⟩ := Option.map_eq_some_iff.mp h
    obtain ⟨n, rfl, -⟩ := Decimal.word?_eq_some_iff.mp hw
    obtain ⟨rfl, -⟩ := Prod.mk.inj he
    exact ⟨some n, (Text.cut?_eq_some_iff.mp hc).2⟩
  · cases h
    exact ⟨none, (List.append_nil t).symm⟩

theorem parse_eq_some_iff {t : Text} {c : Callback} :
    parse t = some c ↔ ∃ target, fields t = some (target :: c.path.ids) ∧
      parseTarget target = some (c.interface, c.behavior) ∧ c.interface.isIdentifier := by
  rw [parse]
  constructor
  · intro h
    split at h
    · next target ids hf =>
      obtain ⟨⟨interface, behavior⟩, ht, h⟩ := Option.bind_eq_some_iff.mp h
      by_cases hi : interface.isIdentifier
      · simp only [hi, Bool.not_true, Bool.false_eq_true, if_false] at h
        obtain ⟨path, hp, hc⟩ := Option.bind_eq_some_iff.mp h
        have hids := ComponentPath.ofIds_toOption_eq_some_iff.mp hp
        cases hc
        exact ⟨target, hids ▸ hf, ht, hi⟩
      · simp [hi] at h
    · cases h
  · rintro ⟨target, hf, ht, hi⟩
    have hp := ComponentPath.ofIds_toOption_eq_some_iff.mpr (rfl : c.path.ids = c.path.ids)
    simp only [hf, ht, hi, hp, Option.bind_eq_bind, Option.bind_some, Bool.not_true, Bool.false_eq_true,
      if_false]
    rfl

end Callback

namespace Token.CallbackForm

theorem mem_target (f : CallbackForm) {c : Char} (h : c ∈ f.target) : c = '.' ∨ isWordChar c := by
  rcases List.mem_append.mp h with h | h
  · exact .inr (Text.isWordChar_of_mem f.identifier h)
  · exact mem_dotted h

theorem dot_not_mem_interface (f : CallbackForm) : '.' ∉ f.interface := by
  intro h
  have hw := Text.isWordChar_of_mem f.identifier h
  cases hw

theorem text_eq (f : CallbackForm) : f.text = Callback.joined f.target f.path.ids := by
  have ht : Callback.escape f.target = f.target := by
    apply Callback.escape_of_plain
    · exact fun h => absurd (f.mem_target h) (by decide)
    · exact fun h => absurd (f.mem_target h) (by decide)
  rw [text, Callback.joined, ht, path, List.flatMap_map]
  exact congrArg (fun g => f.target ++ f.ids.flatMap g) (funext fun w => congrArg _ w.text_eq)

theorem parse_text (f : CallbackForm) : Callback.parse f.text = some f.callback := by
  refine Callback.parse_eq_some_iff.mpr ⟨f.target, ?_, ?_, f.identifier⟩
  · rw [text_eq]
    exact Callback.fields_joined f.target f.path.ids
  · exact Callback.parseTarget_dotted f.dot_not_mem_interface f.behavior

theorem text_injective {f g : CallbackForm} (h : f.text = g.text) : f = g := by
  have hf := congrArg Callback.fields h
  rw [text_eq, text_eq, Callback.fields_joined, Callback.fields_joined] at hf
  obtain ⟨ht, hi⟩ := List.cons.inj (Option.some.inj hf)
  obtain ⟨hn, hb⟩ := append_dotted_inj f.dot_not_mem_interface
    g.dot_not_mem_interface ht
  have hw := (List.map_inj_right fun _ _ => WrittenId.id_injective).mp hi
  cases f
  cases g
  cases hn
  cases hb
  cases hw
  rfl

/-- The form of a callback, given how the index of its behavior is written. -/
def ofCallback (c : Callback) (h : c.interface.isIdentifier) (behavior : Option Numeral) : CallbackForm where
  interface := c.interface
  identifier := h
  behavior := behavior
  ids := c.path.ids.pmap WrittenId.ofId c.path.id_ok
  ne_nil he := c.path.ne_nil (List.pmap_eq_nil_iff.mp he)

theorem path_ofCallback (c : Callback) (h : c.interface.isIdentifier) (n : Option Numeral) :
    (ofCallback c h n).path = c.path := by
  apply ComponentPath.ext_ids
  calc
    _ = c.path.ids.pmap (fun t ht => (WrittenId.ofId t ht).id) c.path.id_ok := List.map_pmap c.path.id_ok
    _ = c.path.ids.pmap (fun t _ => t) c.path.id_ok :=
      List.pmap_congr_left c.path.ids fun t _ _ ht => WrittenId.id_ofId t ht
    _ = c.path.ids := by rw [List.pmap_eq_map, List.map_id']

theorem exists_of_parse {t : Text} {c : Callback} (h : Callback.parse t = some c) :
    ∃ f : CallbackForm, f.text = t := by
  obtain ⟨target, hf, ht, hi⟩ := Callback.parse_eq_some_iff.mp h
  obtain ⟨f, gs, he, rfl⟩ := Callback.eq_joined_of_fields hf
  obtain ⟨rfl, rfl⟩ := List.cons.inj he
  obtain ⟨n, rfl⟩ := Callback.dotted_of_parseTarget ht
  refine ⟨ofCallback c hi n, ?_⟩
  rw [text_eq, path_ofCallback]
  rfl

end Token.CallbackForm

theorem Callback.render_eq (c : Callback) :
    c.render = c.interface ++ Token.dotted (c.behavior.map Numeral.ofWord)
      ++ c.path.ids.flatMap fun id => '-' :: escape id := by
  obtain ⟨interface, b, path⟩ := c
  cases b <;> rfl

namespace Token

theorem CallbackForm.callback_normal (f : CallbackForm) : f.normal.callback = f.callback := by
  obtain ⟨interface, hi, b, ids, hne⟩ := f
  cases b <;> simp [normal, callback, path]

theorem CallbackForm.render_callback (f : CallbackForm) : f.callback.render = f.normal.text := by
  have hb : (f.behavior.map Numeral.value).map Numeral.ofWord = f.behavior.map Numeral.trimmed := by
    rw [Option.map_map]
    exact congrArg (Option.map · f.behavior) (funext Numeral.ofWord_value)
  rw [Callback.render_eq, callback, hb, path, List.flatMap_map]
  exact congrArg (fun g => _ ++ f.ids.flatMap g) (funext fun w => congrArg _ w.text_eq.symm)

end Token
end PageRouting
