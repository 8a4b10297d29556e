import Mathlib.Data.Set.Operations
import PageRouting.Proofs.Registry
import PageRouting.Proofs.Token.Reading

/-! Tokens survive being written and read. What is read back is what was written, except for the empty
token, which has no text, and for callbacks of interfaces whose names are no identifiers. -/
namespace PageRouting.Token

/-- The form that a page instance is rendered in. -/
def PageForm.ofVersion (m : Option PageMapName) (v : PageVersion) : PageForm :=
  ⟨m, .ofWord v.id, if v.renderCount = 0 then none else some (.ofWord v.renderCount)⟩

theorem PageForm.version_ofVersion (m : Option PageMapName) (v : PageVersion) : (ofVersion m v).version = v := by
  obtain ⟨i, n⟩ := v
  rw [version, ofVersion, Numeral.value_ofWord]
  split
  · next h => exact congrArg (PageVersion.mk i) h.symm
  · exact congrArg (PageVersion.mk i) (Numeral.value_ofWord n)

theorem PageForm.text_ofVersion (m : Option PageMapName) (v : PageVersion) :
    (ofVersion m v).text = PageLocator.render ⟨m, some v⟩ := by
  rw [PageLocator.render_version, PageVersion.render_eq, text, List.append_assoc]
  rfl

/-- The form that a callback is rendered in. -/
def CallbackForm.written (c : Callback) (h : c.interface.isIdentifier) : CallbackForm :=
  ofCallback c h (c.behavior.map .ofWord)

theorem CallbackForm.callback_written (c : Callback) (h : c.interface.isIdentifier) :
    (written c h).callback = c := by
  have hb : (c.behavior.map Numeral.ofWord).map Numeral.value = c.behavior := by
    rw [Option.map_map]
    exact (congrArg (Option.map · c.behavior) (funext Numeral.value_ofWord)).trans Option.map_id'
  rw [callback, written, path_ofCallback]
  exact congrArg (Callback.mk c.interface · c.path) hb

theorem CallbackForm.text_written (c : Callback) (h : c.interface.isIdentifier) :
    (written c h).text = c.render := by
  have hids : ((written c h).ids.flatMap fun w => '-' :: w.text) =
      c.path.ids.flatMap fun id => '-' :: Callback.escape id := by
    rw [← path_ofCallback c h (c.behavior.map .ofWord), path, List.flatMap_map]
    exact congrArg (List.flatMap · _) (funext fun w => congrArg _ w.text_eq)
  rw [text, hids, Callback.render_eq]
  rfl

/-- Tokens that are not empty and call identifiers only are spelled by a derivation. -/
theorem exists_derivation {t : Token} (hne : t.isEmpty = false)
    (hid : ∀ c ∈ t.callback?, c.interface.isIdentifier) :
    ∃ d : Derivation, d.text = t.render ∧ d.token = t := by
  match t with
  | .page ⟨none, none⟩ => cases hne
  | .page ⟨some name, none⟩ => exact ⟨.pageMap name, rfl, rfl⟩
  | .page ⟨m, some v⟩ =>
    refine ⟨.page (.ofVersion m v), PageForm.text_ofVersion m v, ?_⟩
    rw [Derivation.token, PageForm.locator, PageForm.version_ofVersion]
    rfl
  | .callback m v c =>
    refine ⟨.callback (.ofVersion m v) (.written c (hid c rfl)), ?_, ?_⟩
    · rw [Derivation.text, PageForm.text_ofVersion, CallbackForm.text_written]
      rfl
    · rw [Derivation.token, PageForm.version_ofVersion, CallbackForm.callback_written]
      rfl

/-- No token with a callback of another name is ever read. -/
theorem isIdentifier_of_parse {t : Text} {token : Token} (h : Token.parse t = some token) :
    ∀ c ∈ token.callback?, c.interface.isIdentifier := by
  obtain ⟨d, rfl⟩ := Derivation.exists_of_parse h
  rw [d.parse_text] at h
  cases h
  intro c hc
  cases d with
  | pageMap name => cases hc
  | page f => cases hc
  | callback f g =>
    cases hc
    exact g.identifier

theorem not_isEmpty_of_parse {t : Text} {token : Token} (h : Token.parse t = some token) :
    token.isEmpty = false := by
  obtain ⟨d, rfl⟩ := Derivation.exists_of_parse h
  rw [d.parse_text] at h
  cases h
  cases d with
  | pageMap name => rfl
  | page f => exact Bool.and_false _
  | callback f g => rfl

theorem parse_render_iff (t : Token) :
    Token.parse t.render = some t ↔ t.isEmpty = false ∧ ∀ c ∈ t.callback?, c.interface.isIdentifier := by
  constructor
  · intro h
    exact ⟨not_isEmpty_of_parse h, isIdentifier_of_parse h⟩
  · rintro ⟨hne, hid⟩
    obtain ⟨d, hd, rfl⟩ := exists_derivation hne hid
    rw [← hd, d.parse_text]

theorem decode_render_iff {r : Registry} (hr : r.Reachable) (t : Token) :
    Token.decode r t.render = some t ↔
      t.isEmpty = false ∧ ∀ c ∈ t.callback?, (r.resolve c.interface).isSome := by
  rw [decode, Option.filter_eq_some_iff, parse_render_iff, Option.all_eq_true]
  constructor
  · rintro ⟨⟨hne, -⟩, hc⟩
    exact ⟨hne, hc⟩
  · rintro ⟨hne, hc⟩
    exact ⟨⟨hne, fun c h => hr.isIdentifier_of_resolve (hc c h)⟩, hc⟩

/-- A token is read back from its text exactly if it is not empty and calls nothing but an identifier,
and under a registry exactly if it is not empty and what it calls is registered. So no two tokens of
the first kind share a text. -/
theorem render_reads_back :
    (∀ t : Token, Token.parse t.render = some t ↔
      t.isEmpty = false ∧ ∀ c ∈ t.callback?, c.interface.isIdentifier) ∧
    (∀ r : Registry, r.Reachable → ∀ t : Token, Token.decode r t.render = some t ↔
      t.isEmpty = false ∧ ∀ c ∈ t.callback?, (r.resolve c.interface).isSome) ∧
    Set.InjOn Token.render {t | t.isEmpty = false ∧ ∀ c ∈ t.callback?, c.interface.isIdentifier} := by
  refine ⟨parse_render_iff, fun r hr => decode_render_iff hr, ?_⟩
  intro t ht t' ht' h
  have hp := (parse_render_iff t).mpr ht
  rw [h, (parse_render_iff t').mpr ht'] at hp
  exact (Option.some.inj hp).symm

/-- A callback whose component ids hold both the separator and the escape. -/
def sampleCallback : Token :=
  .callback (some ⟨"abc".toList, by decide⟩) ⟨4, 5⟩
    ⟨"ILinkListener".toList, some 2, ⟨["a-b".toList, "c~d.é".toList], by decide, by decide⟩⟩

theorem sampleCallback_reads_back :
    sampleCallback.render = "abc.4.5-ILinkListener.2-a~-b-c~~d.é".toList ∧
      Token.parse sampleCallback.render = some sampleCallback ∧
      Registry.builtins.Reachable ∧ Token.decode .builtins sampleCallback.render = some sampleCallback := by
  refine ⟨by decide, ?_, .builtins, ?_⟩
  · exact (render_reads_back.1 sampleCallback).mpr ⟨rfl, by decide⟩
  · exact (render_reads_back.2.1 .builtins .builtins sampleCallback).mpr ⟨rfl, by decide⟩

end PageRouting.Token
