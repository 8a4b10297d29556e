import Mathlib.Logic.ExistsUnique
import PageRouting.Proofs.Token.Callback
import PageRouting.Proofs.Token.Page

/-! Tokens are read along the grammar: a text is read exactly when it has a derivation, which is
unique, and the token is what the derivation spells. -/
namespace PageRouting

namespace Token.Derivation

theorem cut?_name (name : PageMapName) : name.text.cut? '-' = none := by
  apply Text.cut?_eq_none_iff.mpr
  intro h
  have hw := name.isWordChar_of_mem h
  cases hw

theorem cut?_form (f : PageForm) : f.text.cut? '-' = none := Text.cut?_eq_none_iff.mpr f.dash_not_mem_text

theorem cut?_callback (f : PageForm) (g : CallbackForm) :
    (f.text ++ '-' :: g.text).cut? '-' = some (f.text, g.text) :=
  Text.cut?_eq_some_iff.mpr ⟨f.dash_not_mem_text, rfl⟩

theorem parse_text (d : Derivation) : Token.parse d.text = some d.token := by
  rw [Token.parse]
  cases d with
  | pageMap name =>
    rw [text, cut?_name]
    simp only [PageLocator.parse_name, Option.map_some, token]
  | page f =>
    rw [text, cut?_form]
    simp only [f.parse_text, Option.map_some, token]
  | callback f g =>
    have hparts : ofParts f.locator (some (f.locator.renderCount, g.callback)) =
        .ok (.callback f.pageMap f.version g.callback) := ofParts_eq_ok_iff.mpr ⟨rfl, rfl, rfl, rfl⟩
    rw [text, cut?_callback]
    simp only [f.parse_text, g.parse_text, Option.bind_eq_bind, Option.bind_some, hparts]
    rfl

theorem exists_of_parse {t : Text} {token : Token} (h : Token.parse t = some token) :
    ∃ d : Derivation, d.text = t := by
  rw [Token.parse] at h
  split at h
  · obtain ⟨l, hl, -⟩ := Option.map_eq_some_iff.mp h
    obtain ⟨name, rfl, -⟩ | ⟨f, rfl⟩ := PageLocator.exists_of_parse hl
    · exact ⟨.pageMap name, rfl⟩
    · exact ⟨.page f, rfl⟩
  · next head target hc =>
    obtain ⟨l, hl, h⟩ := Option.bind_eq_some_iff.mp h
    obtain ⟨_, hi, h⟩ := Option.bind_eq_some_iff.mp h
    obtain ⟨c, hp, -⟩ := Option.bind_eq_some_iff.mp h
    obtain ⟨g, rfl⟩ := CallbackForm.exists_of_parse hp
    obtain ⟨_, -, hn⟩ | ⟨f, rfl⟩ := PageLocator.exists_of_parse hl
    · rw [hn] at hi
      cases hi
    · exact ⟨.callback f g, (Text.cut?_eq_some_iff.mp hc).2.symm⟩

/-- A text has at most one derivation. -/
theorem text_injective {d e : Derivation} (h : d.text = e.text) : d = e := by
  have hcut := congrArg (Text.cut? '-') h
  cases d with
  | pageMap name =>
    cases e with
    | pageMap name' => rw [PageMapName.ext_text h]
    | page f => exact absurd h (name.text_ne_form f)
    | callback f g =>
      rw [text, text, cut?_name, cut?_callback] at hcut
      cases hcut
  | page f =>
    cases e with
    | pageMap name => exact absurd h.symm (name.text_ne_form f)
    | page f' => rw [PageForm.text_injective h]
    | callback f' g =>
      rw [text, text, cut?_form, cut?_callback] at hcut
      cases hcut
  | callback f g =>
    rw [text, cut?_callback] at hcut
    cases e with
    | pageMap name =>
      rw [text, cut?_name] at hcut
      cases hcut
    | page f' =>
      rw [text, cut?_form] at hcut
      cases hcut
    | callback f' g' =>
      rw [text, cut?_callback] at hcut
      obtain ⟨hf, hg⟩ := Prod.mk.inj (Option.some.inj hcut)
      rw [PageForm.text_injective hf, CallbackForm.text_injective hg]

end Token.Derivation

namespace Token

namespace Derivation

theorem token_normal (d : Derivation) : d.normal.token = d.token := by
  cases d with
  | pageMap name => rfl
  | page f => rw [normal, token, token, PageForm.locator, PageForm.locator, f.version_normal]; rfl
  | callback f g => rw [normal, token, token, f.version_normal, g.callback_normal]; rfl

theorem render_token (d : Derivation) : d.token.render = d.normal.text := by
  cases d with
  | pageMap name => rfl
  | page f => exact f.render_locator
  | callback f g =>
    change f.locator.render ++ '-' :: g.callback.render = f.normal.text ++ '-' :: g.normal.text
    rw [f.render_locator, g.render_callback]

end Derivation

/-- Exactly the texts of the grammar are read, each by its only derivation and as the token that this
spells. Writing the token again drops leading zeros and a render count of zero, and nothing else. -/
theorem read_iff_derivation :
    (∀ t : Text, (Token.parse t).isSome ↔ ∃! d : Derivation, d.text = t) ∧
      ∀ d : Derivation, Token.parse d.text = some d.token ∧ d.token.render = d.normal.text ∧
        Token.parse d.token.render = some d.token := by
  refine ⟨fun t => ⟨fun h => ?_, ?_⟩, fun d => ⟨d.parse_text, d.render_token, ?_⟩⟩
  · obtain ⟨token, ht⟩ := Option.isSome_iff_exists.mp h
    obtain ⟨d, rfl⟩ := Derivation.exists_of_parse ht
    exact ⟨d, rfl, fun e he => Derivation.text_injective he⟩
  · rintro ⟨d, rfl, -⟩
    rw [d.parse_text]
    rfl
  · rw [d.render_token, d.normal.parse_text, d.token_normal]

end Token
end PageRouting
