import PageRouting.Proofs.Text.Numeral
import PageRouting.Token.Format

/-! The grammar of tokens as a type of derivations: each has the text that it derives and the token
that this text spells. -/
namespace PageRouting.Token

/-- One written character of a component id. -/
inductive Item
  | tilde
  | dash
  | plain (c : Char) (ok : c ≠ '-' ∧ c ≠ '~' ∧ c ≠ ':')
  deriving DecidableEq, Repr

namespace Item

def text : Item → Text
  | .tilde => ['~', '~']
  | .dash => ['~', '-']
  | .plain c _ => [c]

def char : Item → Char
  | .tilde => '~'
  | .dash => '-'
  | .plain c _ => c

/-- The way in which a character of an id is written. -/
def ofChar (c : Char) (h : c ≠ ':') : Item :=
  if h₁ : c = '~' then .tilde else if h₂ : c = '-' then .dash else .plain c ⟨h₂, h₁, h⟩

theorem char_ofChar (c : Char) (h : c ≠ ':') : (ofChar c h).char = c := by
  rw [ofChar]
  split
  · next h₁ => exact h₁.symm
  split
  · next h₂ => exact h₂.symm
  · rfl

theorem char_ne_colon (i : Item) : i.char ≠ ':' := by
  cases i with
  | tilde => exact ne_of_beq_false rfl
  | dash => exact ne_of_beq_false rfl
  | plain c ok => exact ok.2.2

theorem ofChar_char (i : Item) : ofChar i.char i.char_ne_colon = i := by
  cases i with
  | tilde => rfl
  | dash => rfl
  | plain c ok => exact (dif_neg ok.2.1).trans (dif_neg ok.1)

theorem char_injective {i j : Item} (h : i.char = j.char) : i = j := by
  have he : ofChar i.char i.char_ne_colon = ofChar j.char j.char_ne_colon := by simp only [h]
  rwa [ofChar_char, ofChar_char] at he

theorem text_eq (i : Item) : i.text = Callback.escapeChar i.char := by
  cases i with
  | tilde => rfl
  | dash => rfl
  | plain c ok => exact (if_neg (not_or.mpr ⟨ok.2.1, ok.1⟩)).symm

end Item

/-- A component id as it is written. -/
structure WrittenId where
  items : List Item
  ne_nil : items ≠ []
  deriving DecidableEq, Repr

namespace WrittenId

def text (w : WrittenId) : Text := w.items.flatMap Item.text

/-- The id with its escapes removed. -/
def id (w : WrittenId) : Text := w.items.map Item.char

theorem text_eq (w : WrittenId) : w.text = Callback.escape w.id := by
  rw [text, Callback.escape, id, List.flatMap_map]
  exact congrArg (List.flatMap · w.items) (funext Item.text_eq)

theorem id_injective {w w' : WrittenId} (h : w.id = w'.id) : w = w' := by
  have hi := (List.map_inj_right fun _ _ => Item.char_injective).mp h
  cases w
  cases w'
  cases hi
  rfl

def ofId (t : Text) (h : t ≠ [] ∧ ':' ∉ t) : WrittenId where
  items := t.pmap Item.ofChar fun _ hc he => h.2 (he ▸ hc)
  ne_nil he := h.1 (List.pmap_eq_nil_iff.mp he)

theorem id_ofId (t : Text) (h : t ≠ [] ∧ ':' ∉ t) : (ofId t h).id = t := by
  have hc : ∀ c ∈ t, c ≠ ':' := fun _ hc he => h.2 (he ▸ hc)
  rw [id, ofId, List.map_pmap]
  calc
    _ = t.pmap (fun c _ => c) hc := List.pmap_congr_left t fun c _ _ hc => Item.char_ofChar c hc
    _ = t := by rw [List.pmap_eq_map, List.map_id']

end WrittenId

/-- A number after a `.`, or nothing. -/
def dotted : Option Numeral → Text
  | none => []
  | some n => '.' :: n.digits

/-- `[name '.'] num ['.' num]`. -/
structure PageForm where
  pageMap : Option PageMapName
  id : Numeral
  renderCount : Option Numeral
  deriving DecidableEq, Repr

namespace PageForm

def text (f : PageForm) : Text :=
  (match f.pageMap with
    | none => []
    | some name => name.text ++ ['.']) ++ f.id.digits ++ dotted f.renderCount

/-- A missing count is zero. -/
def version (f : PageForm) : PageVersion := ⟨f.id.value, (f.renderCount.map Numeral.value).getD 0⟩

def locator (f : PageForm) : PageLocator := ⟨f.pageMap, some f.version⟩

/-- Leading zeros go, and so does a count of zero. -/
def normal (f : PageForm) : PageForm where
  pageMap := f.pageMap
  id := f.id.trimmed
  renderCount := (f.renderCount.filter (·.value ≠ 0)).map Numeral.trimmed

end PageForm

/-- `iface ['.' num]` and then `'-' id` for each component. -/
structure CallbackForm where
  interface : Text
  identifier : interface.isIdentifier
  behavior : Option Numeral
  ids : List WrittenId
  ne_nil : ids ≠ []
  deriving DecidableEq, Repr

namespace CallbackForm

/-- The interface field. -/
def target (f : CallbackForm) : Text := f.interface ++ dotted f.behavior

def text (f : CallbackForm) : Text := f.target ++ f.ids.flatMap fun w => '-' :: w.text

theorem id_ok (f : CallbackForm) : ∀ id ∈ f.ids.map WrittenId.id, id ≠ [] ∧ ':' ∉ id := by
  intro id hid
  obtain ⟨w, -, rfl⟩ := List.mem_map.mp hid
  refine ⟨fun h => w.ne_nil (List.map_eq_nil_iff.mp h), fun hc => ?_⟩
  obtain ⟨i, -, hi⟩ := List.mem_map.mp hc
  exact i.char_ne_colon hi

def path (f : CallbackForm) : ComponentPath :=
  ⟨f.ids.map WrittenId.id, fun h => f.ne_nil (List.map_eq_nil_iff.mp h), f.id_ok⟩

def callback (f : CallbackForm) : Callback := ⟨f.interface, f.behavior.map Numeral.value, f.path⟩

/-- Leading zeros of the behavior's index go. -/
def normal (f : CallbackForm) : CallbackForm := { f with behavior := f.behavior.map Numeral.trimmed }

end CallbackForm

/-- A derivation of a token's text. -/
inductive Derivation
  | pageMap (name : PageMapName)
  | page (form : PageForm)
  | callback (form : PageForm) (target : CallbackForm)
  deriving DecidableEq, Repr

namespace Derivation

def text : Derivation → Text
  | .pageMap name => name.text
  | .page form => form.text
  | .callback form target => form.text ++ '-' :: target.text

/-- What the text spells. The page's render count serves the callback too. -/
def token : Derivation → Token
  | .pageMap name => .page ⟨some name, none⟩
  | .page form => .page form.locator
  | .callback form target => .callback form.pageMap form.version target.callback

/-- The same derivation without leading zeros and without a render count of zero. -/
def normal : Derivation → Derivation
  | .pageMap name => .pageMap name
  | .page form => .page form.normal
  | .callback form target => .callback form.normal target.normal

end Derivation
end PageRouting.Token
