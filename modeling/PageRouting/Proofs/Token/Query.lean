import PageRouting.Proofs.Parameters
import PageRouting.Proofs.Token.RoundTrip
import PageRouting.Token.Query

/-! The token of a query is told apart from its parameters. Only the token is a flag, so that nothing
a parameter holds is taken for one. -/
namespace PageRouting

namespace Token

/-- What the token calls, if anything, has the name of an interface. -/
def Callable (t : Token) : Prop := ∀ c ∈ t.callback?, c.interface.isIdentifier

theorem render_ne_nil {t : Token} (hne : t.isEmpty = false) (hc : t.Callable) : t.render ≠ [] := by
  intro hr
  have hp := (parse_render_iff t).mpr ⟨hne, hc⟩
  rw [hr] at hp
  cases hp

theorem toQuery_eq (t : Option Token) (p : Parameters) :
    toQuery t p = ((t.filter (!·.isEmpty)).map fun t => QueryEntry.flag t.render).toList ++ p.toQuery := rfl

theorem ofQuery_of_no_flag {q : Query} (h : ∀ n, QueryEntry.flag n ∉ q) : ofQuery q = (none, .ofQuery q) := by
  rw [ofQuery]
  rintro n rest rfl
  exact h n List.mem_cons_self

theorem ofQuery_flag_render {t : Token} (hne : t.isEmpty = false) (hc : t.Callable) (q : Query) :
    ofQuery (.flag t.render :: q) = (some t, .ofQuery q) := by
  rw [QueryEntry.flag, ofQuery, (parse_render_iff t).mpr ⟨hne, hc⟩]

/-- The token is told from the parameters, whatever these are, unless it was empty. -/
theorem ofQuery_toQuery_split {t : Option Token} (ht : ∀ token ∈ t, token.Callable) (p : Parameters) :
    ofQuery (toQuery t p) = (t.filter (!·.isEmpty), .ofQuery p.toQuery) := by
  rw [toQuery_eq]
  cases hf : t.filter (!·.isEmpty) with
  | none => exact ofQuery_of_no_flag p.flag_not_mem_toQuery
  | some token =>
    obtain ⟨hm, hne⟩ := Option.filter_eq_some_iff.mp hf
    exact ofQuery_flag_render (by simpa using hne) (ht token hm) p.toQuery

/-- What is read back: the token unless it was empty, and the named values in their order. -/
theorem ofQuery_toQuery {t : Option Token} {p : Parameters} (ht : ∀ token ∈ t, token.Callable)
    (hp : p.named.WellFormed) :
    ofQuery (toQuery t p) = (t.filter (!·.isEmpty), ⟨[], p.named⟩) := by
  rw [ofQuery_toQuery_split ht, Parameters.ofQuery_toQuery hp]

theorem flag_nil_not_mem_toQuery {t : Option Token} (ht : ∀ token ∈ t, token.Callable) (p : Parameters) :
    QueryEntry.flag [] ∉ toQuery t p := by
  intro h
  rcases List.mem_append.mp h with h | h
  · rw [Option.mem_toList, Option.map_eq_some_iff] at h
    obtain ⟨token, hf, he⟩ := h
    obtain ⟨hm, hne⟩ := Option.filter_eq_some_iff.mp hf
    exact render_ne_nil (by simpa using hne) (ht token hm) (congrArg QueryEntry.name he)
  · exact p.flag_not_mem_toQuery [] h

/-- What is read from a query: a token that can be written, if any, and no positional values. -/
theorem of_ofQuery (q : Query) :
    (∀ t ∈ (ofQuery q).1, t.isEmpty = false ∧ t.Callable) ∧
      (ofQuery q).2.named.WellFormed ∧ (ofQuery q).2.indexed = [] := by
  have hp (q : Query) : (Parameters.ofQuery q).named.WellFormed ∧ (Parameters.ofQuery q).indexed = [] :=
    ⟨Parameters.wellFormed_ofQuery q, Parameters.indexed_addAll {} _⟩
  fun_cases ofQuery q with
  | case1 name rest token ht =>
    refine ⟨?_, hp rest⟩
    rintro _ ⟨⟩
    exact ⟨not_isEmpty_of_parse ht, isIdentifier_of_parse ht⟩
  | case2 name rest ht => exact ⟨fun _ h => (by cases h), hp _⟩
  | case3 => exact ⟨fun _ h => (by cases h), hp _⟩

theorem filter_not_isEmpty {t : Option Token} (ht : ∀ token ∈ t, token.isEmpty = false) :
    t.filter (!·.isEmpty) = t := by
  cases t with
  | none => rfl
  | some token => rw [Option.filter_some, ht token rfl]; rfl

end Token
end PageRouting
