import PageRouting.Proofs.Token.Query
import PageRouting.Proofs.Url

/-! A token and parameters that are written as a query come back from it, and from the text of any address that it stands
in. A query that is written again from what it was read as is read the same ever after. -/
namespace PageRouting

namespace NamedValues

/-- What comes first stays first, whatever is added after it. -/
theorem exists_addAll_cons (n v : Text) (vs : List Text) (nv : NamedValues) (pairs : List (Text × Text)) :
    ∃ vs' nv', addAll ((n, v :: vs) :: nv) pairs = (n, v :: vs') :: nv' := by
  induction pairs generalizing vs nv with
  | nil => exact ⟨vs, nv, rfl⟩
  | cons e pairs ih =>
    change ∃ vs' nv', addAll (NamedValues.add ((n, v :: vs) :: nv) e.1 e.2) pairs = _
    rw [NamedValues.add]
    split
    · exact ih (vs ++ [e.2]) nv
    · exact ih vs (NamedValues.add nv e.1 e.2)

end NamedValues

theorem Parameters.head?_pairs_ofQuery (e : QueryEntry) (q : Query) :
    (Parameters.ofQuery (e :: q)).pairs.head? = some (e.name, e.content) := by
  obtain ⟨vs, nv, h⟩ := NamedValues.exists_addAll_cons e.name e.content [] [] (q.map fun e => (e.name, e.content))
  have hnamed : (Parameters.ofQuery (e :: q)).named = (e.name, e.content :: vs) :: nv := by
    rw [Parameters.ofQuery, Parameters.named_addAll]
    exact h
  rw [Parameters.pairs, hnamed]
  rfl

/-- But for a nameless flag, the text of an address tells its query. -/
theorem Url.query_parse_render {u : Url} (h : QueryEntry.flag [] ∉ u.query) :
    (Url.parse u.render).query = u.query := by
  rw [Url.parse_render]
  refine List.filter_eq_self.mpr fun e he => decide_eq_true ?_
  rintro rfl
  exact h he

namespace Token

/-- A query written again from what it is read as. -/
def rewrite (q : Query) : Query := toQuery (ofQuery q).1 (ofQuery q).2

theorem ofQuery_rewrite (q : Query) : ofQuery (rewrite q) = ofQuery q := by
  obtain ⟨htoken, hnamed, hindexed⟩ := of_ofQuery q
  rw [rewrite, ofQuery_toQuery (fun t ht => (htoken t ht).2) hnamed, filter_not_isEmpty fun t ht => (htoken t ht).1,
    ← hindexed]

theorem rewrite_rewrite (q : Query) : rewrite (rewrite q) = rewrite q := by
  rw [rewrite, ofQuery_rewrite, rewrite]

theorem flag_nil_not_mem_rewrite (q : Query) : QueryEntry.flag [] ∉ rewrite q :=
  flag_nil_not_mem_toQuery (fun t ht => ((of_ofQuery q).1 t ht).2) _

/-- A flag that reads as no token becomes a parameter, for only tokens are written as flags. -/
theorem rewrite_flag {name : Text} (h : Token.parse name = none) (q : Query) :
    (rewrite (.flag name :: q)).head? = some (.pair name []) ∧ ∀ n, QueryEntry.flag n ∉ rewrite (.flag name :: q) := by
  have hread : ofQuery (.flag name :: q) = (none, .ofQuery (.flag name :: q)) := by rw [QueryEntry.flag, ofQuery, h]
  have hwritten : rewrite (.flag name :: q) = (Parameters.ofQuery (.flag name :: q)).toQuery := by
    rw [rewrite, hread]
    rfl
  rw [hwritten]
  refine ⟨?_, Parameters.flag_not_mem_toQuery _⟩
  rw [Parameters.toQuery, List.head?_map, Parameters.head?_pairs_ofQuery]
  rfl

/-- What is written as the query of an address is read from it, and from the text of the address: the token, unless it is
empty, and the named values in their order. What is read from any query is read again when it has been written; so a first
flag that is no token is a parameter from then on. -/
theorem query_round_trip :
    (∀ (path : List Text) (t : Option Token) (p : Parameters), (∀ token ∈ t, token.Callable) → p.Reachable →
      ofQuery (toQuery t p) = (t.filter (!·.isEmpty), ⟨[], p.named⟩) ∧
        ofQuery (Url.parse (Url.render ⟨path, toQuery t p⟩)).query = (t.filter (!·.isEmpty), ⟨[], p.named⟩)) ∧
    (∀ u : Url, ofQuery (rewrite u.query) = ofQuery u.query ∧ rewrite (rewrite u.query) = rewrite u.query ∧
      ofQuery (Url.parse (Url.render ⟨u.segments, rewrite u.query⟩)).query = ofQuery u.query) ∧
    ∀ (name : Text) (q : Query), Token.parse name = none →
      (rewrite (.flag name :: q)).head? = some (.pair name []) ∧
        ∀ n, QueryEntry.flag n ∉ rewrite (.flag name :: q) := by
  refine ⟨fun path t p ht hp => ?_, fun u => ⟨ofQuery_rewrite _, rewrite_rewrite _, ?_⟩,
    fun name q h => rewrite_flag h q⟩
  · have hback := ofQuery_toQuery ht hp.wellFormed
    exact ⟨hback, by rw [Url.query_parse_render (flag_nil_not_mem_toQuery ht p), hback]⟩
  · rw [Url.query_parse_render (flag_nil_not_mem_rewrite _), ofQuery_rewrite]

/-- Parameters whose names look like tokens, or are empty, beside a token that is empty. -/
theorem query_round_trip_sample :
    (∀ token ∈ some (Token.page {}), token.Callable) ∧
      (Parameters.ofQueryText "4=&=&abc.4.5=&4=2".toList).Reachable ∧
      ofQuery (toQuery (some (.page {})) (.ofQueryText "4=&=&abc.4.5=&4=2".toList)) =
        (none, ⟨[], [(['4'], [[], ['2']]), ([], [[]]), ("abc.4.5".toList, [[]])]⟩) ∧
      ofQuery (Url.parse (Url.render
          ⟨[[]], toQuery (some (.page {})) (.ofQueryText "4=&=&abc.4.5=&4=2".toList)⟩)).query =
        (none, ⟨[], [(['4'], [[], ['2']]), ([], [[]]), ("abc.4.5".toList, [[]])]⟩) ∧
      Token.parse "4-5".toList = none ∧
      (rewrite [.flag "4-5".toList, .flag ['4']]).head? = some (.pair "4-5".toList []) ∧
      ∀ n, QueryEntry.flag n ∉ rewrite [.flag "4-5".toList, .flag ['4']] := by
  have hcallable : ∀ token ∈ some (Token.page {}), token.Callable := by
    rintro _ ⟨⟩ c hc
    cases hc
  have hreachable : (Parameters.ofQueryText "4=&=&abc.4.5=&4=2".toList).Reachable := .ofQueryText _
  have hnamed : (Parameters.ofQueryText "4=&=&abc.4.5=&4=2".toList).named =
      [(['4'], [[], ['2']]), ([], [[]]), ("abc.4.5".toList, [[]])] := by decide +kernel
  have hnone : Token.parse "4-5".toList = none := by decide
  obtain ⟨hwritten, -, hflag⟩ := query_round_trip
  obtain ⟨hquery, htext⟩ := hwritten [[]] (some (.page {})) _ hcallable hreachable
  rw [hnamed] at hquery htext
  exact ⟨hcallable, hreachable, hquery, htext, hnone, hflag _ _ hnone⟩

end Token
end PageRouting
