import PageRouting.Proofs.Parameters
import PageRouting.Proofs.Url

/-! Query texts are read in two ways, pair by pair into named values and as the entries of an address. Both come to the
same named values, in the same order. -/
namespace PageRouting.Parameters

theorem ofQueryText_of_head? {t : Text} (h : t.head? ≠ some '?') : ofQueryText t = ofQuery (Query.parse t) := by
  rw [ofQueryText_eq, if_neg h]

theorem ofQueryText_cons (t : Text) : ofQueryText ('?' :: t) = ofQuery (Query.parse t) := ofQueryText_eq _

/-- Only a nameless flag is lost, for it leaves no text. -/
theorem ofQueryText_render (q : Query) : ofQueryText (Url.render ⟨[], q⟩) = ofQuery (q.filter (· ≠ .flag [])) := by
  cases q with
  | nil => rfl
  | cons e q =>
    rw [← Query.parse_render]
    exact ofQueryText_cons _

theorem query_parse_cons {t : Text} (h : '#' ∉ t) : (Url.parse ('?' :: t)).query = Query.parse t := by
  have hvisible : ('?' :: t).takeWhile (· ≠ '#') = '?' :: t := by
    refine List.takeWhile_eq_self_iff.mpr fun c hc => decide_eq_true ?_
    rintro rfl
    exact h (List.mem_of_ne_of_mem (by decide) hc)
  have hcut : Text.cut? '?' ('?' :: t) = some ([], t) := rfl
  rw [Url.parse, hvisible, hcut]

theorem foldl_addPair (u : Url) (pairs : List (Text × Text)) :
    pairs.foldl (fun u e => u.addPair e.1 e.2) u = ⟨u.segments, u.query ++ pairs.map fun e => .pair e.1 e.2⟩ := by
  induction pairs generalizing u with
  | nil => rw [List.map_nil, List.append_nil, List.foldl_nil]
  | cons e pairs ih =>
    rw [List.foldl_cons, ih, Url.addPair, List.map_cons, List.append_assoc]
    rfl

/-- The text of an address without a path gives the named values that its entries make, but for nameless flags; a query
text gives those of the address that it is the query of; and named values come back from the address that carries
them, with their names and values in order. -/
theorem ofQueryText_entries :
    (∀ q : Query, ofQueryText (Url.render ⟨[], q⟩) = ofQuery (q.filter (· ≠ .flag []))) ∧
      (∀ t : Text, '#' ∉ t → t.head? ≠ some '?' →
        ofQueryText t = ofQueryText ('?' :: t) ∧ ofQueryText t = ofQuery (Url.parse ('?' :: t)).query) ∧
      ∀ p : Parameters, p.Reachable →
        ofQueryText (p.pairs.foldl (fun u e => u.addPair e.1 e.2) ({} : Url)).render = ⟨[], p.named⟩ := by
  refine ⟨ofQueryText_render, fun t hhash hmark => ?_, fun p hp => ?_⟩
  · rw [ofQueryText_of_head? hmark, ofQueryText_cons, query_parse_cons hhash]
    exact ⟨rfl, rfl⟩
  · have hkeeps : p.toQuery.filter (· ≠ .flag []) = p.toQuery := by
      rw [List.filter_eq_self]
      intro e he
      refine decide_eq_true ?_
      rintro rfl
      exact p.flag_not_mem_toQuery [] he
    rw [foldl_addPair]
    calc
      _ = ofQueryText (Url.render ⟨[], p.toQuery⟩) := rfl
      _ = ofQuery p.toQuery := by rw [ofQueryText_render, hkeeps]
      _ = ⟨[], p.named⟩ := ofQuery_toQuery hp.wellFormed

/-- A name that begins with `?`, one that comes twice, and one that is empty. -/
theorem ofQueryText_entries_sample :
    '#' ∉ "a=1&?b&=&a=+%32".toList ∧ "a=1&?b&=&a=+%32".toList.head? ≠ some '?' ∧
      ofQueryText "a=1&?b&=&a=+%32".toList = ofQueryText "?a=1&?b&=&a=+%32".toList ∧
      ofQueryText "a=1&?b&=&a=+%32".toList = ofQuery (Url.parse "?a=1&?b&=&a=+%32".toList).query ∧
      (ofQueryText "a=1&?b&=&a=+%32".toList).Reachable ∧
      ofQueryText ((ofQueryText "a=1&?b&=&a=+%32".toList).pairs.foldl (fun u e => u.addPair e.1 e.2) ({} : Url)).render =
        ⟨[], [(['a'], [['1'], [' ', '2']]), (['?', 'b'], [[]]), ([], [[]])]⟩ := by
  have hhash : '#' ∉ "a=1&?b&=&a=+%32".toList := by decide
  have hmark : "a=1&?b&=&a=+%32".toList.head? ≠ some '?' := by decide
  have hreachable : (ofQueryText "a=1&?b&=&a=+%32".toList).Reachable := .ofQueryText _
  have hnamed : (ofQueryText "a=1&?b&=&a=+%32".toList).named =
      [(['a'], [['1'], [' ', '2']]), (['?', 'b'], [[]]), ([], [[]])] := by decide +kernel
  obtain ⟨-, htext, hback⟩ := ofQueryText_entries
  obtain ⟨hsame, hparse⟩ := htext _ hhash hmark
  exact ⟨hhash, hmark, hsame, hparse, hreachable, by rw [hback _ hreachable, hnamed]⟩

end PageRouting.Parameters
