import PageRouting.Token.Format
import PageRouting.Query

/-! Tokens at the head of a query, before the named parameters. -/
namespace PageRouting.Token

/-- A first entry that is a flag and reads as a token is one; all else is a named parameter. -/
def ofQuery (q : Query) : Option Token × Parameters :=
  match q with
  | ⟨name, none⟩ :: rest =>
    match Token.parse name with
    | some token => (some token, .ofQuery rest)
    | none => (none, .ofQuery q)
  | _ => (none, .ofQuery q)

/-- The token, unless it is empty, is the only flag: empty parameters keep their `=`. -/
def toQuery (token : Option Token) (p : Parameters) : Query :=
  ((token.filter (!·.isEmpty)).map fun t => QueryEntry.flag t.render).toList
    ++ p.pairs.map fun e => .pair e.1 e.2

end PageRouting.Token
