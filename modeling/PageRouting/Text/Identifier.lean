import PageRouting.Text

/-! Identifiers: an ASCII letter or `_`, then letters, digits or `_`. -/
namespace PageRouting.Text

def isIdentifier : Text → Bool
  | [] => false
  | c :: t => (c.isAlpha || c == '_') && t.all fun d => d.isAlphanum || d == '_'

end PageRouting.Text
