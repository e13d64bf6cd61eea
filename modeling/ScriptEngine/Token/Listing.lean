import ScriptEngine.Number.Fraction
import ScriptEngine.Token.Basic

/-!
# Token listings

The one-line form of a token in a listing: the name of its kind, followed by its value when the kind
has many values.
-/

namespace ScriptEngine

/-- The token as a listing shows it. -/
def Token.listing (t : Token) : Text :=
  match t.kind with
  | .number q => "NUMBER(" ++ Number.constructionText q ++ ")"
  | .string s => "STRING(" ++ s.quoted ++ ")"
  | .identifier s => "IDENTIFIER(" ++ s.quoted ++ ")"
  | k => k.label

end ScriptEngine
