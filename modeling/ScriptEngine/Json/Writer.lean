import ScriptEngine.Json.Basic
import ScriptEngine.Text.Quoted

/-!
# Writing JSON

Documents are written on one line with a blank after each comma and colon, in ASCII: every other
code point is escaped, those beyond the first plane as a pair of surrogates. Numbers with a point or an
exponent are written as the nearest double.
-/

namespace ScriptEngine

/-- An escape with four hexadecimal digits. -/
def Json.escapeUnit (n : Nat) : Text := "\\u" ++ Text.hexPadded 4 n

/-- A code point inside a JSON string. -/
def CodePoint.jsonEscaped (c : CodePoint) : Text :=
  let n := c.toNat
  if c = '"' then "\\\""
  else if c = '\\' then "\\\\"
  else if c = '\n' then "\\n"
  else if c = '\r' then "\\r"
  else if c = '\t' then "\\t"
  else if n = 0x08 then "\\b"
  else if n = 0x0C then "\\f"
  else if 0x20 ≤ n ∧ n < 0x7F then [c]
  else if n < 0x10000 then Json.escapeUnit n
  else
    Json.escapeUnit (0xD800 + (n - 0x10000) / 0x400) ++
      Json.escapeUnit (0xDC00 + (n - 0x10000) % 0x400)

namespace Json

/-- A JSON string. -/
def writeText (t : Text) : Text := "\"" ++ t.flatMap CodePoint.jsonEscaped ++ "\""

/-- The word for a number that is not finite. -/
def writeNonFinite : NonFinite → Text
  | .notANumber => "NaN"
  | .infinity => "Infinity"
  | .negativeInfinity => "-Infinity"

mutual

/-- A document as text. -/
def write : Json → Text
  | null => "null"
  | bool b => if b then "true" else "false"
  | whole n => Text.ofInt n
  | real q => (Double.ofRat q).text
  | nonFinite x => writeNonFinite x
  | text t => writeText t
  | array items => "[" ++ Text.joinWith ", " (writeItems items) ++ "]"
  | object members => "\x7b" ++ Text.joinWith ", " (writeMembers members) ++ "\x7d"

/-- The items of an array as texts. -/
def writeItems : List Json → List Text
  | [] => []
  | j :: rest => write j :: writeItems rest

/-- The members of an object as texts. -/
def writeMembers : List (Text × Json) → List Text
  | [] => []
  | (key, j) :: rest => (writeText key ++ ": " ++ write j) :: writeMembers rest

end

end Json

end ScriptEngine
