import ScriptEngine.Text.Printable

/-!
# Quoted text

How a text is written inside messages and outlines: between single quotes, or between double quotes
when it has a single quote and no double quote. The backslash and the enclosing quote are escaped,
line feed, carriage return and tab have short escapes, and every other unprintable code point is
written by its number in two, four or eight hexadecimal digits.
-/

namespace ScriptEngine

/-- A number in lower case hexadecimal, padded with zeros to a width. -/
def Text.hexPadded (width n : Nat) : Text :=
  let digits := Text.ofString (String.ofList (Nat.toDigits 16 n))
  Text.replicate (width - digits.length) '0' ++ digits

/-- A code point inside quotes. -/
def CodePoint.quoted (c quote : CodePoint) : Text :=
  let n := c.toNat
  if c = '\\' then "\\\\"
  else if c = quote then [.scalar '\\', c]
  else if c = '\n' then "\\n"
  else if c = '\r' then "\\r"
  else if c = '\t' then "\\t"
  else if c.isPrintable then [c]
  else if n < 0x100 then "\\x" ++ Text.hexPadded 2 n
  else if n < 0x10000 then "\\u" ++ Text.hexPadded 4 n
  else "\\U" ++ Text.hexPadded 8 n

/-- The text between quotes. -/
def Text.quoted (t : Text) : Text :=
  let quote : CodePoint := if t.contains '\'' && !t.contains '"' then '"' else '\''
  [quote] ++ t.flatMap (·.quoted quote) ++ [quote]

end ScriptEngine
