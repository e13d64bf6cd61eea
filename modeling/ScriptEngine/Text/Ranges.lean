import ScriptEngine.Text.Basic

/-!
# Range tables

A class of code points is given by a list of closed intervals of their numbers. The **blanks** are the white space
characters of Unicode 14 together with the information separators `0x1C` to `0x1F`.
-/

namespace ScriptEngine

/-- Closed intervals of code point numbers. -/
abbrev Ranges := List (Nat × Nat)

/-- Whether a number lies in one of the intervals. -/
def Ranges.contains (ranges : Ranges) (n : Nat) : Bool :=
  ranges.any fun r => r.1 ≤ n && n ≤ r.2

/-! ## Blanks -/

/-- The intervals of blanks. -/
def blankRanges : Ranges :=
  [(9, 13), (28, 32), (133, 133), (160, 160), (5760, 5760), (8192, 8202), (8232, 8233), (8239,
   8239), (8287, 8287), (12288, 12288)]

/-- Whether a code point is a blank. -/
def CodePoint.isBlank (c : CodePoint) : Bool := blankRanges.contains c.toNat

/-- Removes the blanks at the end of a text. -/
def Text.trimBlanksEnd (t : Text) : Text := (t.reverse.dropWhile CodePoint.isBlank).reverse

/-- Removes the blanks at both ends of a text. -/
def Text.trimBlanks (t : Text) : Text := Text.trimBlanksEnd (t.dropWhile CodePoint.isBlank)

end ScriptEngine
