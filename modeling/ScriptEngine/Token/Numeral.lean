import ScriptEngine.Text.Digit

/-!
# Numeral lexemes

The spelling of number literals: digits with single underscores before a digit, an optional
fraction, and the forms `0x` and `0b`. `digitRun` and `decimalLexeme` return what they read and the
rest, and together the two are the text they started from.
-/

namespace ScriptEngine

/-- Whether a code point may stand inside a word. -/
def CodePoint.isWordPart (c : CodePoint) : Bool := c.isAlphanumeric || c = '_'

/-- Whether a code point may start a word. -/
def CodePoint.isWordStart (c : CodePoint) : Bool := c.isLetter || c = '_'

namespace Numeral

/-- Whether a text starts with a digit. -/
def startsWithDigit : Text → Bool
  | c :: _ => c.isDigit
  | [] => false

/-- The leading digits of a text, underscores included where a digit follows them, and the rest. -/
def digitRun : Text → Text × Text
  | [] => ([], [])
  | c :: rest =>
    if c.isDigit || (c = '_' && startsWithDigit rest) then
      let (read, left) := digitRun rest
      (c :: read, left)
    else ([], c :: rest)

theorem digitRun_append (t : Text) : (digitRun t).1 ++ (digitRun t).2 = t := by
  induction t with
  | nil => rfl
  | cons c rest ih =>
    unfold digitRun
    split <;> simp [ih]

/-- A decimal lexeme: the digits before the point, and the point with the digits after it. -/
structure Decimal where
  whole : Text
  fraction : Text
  rest : Text

/-- The text of a decimal lexeme. -/
def Decimal.lexeme (d : Decimal) : Text := d.whole ++ d.fraction

/-- Reads a decimal lexeme. A point belongs to it only when a digit follows, so that `0..10` starts
with the number zero. -/
def decimalLexeme (t : Text) : Decimal :=
  let (whole, left) := digitRun t
  match left with
  | .scalar '.' :: after =>
    if startsWithDigit after then
      let (digits, rest) := digitRun after
      ⟨whole, .scalar '.' :: digits, rest⟩
    else ⟨whole, [], left⟩
  | _ => ⟨whole, [], left⟩

theorem decimalLexeme_append (t : Text) :
    (decimalLexeme t).lexeme ++ (decimalLexeme t).rest = t := by
  have h := digitRun_append t
  unfold decimalLexeme Decimal.lexeme
  simp only
  split
  · next after ha =>
    split
    · have hf := digitRun_append after
      simp only [List.append_assoc, List.cons_append]
      rw [hf, ← ha, h]
    · simpa using h
  · simpa using h

/-- A text without its underscores. -/
def withoutUnderscores (t : Text) : Text := t.filter (· ≠ '_')

/-- The number written by a decimal lexeme, if the host reads the digits before the point and those after it:
each has a decimal value, and they are not too many. -/
def Decimal.value? (d : Decimal) : Option Rat :=
  let whole := withoutUnderscores d.whole
  let places := withoutUnderscores (d.fraction.drop 1)
  if whole.isReadable && places.isReadable then
    some (mkRat (whole ++ places).decimalNumber (Nat.pow 10 places.length))
  else none

/-- The number written by digits of base `base`, if they are digits of that base and there is at
least one. -/
def ofBase? (base : Nat) (digits : Text) : Option Nat :=
  let isDigitOfBase (c : CodePoint) : Bool := c.hexValue?.any (· < base)
  if digits ≠ [] ∧ digits.all isDigitOfBase then
    some (digits.foldl (fun n c => base * n + c.hexValue?.getD 0) 0)
  else none

end Numeral

end ScriptEngine
