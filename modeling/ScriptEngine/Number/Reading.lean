import ScriptEngine.Number.Binary64
import ScriptEngine.Text.Ranges

/-!
# Numbers from text

The numbers that a text can spell: whole numbers in base sixteen or two after `0x` or `0b`, and
otherwise a sign, digits, and after them either a slash with a denominator or a point with decimals and
an exponent. Digits of every script count; underscores and blanks around the number are ignored.
-/

namespace ScriptEngine.Number

/-- The value of a digit in a base up to sixteen. -/
def digitValue? (base : Nat) (c : CodePoint) : Option Nat :=
  ((c.decimalValue?).orElse fun _ => c.hexValue?).filter (· < base)

/-- The number written by digits in a base. -/
def basedNumber? (base : Nat) : Text → Option Nat
  | [] => none
  | t => t.foldlM (fun n c => (digitValue? base c).map (base * n + ·)) 0

/-- Applies a sign. -/
def withSign (negative : Bool) (q : Rat) : Rat := if negative then -q else q

/-- A minus sign, a plus sign or none, and the rest. -/
def readSign : Text → Bool × Text
  | .scalar '-' :: rest => (true, rest)
  | .scalar '+' :: rest => (false, rest)
  | t => (false, t)

/-- The base that a text names after an optional minus sign, with the sign and the digits. -/
def basedParts? (t : Text) : Option (Nat × Bool × Text) :=
  let marked (negative : Bool) : Text → Option (Nat × Bool × Text)
    | .scalar '0' :: .scalar c :: digits =>
      if c = 'x' ∨ c = 'X' then some (16, negative, digits)
      else if c = 'b' ∨ c = 'B' then some (2, negative, digits)
      else none
    | _ => none
  match t with
  | .scalar '-' :: rest => marked true rest
  | t => marked false t

/-- Leading decimal digits, and the rest. -/
def readDigits (t : Text) : Text × Text :=
  (t.takeWhile CodePoint.isDecimal, t.dropWhile CodePoint.isDecimal)

/-- The number written by decimal digits, zero if there are none, unless the host refuses to read them. -/
def decimal? (digits : Text) : Option Nat :=
  if digits.isReadable then some digits.decimalNumber else none

/-- The exponent that makes up a text: nothing, or `e` with a signed whole number. -/
def exponent? : Text → Option Int
  | [] => some 0
  | .scalar c :: rest =>
    if c = 'e' ∨ c = 'E' then
      let (negative, digits) := readSign rest
      match readDigits digits with
      | (ds@(_ :: _), []) => do
        let n : Int ← decimal? ds
        return if negative then -n else n
      | _ => none
    else none
  | _ => none

/-- The fraction or decimal without a sign that makes up a text. -/
def unsigned? (t : Text) : Option Rat := do
  let (digits, rest) := readDigits t
  match rest with
  | .scalar '/' :: denominator =>
    match digits, readDigits denominator with
    | _ :: _, (ds@(_ :: _), []) =>
      let n ← decimal? ds
      if n = 0 then none else return (← decimal? digits : Nat) / (n : Rat)
    | _, _ => none
  | .scalar '.' :: rest =>
    let (places, rest) := readDigits rest
    if digits = [] ∧ places = [] then none
    else
      let e ← exponent? rest
      let q : Rat := (← decimal? digits : Nat) + (← decimal? places : Nat) * Binary64.powTen (-places.length)
      return q * Binary64.powTen e
  | rest =>
    if digits = [] then none
    else
      let e ← exponent? rest
      return (← decimal? digits : Nat) * Binary64.powTen e

/-- The number that a text spells. -/
def ofText? (t : Text) : Option Rat :=
  let bare := (Text.trimBlanks t).filter (· ≠ .scalar '_')
  match basedParts? bare with
  | some (base, negative, digits) => do
    let n ← basedNumber? base (Text.trimBlanksEnd digits)
    return withSign negative n
  | none => do
    let (negative, rest) := readSign (Text.trimBlanks bare)
    return withSign negative (← unsigned? rest)

end ScriptEngine.Number
