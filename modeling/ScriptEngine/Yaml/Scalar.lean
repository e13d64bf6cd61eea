import ScriptEngine.Json.Basic

/-!
# Plain scalars of YAML documents

A plain scalar may be the word for null or a truth value, a number in one of several notations, or else
a text.
-/

namespace ScriptEngine.Yaml

/-- The words for null. -/
def nullWords : List Text := ["", "~", "null", "Null", "NULL"]

/-- The words for true. -/
def trueWords : List Text := ["yes", "Yes", "YES", "true", "True", "TRUE", "on", "On", "ON"]

/-- The words for false. -/
def falseWords : List Text := ["no", "No", "NO", "false", "False", "FALSE", "off", "Off", "OFF"]

/-- Splits off a sign: minus one or one, and the rest. -/
def splitSign : Text → Int × Text
  | .scalar '-' :: rest => (-1, rest)
  | .scalar '+' :: rest => (1, rest)
  | t => (1, t)

/-- Whether a text consists of digits of a class and underscores, and starts as given. -/
def isDigits (p : CodePoint → Bool) (t : Text) : Bool :=
  !t.isEmpty && t.all fun c => p c || c = .scalar '_'

/-- The number written by digits in a base, underscores left out. -/
def digitsIn (base : Nat) (t : Text) : Nat :=
  (t.filter (· ≠ .scalar '_')).foldl (fun n c => base * n + c.hexValue?.getD 0) 0

/-- The parts of a text between colons. -/
def colonParts : Text → List Text
  | [] => [[]]
  | c :: rest =>
    if c = .scalar ':' then [] :: colonParts rest
    else match colonParts rest with
      | [] => [[c]]
      | first :: others => (c :: first) :: others

/-- Whether a text is a part of a number in base sixty. -/
def isSixtieth : Text → Bool
  | [c] => c.isAsciiDigit
  | [c, d] => c.isAsciiDigit && c.toNat < 54 && d.isAsciiDigit
  | _ => false

/-- The whole number that a text without a sign spells. -/
def unsignedWhole? (t : Text) : Option Nat :=
  match t with
  | [.scalar '0'] => some 0
  | .scalar '0' :: .scalar 'b' :: digits =>
    if isDigits (fun c => c = .scalar '0' || c = .scalar '1') digits then some (digitsIn 2 digits)
    else none
  | .scalar '0' :: .scalar 'x' :: digits =>
    if isDigits CodePoint.isHexDigit digits then some (digitsIn 16 digits) else none
  | .scalar '0' :: digits =>
    if isDigits (fun c => c.isAsciiDigit && c.toNat < 56) digits then some (digitsIn 8 digits)
    else none
  | _ =>
    match colonParts t with
    | [] => none
    | first :: others =>
      if first.head?.any CodePoint.isAsciiDigit && isDigits CodePoint.isAsciiDigit first &&
          others.all isSixtieth then
        some (others.foldl (fun n part => 60 * n + digitsIn 10 part) (digitsIn 10 first))
      else none

/-- The whole number that a text spells. -/
def whole? (t : Text) : Option Int :=
  let (sign, rest) := splitSign t
  (unsignedWhole? rest).map (sign * ·)

/-- The exponent that makes up a text: nothing, or `e` with a signed number. -/
def exponent? : Text → Option Int
  | [] => some 0
  | .scalar c :: rest =>
    if c = 'e' ∨ c = 'E' then
      match rest with
      | .scalar '-' :: digits =>
        if !digits.isEmpty && digits.all CodePoint.isAsciiDigit then
          some (-(digitsIn 10 digits : Int))
        else none
      | .scalar '+' :: digits =>
        if !digits.isEmpty && digits.all CodePoint.isAsciiDigit then some (digitsIn 10 digits)
        else none
      | _ => none
    else none
  | _ => none

/-- The decimal number with a point that a text spells. -/
def decimal? (t : Text) : Option Rat :=
  let (sign, rest) := splitSign t
  let inner (c : CodePoint) : Bool := c.isAsciiDigit || c = .scalar '_'
  let front := rest.takeWhile inner
  match rest.dropWhile inner with
  | .scalar '.' :: behind =>
    let places := behind.takeWhile inner
    let wellFormed :=
      if front.isEmpty then
        places.head?.any CodePoint.isAsciiDigit && t.head? = some (.scalar '.')
      else front.head?.any CodePoint.isAsciiDigit
    if wellFormed then do
      let e ← exponent? (behind.dropWhile inner)
      let digits := places.filter (· ≠ .scalar '_')
      let q : Rat := (digitsIn 10 front : Nat) +
        (digitsIn 10 digits : Nat) * Binary64.powTen (-digits.length)
      return (sign : Rat) * q * Binary64.powTen e
    else none
  | _ => none

/-- The words for numbers that are not finite. -/
def nonFinite? (t : Text) : Option NonFinite :=
  let (sign, rest) := splitSign t
  let infinite : List Text := [".inf", ".Inf", ".INF"]
  let missing : List Text := [".nan", ".NaN", ".NAN"]
  if rest ∈ infinite then some (if sign < 0 then .negativeInfinity else .infinity)
  else if t ∈ missing then some .notANumber
  else none

/-- What a plain scalar means. -/
def plainMeaning (t : Text) : Json :=
  if t ∈ nullWords then .null
  else if t ∈ trueWords then .bool true
  else if t ∈ falseWords then .bool false
  else match whole? t, decimal? t, nonFinite? t with
    | some n, _, _ => .whole n
    | none, some q, _ => .real q
    | none, none, some x => .nonFinite x
    | none, none, none => .text t

end ScriptEngine.Yaml
