import ScriptEngine.Json.Basic
import ScriptEngine.OrderedMap

/-!
# Reading JSON

Reads a document from a text. Besides the standard form the words `NaN`, `Infinity` and `-Infinity`
are numbers. The first fault is reported with its position; reading goes by the text that is left,
and a position is recovered from the length of what was left there. A number with too many digits is
refused by the host, which names no position.
-/

namespace ScriptEngine.Json

/-- What is wrong with a text that is no document. -/
inductive Problem where
  | expectingValue
  | expectingName
  | expectingColon
  | expectingComma
  | extraData
  | unterminatedString
  | controlCharacter
  | invalidEscape
  | invalidUnicodeEscape
  | byteOrderMark
  | tooManyDigits (count : Nat)

/-- The wording of a problem. -/
def Problem.message : Problem → Text
  | expectingValue => "Expecting value"
  | expectingName => "Expecting property name enclosed in double quotes"
  | expectingColon => "Expecting ':' delimiter"
  | expectingComma => "Expecting ',' delimiter"
  | extraData => "Extra data"
  | unterminatedString => "Unterminated string starting at"
  | controlCharacter => "Invalid control character at"
  | invalidEscape => "Invalid \\escape"
  | invalidUnicodeEscape => "Invalid \\uXXXX escape"
  | byteOrderMark => "Unexpected UTF-8 BOM (decode using utf-8-sig)"
  | tooManyDigits count => Text.digitLimitMessage (some count)

/-- Whether the wording goes on with the place of the problem. -/
def Problem.isLocated : Problem → Bool
  | tooManyDigits _ => false
  | _ => true

/-- A fault: the problem and the text that was left where it was found. -/
structure Fault where
  problem : Problem
  left : Text

/-- Whether a code point is blank between the parts of a document. -/
def isBlank (c : CodePoint) : Bool := c = ' ' || c = '\t' || c = '\n' || c = '\r'

/-- Drops leading blanks. -/
def skipBlanks (t : Text) : Text := t.dropWhile isBlank

/-! ## Strings -/

/-- The value of a one-letter escape. -/
def shortEscape? : CodePoint → Option CodePoint
  | .scalar '"' => some '"'
  | .scalar '\\' => some '\\'
  | .scalar '/' => some '/'
  | .scalar 'b' => some (Char.ofNat 8)
  | .scalar 'f' => some (Char.ofNat 12)
  | .scalar 'n' => some '\n'
  | .scalar 'r' => some '\r'
  | .scalar 't' => some '\t'
  | _ => none

/-- Four hexadecimal digits at the start of a text that goes on after them. -/
def hexUnit? : Text → Option (Nat × Text)
  | a :: b :: c :: d :: e :: rest =>
    if [a, b, c, d].all CodePoint.isHexDigit then
      some (Text.hexNumber [a, b, c, d], e :: rest)
    else none
  | _ => none

/-- Whether a number is that of a high surrogate. -/
def isHighSurrogate (n : Nat) : Bool := 0xD800 ≤ n && n < 0xDC00

/-- Whether a number is that of a low surrogate. -/
def isLowSurrogate (n : Nat) : Bool := 0xDC00 ≤ n && n < 0xE000

/-- A low surrogate escape after a high surrogate. The text after it must not be empty. An escape
whose digits are malformed is a fault at its backslash. -/
def pairedUnit (t : Text) : Except Fault (Option (Nat × Text)) :=
  match t with
  | .scalar '\\' :: .scalar 'u' :: rest =>
    if rest.length < 5 then .ok none
    else match hexUnit? rest with
      | none => .error ⟨.invalidUnicodeEscape, t.drop 1⟩
      | some (low, left) => .ok (if isLowSurrogate low then some (low, left) else none)
  | _ => .ok none

/-- The code point with a number, the null character standing in for numbers out of range. -/
def codePoint (n : Nat) : CodePoint := (CodePoint.ofNat? n).getD (Char.ofNat 0)

/-- Reads a string after its opening quote; `opening` is the text from that quote on and `value` the
reversed value so far. The measure `fuel` is at least the length of the text. -/
def readString (opening : Text) : Nat → Text → Text → Except Fault (Text × Text)
  | 0, _, _ => .error ⟨.unterminatedString, opening⟩
  | fuel + 1, value, t =>
    match t with
    | [] => .error ⟨.unterminatedString, opening⟩
    | c :: rest =>
      if c = '"' then .ok (value.reverse, rest)
      else if c = '\\' then
        match rest with
        | [] => .error ⟨.unterminatedString, opening⟩
        | .scalar 'u' :: after =>
          match hexUnit? after with
          | none => .error ⟨.invalidUnicodeEscape, rest⟩
          | some (n, left) =>
            if isHighSurrogate n then
              match pairedUnit left with
              | .error e => .error e
              | .ok (some (low, left)) =>
                readString opening fuel
                  (codePoint (0x10000 + (n - 0xD800) * 0x400 + (low - 0xDC00)) :: value) left
              | .ok none => readString opening fuel (codePoint n :: value) left
            else readString opening fuel (codePoint n :: value) left
        | e :: after =>
          match shortEscape? e with
          | some v => readString opening fuel (v :: value) after
          | none => .error ⟨.invalidEscape, t⟩
      else if c.toNat < 0x20 then .error ⟨.controlCharacter, t⟩
      else readString opening fuel (c :: value) rest

/-! ## Numbers -/

/-- The leading ASCII digits of a text, and the rest. -/
def asciiDigits (t : Text) : Text × Text :=
  (t.takeWhile CodePoint.isAsciiDigit, t.dropWhile CodePoint.isAsciiDigit)

/-- The fraction of a number, if a digit follows the point. -/
def readFraction (t : Text) : Text × Text :=
  match t with
  | .scalar '.' :: after =>
    match asciiDigits after with
    | ([], _) => ([], t)
    | (digits, left) => (digits, left)
  | _ => ([], t)

/-- The sign and the digits of the exponent of a number, if it has a digit, and the rest. -/
def readExponent (t : Text) : Option (Bool × Text × Text) :=
  let signedPart (negative : Bool) (after : Text) : Option (Bool × Text × Text) :=
    match asciiDigits after with
    | ([], _) => none
    | (digits, left) => some (negative, digits, left)
  match t with
  | c :: after =>
    if c = 'e' || c = 'E' then
      match after with
      | .scalar '+' :: after => signedPart false after
      | .scalar '-' :: after => signedPart true after
      | after => signedPart false after
    else none
  | [] => none

/-- The digits of a number before its point: a zero, or digits that do not start with one. -/
def wholeDigits? (t : Text) : Option (Text × Text) :=
  match t with
  | .scalar '0' :: rest => some ("0", rest)
  | c :: _ => if c.isAsciiDigit then some (asciiDigits t) else none
  | [] => none

/-- The number written by digits before the text `left`, unless the host refuses to read them. -/
def decimal (digits left : Text) : Except Fault Nat :=
  if digits.length ≤ Text.digitLimit then .ok digits.decimalNumber
  else .error ⟨.tooManyDigits digits.length, left⟩

/-- Reads what starts as a number. -/
def readNumber? (t : Text) : Option (Except Fault (Json × Text)) := do
  let (negative, unsigned) := match t with
    | .scalar '-' :: rest => (true, rest)
    | _ => (false, t)
  let (digits, left) ← wholeDigits? unsigned
  let (places, left) := readFraction left
  match places, readExponent left with
  | [], none => some do
    let n : Int ← decimal digits left
    return (whole (if negative then -n else n), left)
  | places, exponent =>
    let (minus, power, left) := exponent.getD (false, [], left)
    some do
      let n := (← decimal digits left) * Nat.pow 10 places.length + (← decimal places left)
      let e : Int ← decimal power left
      let q := n * Binary64.powTen ((if minus then -e else e) - places.length)
      return (real (if negative then -q else q), left)

/-! ## Documents -/

/-- The words that stand for a document. -/
def words : List (String × Json) :=
  [("null", null), ("true", bool true), ("false", bool false), ("NaN", nonFinite .notANumber),
   ("Infinity", nonFinite .infinity), ("-Infinity", nonFinite .negativeInfinity)]

/-- Reads one of the words. -/
def readWord? (t : Text) : Option (Json × Text) :=
  words.findSome? fun (w, j) =>
    let w : Text := w
    if w.isPrefixOf t then some (j, t.drop w.length) else none

mutual

/-- Reads a document that starts at once. The measure `fuel` exceeds the length of the text. -/
def readValue : Nat → Text → Except Fault (Json × Text)
  | 0, t => .error ⟨.expectingValue, t⟩
  | fuel + 1, t =>
    match t with
    | [] => .error ⟨.expectingValue, t⟩
    | c :: rest =>
      if c = '"' then do
        let (s, left) ← readString t (rest.length + 1) [] rest
        return (text s, left)
      else if c = '{' then
        match skipBlanks rest with
        | .scalar '}' :: left => .ok (object [], left)
        | t => readMembers fuel OrderedMap.empty t
      else if c = '[' then
        match skipBlanks rest with
        | .scalar ']' :: left => .ok (array [], left)
        | t => readItems fuel [] t
      else match readWord? t with
        | some r => .ok r
        | none =>
          match readNumber? t with
          | some r => r
          | none => .error ⟨.expectingValue, t⟩

/-- Reads the items of an array up to its closing bracket; `items` are those before, reversed. -/
def readItems : Nat → List Json → Text → Except Fault (Json × Text)
  | 0, _, t => .error ⟨.expectingValue, t⟩
  | fuel + 1, items, t => do
    let (j, left) ← readValue fuel t
    match skipBlanks left with
    | .scalar ']' :: left => return (array (j :: items).reverse, left)
    | .scalar ',' :: left => readItems fuel (j :: items) (skipBlanks left)
    | left => .error ⟨.expectingComma, left⟩

/-- Reads the members of an object up to its closing brace. A key that comes again keeps its place
and takes the later value. -/
def readMembers : Nat → OrderedMap Text Json → Text → Except Fault (Json × Text)
  | 0, _, t => .error ⟨.expectingName, t⟩
  | fuel + 1, members, t =>
    match t with
    | .scalar '"' :: rest => do
      let (key, left) ← readString t (rest.length + 1) [] rest
      match skipBlanks left with
      | .scalar ':' :: left => do
        let (j, left) ← readValue fuel (skipBlanks left)
        let members := members.insert key j
        match skipBlanks left with
        | .scalar '}' :: left => return (object members.entries, left)
        | .scalar ',' :: left => readMembers fuel members (skipBlanks left)
        | left => .error ⟨.expectingComma, left⟩
      | left => .error ⟨.expectingColon, left⟩
    | t => .error ⟨.expectingName, t⟩

end

/-- The position of a fault in its document. -/
def Fault.position (f : Fault) (document : Text) : Nat := document.length - f.left.length

/-- The message of a fault: the problem, with line, column and position if it is located. -/
def Fault.message (f : Fault) (document : Text) : Text :=
  let position := f.position document
  let before := document.take position
  let line := before.count (.scalar '\n') + 1
  let column := (before.reverse.takeWhile (· ≠ .scalar '\n')).length + 1
  if f.problem.isLocated then
    f.problem.message ++ ": line " ++ Text.ofNat line ++ " column " ++ Text.ofNat column ++
      " (char " ++ Text.ofNat position ++ ")"
  else f.problem.message

/-- Reads a text that is one document. -/
def read (document : Text) : Except Fault Json := do
  if document.head?.any (·.toNat = 0xFEFF) then throw ⟨.byteOrderMark, document⟩
  let (j, left) ← readValue (document.length + 1) (skipBlanks document)
  match skipBlanks left with
  | [] => return j
  | left => throw ⟨.extraData, left⟩

end ScriptEngine.Json
