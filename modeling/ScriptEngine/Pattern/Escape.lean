import ScriptEngine.Pattern.Reader

/-!
# Escapes in patterns

What a backslash with a character means, outside a set of characters and inside one: a character, a
class of characters, an anchor, or a reference to a group.
-/

namespace ScriptEngine.Pattern.Read

/-- The class of characters that an escape names, and whether it is the class of all others. -/
def category? : CodePoint → Option (Category × Bool)
  | .scalar 'd' => some (.digit, false)
  | .scalar 'D' => some (.digit, true)
  | .scalar 's' => some (.blank, false)
  | .scalar 'S' => some (.blank, true)
  | .scalar 'w' => some (.word, false)
  | .scalar 'W' => some (.word, true)
  | _ => none

/-- The anchor that an escape names. -/
def anchor? : CodePoint → Option Anchor
  | .scalar 'A' => some .textStart
  | .scalar 'b' => some .boundary
  | .scalar 'B' => some .nonBoundary
  | .scalar 'Z' => some .textEnd
  | _ => none

/-- The text of an escape of one character. -/
def escapeText (c : CodePoint) : Text := [.scalar '\\', c]

/-- How many hexadecimal digits follow the letter of an escape. -/
def hexLength? : CodePoint → Option Nat
  | .scalar 'x' => some 2
  | .scalar 'u' => some 4
  | .scalar 'U' => some 8
  | _ => none

/-- Reads the hexadecimal digits of an escape. -/
def hexEscape (c : CodePoint) (count : Nat) : Read Nat := do
  let digits ← upTo CodePoint.isHexDigit count
  let escape := escapeText c ++ digits
  if digits.length ≠ count then fail (.incompleteEscape escape) escape.length
  else
    let n := Text.hexNumber digits
    if n ≤ 0x10FFFF then return n else fail (.badEscape escape) escape.length

/-- Reads the name of a character. No names are known. -/
def namedEscape {α : Type} : Read α := do
  if ← accept '{' then
    let n ← name '}' "character name"
    fail (.unknownCharacterName n) (n.length + 4)
  else fail (.missing "\x7b")

/-- The value of an octal escape, which has to be that of a byte. -/
def octalEscape (escape : Text) : Read Nat := do
  let n := octalNumber (escape.drop 1)
  if n ≤ 255 then return n else fail (.octalTooLarge escape) escape.length

/-- An escape that stands for the character itself: no letter does. -/
def ownEscape (c : CodePoint) : Read Nat :=
  if isAsciiLetter c then fail (.badEscape (escapeText c)) 2 else return c.toNat

/-- An escape in a set of characters. -/
def setEscape (c : CodePoint) : Read SetItem := do
  match letterEscape? c, category? c, hexLength? c with
  | some n, _, _ => return .single n
  | none, some (category, negated), _ => return .category category negated
  | none, none, some count => return .single (← hexEscape c count)
  | none, none, none =>
    if c = .scalar 'N' then namedEscape
    else if isOctal c then
      let more ← upTo isOctal 2
      return .single (← octalEscape (escapeText c ++ more))
    else if c.isAsciiDigit then fail (.badEscape (escapeText c)) 2
    else return .single (← ownEscape c)

/-- Checks that a reference inside a lookbehind is to a group before it. -/
def checkLookbehind (group : Nat) : Read Unit := do
  match (← get).lookbehindGroups with
  | none => return ()
  | some before =>
    if !(← isClosed group) then fail .openGroup
    else if before ≤ group then fail .groupOfLookbehind
    else return ()

/-- A reference to a group by its number. -/
def numberedReference (escape : Text) : Read Node := do
  let group := Text.decimalNumber (escape.drop 1)
  if group < (← groups) then
    if !(← isClosed group) then fail .openGroup escape.length
    else
      checkLookbehind group
      return .reference group
  else fail (.invalidReference group) (escape.length - 1)

/-- An escape that starts with a digit other than zero: an octal escape of three digits, or a
reference to a group. -/
def digitEscape (c : CodePoint) : Read Node := do
  match ← upTo CodePoint.isAsciiDigit 1 with
  | [] => numberedReference (escapeText c)
  | second =>
    let escape := escapeText c ++ second
    if isOctal c && second.all isOctal then
      match ← upTo isOctal 1 with
      | [] => numberedReference escape
      | third => return .literal (← octalEscape (escape ++ third))
    else numberedReference escape

/-- An escape outside of sets. -/
def patternEscape (c : CodePoint) : Read Node := do
  match anchor? c, category? c, letterEscape? c with
  | some a, _, _ => return .anchor a
  | none, some (category, negated), _ => return .set false [.category category negated]
  | none, none, some n => return .literal n
  | none, none, none =>
    match hexLength? c with
    | some count => return .literal (← hexEscape c count)
    | none =>
      if c = .scalar 'N' then namedEscape
      else if c = .scalar '0' then
        let more ← upTo isOctal 2
        return .literal (octalNumber (.scalar '0' :: more))
      else if c.isAsciiDigit then digitEscape c
      else return .literal (← ownEscape c)

end ScriptEngine.Pattern.Read
