import ScriptEngine.Pattern.Error
import ScriptEngine.Pattern.Tree
import ScriptEngine.Text.Ranges
import ScriptEngine.Text.Digit

/-!
# Reading patterns

A pattern is read unit by unit, where a unit is one code point or a backslash with the code point after
it. What has been learnt of groups and options while reading is kept beside the rest of the units.

* `Reading` is the state of a reader, and `Read` an action of it.
* `Read.peek`, `Read.next`, `Read.accept` look at units and take them.
* `Read.fail` refuses the text at the current place or some code points before it.
-/

namespace ScriptEngine.Pattern

/-- A unit of a pattern: one code point, an escape of two, or a backslash that ends the text. -/
inductive Piece where
  | plain (c : CodePoint)
  | escape (c : CodePoint)
  | dangling
deriving DecidableEq

namespace Piece

/-- The text of a unit. -/
def text : Piece → Text
  | plain c => [c]
  | escape c => [.scalar '\\', c]
  | dangling => "\\"

/-- The units of a text. -/
def ofText : Text → List Piece
  | [] => []
  | .scalar '\\' :: [] => [dangling]
  | .scalar '\\' :: c :: rest => escape c :: ofText rest
  | c :: rest => plain c :: ofText rest

end Piece

/-- What a reader has still to read and what it knows: the groups it has met, with their names and,
once they are closed, their widths; the options of the whole pattern; the number of groups before the
lookbehind it is in; and the groups that conditions refer to, with the places. -/
structure Reading where
  pieces : List Piece
  offset : Nat := 0
  flags : Flags := {}
  names : List (Text × Nat) := []
  widths : List (Option Width) := []
  lookbehindGroups : Option Nat := none
  references : List (Nat × Nat) := []

/-- An action of a reader. -/
abbrev Read := StateT Reading (Except Error)

namespace Read

/-- Refuses the text at a place that lies some code points before the current one. -/
def fail {α : Type} (cause : Cause) (back : Nat := 0) : Read α := do
  throw (.malformed cause (some ((← get).offset - back)))

/-- Checks that the next unit is not a backslash at the end. -/
def settle : Read Unit := do
  match (← get).pieces with
  | .dangling :: _ => fail .danglingEscape
  | _ => return ()

/-- The next unit. -/
def peek : Read (Option Piece) := return (← get).pieces.head?

/-- Takes the next unit. -/
def next : Read (Option Piece) := do
  match (← get).pieces with
  | [] => return none
  | p :: rest =>
    modify fun s => { s with pieces := rest, offset := s.offset + p.text.length }
    settle
    return some p

/-- Takes the next unit if it is a given character. -/
def accept (c : Char) : Read Bool := do
  if (← peek) = some (.plain (.scalar c)) then
    let _ ← next
    return true
  else return false

/-- The current place. -/
def place : Read Nat := return (← get).offset

/-- Whether the next unit is a character of a class. -/
def sees (p : CodePoint → Bool) : Read Bool := do
  match ← peek with
  | some (.plain c) => return p c
  | _ => return false

/-- Takes at most `n` characters of a class. -/
def upTo (p : CodePoint → Bool) : Nat → Read Text
  | 0 => return []
  | n + 1 => do
    match ← peek with
    | some (.plain c) =>
      if p c then
        let _ ← next
        return c :: (← upTo p n)
      else return []
    | _ => return []

/-- Takes units up to a terminator and the terminator. There has to be something before it. -/
def takeUntil (terminator : Char) (what : Text) : Nat → Text → Read Text
  | 0, _ => fail (.missing what)
  | fuel + 1, taken => do
    match ← next with
    | none =>
      if taken.isEmpty then fail (.missing what)
      else fail (.missing (CodePoint.scalar terminator :: ", unterminated name")) taken.length
    | some p =>
      if p = .plain (.scalar terminator) then
        if taken.isEmpty then fail (.missing what) 1 else return taken
      else takeUntil terminator what fuel (taken ++ p.text)

/-- Takes a name up to a terminator. -/
def name (terminator : Char) (what : Text) : Read Text := do
  takeUntil terminator what ((← get).pieces.length + 1) []

/-- The number of groups, the whole match included. -/
def groups : Read Nat := return (← get).widths.length + 1

/-- Whether a group is closed. -/
def isClosed (group : Nat) : Read Bool := do
  match group with
  | 0 => return false
  | g + 1 => return ((← get).widths.getD g none).isSome

end Read

/-- Whether a code point is an octal digit. -/
def isOctal (c : CodePoint) : Bool := 48 ≤ c.toNat && c.toNat ≤ 55

/-- Whether a code point is one of the letters `a` to `z` and `A` to `Z`. -/
def isAsciiLetter (c : CodePoint) : Bool :=
  (65 ≤ c.toNat && c.toNat ≤ 90) || (97 ≤ c.toNat && c.toNat ≤ 122)

/-- The number written by octal digits. -/
def octalNumber (t : Text) : Nat := t.foldl (fun n c => 8 * n + (c.toNat - 48)) 0

/-- The character that an escape of one letter stands for in patterns and templates. -/
def letterEscape? : CodePoint → Option Nat
  | .scalar 'a' => some 7
  | .scalar 'b' => some 8
  | .scalar 'f' => some 12
  | .scalar 'n' => some 10
  | .scalar 'r' => some 13
  | .scalar 't' => some 9
  | .scalar 'v' => some 11
  | .scalar '\\' => some 92
  | _ => none

/-- Whether a text is a name. -/
def isName : Text → Bool
  | [] => false
  | c :: rest =>
    (c.isLetter || c = .scalar '_') &&
      rest.all fun c => c.isLetter || c.isDecimal || c = .scalar '_'

/-- The digits of a number that may be grouped by single underscores. -/
def groupedDigits? : Text → Option Text
  | [] => none
  | [c] => if c.isDecimal then some [c] else none
  | c :: d :: rest =>
    if !c.isDecimal then none
    else if d = .scalar '_' then (groupedDigits? rest).map (c :: ·)
    else (groupedDigits? (d :: rest)).map (c :: ·)

/-- The number of a group that a text spells: digits with a sign before them and blanks around. -/
def groupNumber? (t : Text) : Option Nat := do
  let trimmed := Text.trimBlanks t
  let (negative, digits) := match trimmed with
    | .scalar '-' :: rest => (true, rest)
    | .scalar '+' :: rest => (false, rest)
    | t => (false, t)
  let n := Text.decimalNumber (← groupedDigits? digits)
  if negative ∧ n ≠ 0 then none else some n

end ScriptEngine.Pattern
