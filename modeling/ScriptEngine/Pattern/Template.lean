import ScriptEngine.Pattern.Match

/-!
# Replacements

A template says what a match is replaced by: characters, and the texts of groups of the match.
`Tree.replace` replaces every match in a text from left to right; an empty match directly behind
another match that was empty does not count.
-/

namespace ScriptEngine.Pattern

/-- A part of a template. -/
inductive TemplatePart where
  | text (t : Text)
  | group (index : Nat)

/-- A template. -/
abbrev Template := List TemplatePart

namespace Template

/-- A reference to a group of a pattern, refused if there is no such group. -/
def reference (t : Tree) (group back : Nat) : Read TemplatePart :=
  if t.groupCount < group then Read.fail (.invalidReference group) back
  else return .group group

/-- A reference to a group by name or number. -/
def namedReference (t : Tree) : Read TemplatePart := do
  if !(← Read.accept '<') then Read.fail (.missing "<")
  else
    let n ← Read.name '>' "group name"
    if isName n then
      match t.names.lookup n with
      | some group => reference t group (n.length + 1)
      | none => throw (.unknownGroupName n)
    else
      match groupNumber? n with
      | some group => reference t group (n.length + 1)
      | none => Read.fail (.badGroupName n) (n.length + 1)

/-- The text of a code point number. -/
def characterPart (n : Nat) : TemplatePart := .text (CodePoint.ofNat? n).toList

/-- An escape that starts with a digit other than zero: an octal escape of three digits, or a
reference to a group. -/
def digitEscape (t : Tree) (c : CodePoint) : Read TemplatePart := do
  let numbered (digits : Text) : Read TemplatePart :=
    reference t (Text.decimalNumber digits) digits.length
  match ← Read.upTo CodePoint.isAsciiDigit 1 with
  | [] => numbered [c]
  | second =>
    if isOctal c && second.all isOctal then
      match ← Read.upTo isOctal 1 with
      | [] => numbered (c :: second)
      | third =>
        return characterPart (← Read.octalEscape (Read.escapeText c ++ second ++ third))
    else numbered (c :: second)

/-- An escape in a template. -/
def escapePart (t : Tree) (c : CodePoint) : Read TemplatePart := do
  if c = .scalar 'g' then namedReference t
  else if c = .scalar '0' then
    let more ← Read.upTo isOctal 2
    return characterPart (octalNumber more % 256)
  else if c.isAsciiDigit then digitEscape t c
  else match letterEscape? c with
    | some n => return characterPart n
    | none =>
      if isAsciiLetter c then Read.fail (.badEscape (Read.escapeText c)) 2
      else return .text (Read.escapeText c)

/-- The parts of a template. -/
def parts (t : Tree) : Nat → Read Template
  | 0 => return []
  | fuel + 1 => do
    match ← Read.next with
    | none => return []
    | some (.escape c) =>
      let part ← escapePart t c
      return part :: (← parts t fuel)
    | some p => return .text p.text :: (← parts t fuel)

/-- Reads a template for a pattern. -/
def ofText (t : Tree) (source : Text) : Except Error Template := do
  let reader : Read Template := do
    Read.settle
    parts t ((← get).pieces.length + 1)
  return (← StateT.run reader { pieces := Piece.ofText source }).1

/-- The text that replaces a match that started at a place. -/
def expand (template : Template) (start : Cursor) (r : Progress) : Text :=
  template.flatMap fun
    | .text t => t
    | .group 0 => r.cursor.textFrom start.position
    | .group g => (r.groups.lookup g).getD []

end Template

namespace Tree

/-- Replaces the matches from a place on. -/
def replaceFrom (t : Tree) (template : Template) (advance : Bool) : Nat → Cursor → Text
  | 0, cursor => cursor.rest
  | fuel + 1, cursor =>
    match t.search advance cursor with
    | none => cursor.rest
    | some (start, r) =>
      start.textFrom cursor.position ++ template.expand start r ++
        t.replaceFrom template (r.cursor.position == start.position) fuel r.cursor

/-- Replaces every match in a text. -/
def replace (t : Tree) (template : Template) (text : Text) : Text :=
  t.replaceFrom template false (2 * text.length + 2) (.start text)

end Tree

end ScriptEngine.Pattern
