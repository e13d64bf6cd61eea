import ScriptEngine.Text.Quoted
import ScriptEngine.Yaml.Scalar
import ScriptEngine.Yaml.Token

/-!
# Writing YAML documents

Data is written in blocks, with the entries of a sequence at the column of its key. A text is written
plain if it then reads back as a text, between single quotes if it must be quoted, and between double
quotes if it has characters that need an escape.
-/

namespace ScriptEngine.Yaml

/-- Whether a text would be read as a date. -/
def isDate (t : Text) : Bool :=
  match t with
  | [a, b, c, d, .scalar '-', e, f, .scalar '-', g, h] =>
    [a, b, c, d, e, f, g, h].all CodePoint.isAsciiDigit
  | _ => false

/-- Whether a plain text is read back as a text. -/
def meansText (t : Text) : Bool :=
  (match plainMeaning t with
    | .text _ => true
    | _ => false) && !isDate t && t ≠ "<<" && t ≠ "="

/-- Whether a character stands after a blank or a line end, and before one, in a text. -/
def hasIndicator : CodePoint → Text → Bool
  | _, [] => false
  | previous, c :: rest =>
    (c = .scalar ':' && Scanner.isGap rest.head?) ||
      (c = .scalar '#' && Scanner.isGap (some previous)) || hasIndicator c rest

/-- Whether a text can be written plain. -/
def allowsPlain (t : Text) : Bool :=
  match t with
  | [] => false
  | c :: rest =>
    let opensMark := (Text.ofString "---").isPrefixOf t || (Text.ofString "...").isPrefixOf t
    let opensIndicator := (Text.ofString "#,[]\x7b\x7d&*!|>'\"%@\x60").contains c ||
      ((c = .scalar '?' || c = .scalar ':' || c = .scalar '-') && Scanner.isGap rest.head?)
    let edgeBlank := c = .scalar ' ' || t.getLast? = some (.scalar ' ')
    !opensMark && !opensIndicator && !edgeBlank && !hasIndicator c rest &&
      !t.contains (.scalar '\n')

/-- Whether a character can be written without an escape. -/
def isPlainCharacter (c : CodePoint) : Bool :=
  c = .scalar '\n' || (0x20 ≤ c.toNat && c.toNat ≤ 0x7E)

/-- Whether blanks and line ends of a text would be lost between single quotes. -/
def losesBlanks : Text → Bool
  | .scalar '\n' :: .scalar ' ' :: _ => true
  | .scalar ' ' :: .scalar '\n' :: _ => true
  | _ :: rest => losesBlanks rest
  | [] => false

/-- Hexadecimal digits in upper case. -/
def upperHex (width n : Nat) : Text :=
  (Text.hexPadded width n).map fun
    | .scalar c => .scalar c.toUpper
    | c => c

/-- The escape of a character between double quotes, if it needs one. -/
def escape? (c : CodePoint) : Option Text :=
  let n := c.toNat
  let letter? : Option Char := [(0, '0'), (7, 'a'), (8, 'b'), (9, 't'), (10, 'n'), (11, 'v'),
    (12, 'f'), (13, 'r'), (27, 'e'), (34, '"'), (92, '\\'), (0x85, 'N'), (0xA0, '_'),
    (0x2028, 'L'), (0x2029, 'P')].lookup n
  match letter? with
  | some letter => some [.scalar '\\', .scalar letter]
  | none =>
    if 0x20 ≤ n ∧ n ≤ 0x7E then none
    else if n ≤ 0xFF then some ("\\x" ++ upperHex 2 n)
    else if n ≤ 0xFFFF then some ("\\u" ++ upperHex 4 n)
    else some ("\\U" ++ upperHex 8 n)

/-! ## Lines of a scalar

A scalar that goes beyond the width is continued on further lines, which start at its indentation. -/

/-- The column after which a line is continued on the next one. -/
def lineWidth : Nat := 80

/-- Blanks up to a column. -/
def blanks (column : Nat) : Text := Text.replicate column ' '

/-- The class of a character for the division into runs: blank, line end or other. -/
def runClass (c : CodePoint) : Nat :=
  if c = .scalar ' ' then 0 else if c = .scalar '\n' then 1 else 2

/-- The longest parts of a text with characters of one class. -/
def runs (t : Text) : List Text :=
  t.splitBy fun a b => runClass a = runClass b

/-- Writes runs from a column on. A single blank beyond the width becomes a line end, unless it is the
last run; a line end is written twice, since a single one would be read as a blank. -/
def foldedRuns (indent : Nat) : Nat → List Text → Text
  | _, [] => []
  | column, run :: rest =>
    if run = " " && column > lineWidth && !rest.isEmpty then
      "\n" ++ blanks indent ++ foldedRuns indent indent rest
    else if run.head? = some (.scalar '\n') then
      "\n" ++ run ++ blanks indent ++ foldedRuns indent indent rest
    else run ++ foldedRuns indent (column + run.length) rest

/-- A text written as it is. -/
def plainLines (indent column : Nat) (t : Text) : Text := foldedRuns indent column (runs t)

/-- A text between single quotes, with the quotes in it doubled. A first run of blanks stays. -/
def singleQuotedLines (indent column : Nat) (t : Text) : Text :=
  let doubled := t.flatMap fun c => if c = .scalar '\'' then ("''" : Text) else [c]
  let body := match runs doubled with
    | [] => []
    | first :: rest =>
      if first = " " then first ++ foldedRuns indent (column + 2) rest
      else foldedRuns indent (column + 1) (first :: rest)
  "'" ++ body ++ "'"

/-- Writes the rest of a text between double quotes. `pending` has been passed but not been written
yet. Beyond the width a line ends with a backslash, and a blank that starts the next line has one too;
neither the first nor the last character ends a line. -/
def escapedRest (indent : Nat) : Bool → Nat → Text → Text → Text
  | _, _, pending, [] => pending
  | first, column, pending, c :: rest =>
    let continued : Text := "\\\n" ++ blanks indent
    let shield (next : Option CodePoint) : Text :=
      if next = some (.scalar ' ') then "\\" else []
    match escape? c with
    | some e =>
      let column := column + pending.length + e.length
      if !first && !rest.isEmpty && column > lineWidth + 1 then
        let mark := shield rest.head?
        pending ++ e ++ continued ++ mark ++
          escapedRest indent false (indent + mark.length) [] rest
      else pending ++ e ++ escapedRest indent false column [] rest
    | none =>
      if !first && !rest.isEmpty && (c = .scalar ' ' || pending.isEmpty) &&
          column + pending.length > lineWidth then
        let mark := shield (some c)
        pending ++ continued ++ mark ++ escapedRest indent false (indent + mark.length) [c] rest
      else escapedRest indent false column (pending ++ [c]) rest

/-- A text between double quotes. -/
def doubleQuotedLines (indent column : Nat) (t : Text) : Text :=
  "\"" ++ escapedRest indent true (column + 1) [] t ++ "\""

/-- A text as a scalar that starts at a column and whose further lines start at an indentation. -/
def scalarText (indent column : Nat) (t : Text) : Text :=
  if !t.all isPlainCharacter || losesBlanks t then doubleQuotedLines indent column t
  else if meansText t && allowsPlain t then plainLines indent column t
  else singleQuotedLines indent column t

/-- A decimal number: there is a point in front of an exponent. -/
def realText (q : Rat) : Text :=
  let t := (Double.ofRat q).text
  if t.contains (.scalar '.') then t
  else t.flatMap fun c => if c = .scalar 'e' then ".0e" else [c]

/-- Data that is written where it stands, given the indentation of its further lines and its
column. -/
def inline? (indent column : Nat) : Json → Option Text
  | .null => some "null"
  | .bool b => some (if b then "true" else "false")
  | .whole n => some (Text.ofInt n)
  | .real q => some (realText q)
  | .nonFinite .notANumber => some ".nan"
  | .nonFinite .infinity => some ".inf"
  | .nonFinite .negativeInfinity => some "-.inf"
  | .text t => some (scalarText indent column t)
  | .array [] => some "[]"
  | .object [] => some "\x7b\x7d"
  | _ => none

mutual

/-- The lines of data in a block at a column; the first line starts where the block stands. -/
def blockLines (column : Nat) : Json → Text
  | .array items => itemLines column items
  | .object members => memberLines column members
  | _ => []

/-- The entries of a sequence at a column, each but the first after the blanks up to it. -/
def itemLines (column : Nat) : List Json → Text
  | [] => []
  | j :: rest =>
    let entry := match inline? (column + 2) (column + 2) j with
      | some t => "- " ++ t ++ "\n"
      | none => "- " ++ blockLines (column + 2) j
    entry ++ (if rest.isEmpty then [] else blanks column) ++ itemLines column rest

/-- The members of a mapping at a column, each but the first after the blanks up to it. -/
def memberLines (column : Nat) : List (Text × Json) → Text
  | [] => []
  | (key, j) :: rest =>
    let name := scalarText column column key
    let value := match inline? (column + 2) (column + name.length + 2) j, j with
      | some t, _ => " " ++ t ++ "\n"
      | none, .array _ => "\n" ++ blanks column ++ blockLines column j
      | none, _ => "\n" ++ blanks (column + 2) ++ blockLines (column + 2) j
    name ++ ":" ++ value ++ (if rest.isEmpty then [] else blanks column) ++
      memberLines column rest

end

/-- Members as a document. -/
def write (members : List (Text × Json)) : Text := memberLines 0 members

end ScriptEngine.Yaml
