import ScriptEngine.Text.Digit

/-!
# Tokens of YAML documents

The part of YAML that configurations use: block and flow collections, plain and quoted scalars,
comments and document marks. Anchors, tags, directives and block scalars are refused.

Blocks are found by their columns: a collection starts where a key or an entry stands further right than
the collection around it, and ends where something stands further left. A scalar or collection that
turns out to be a key by the colon behind it has its key mark put in front of it afterwards.

* `Token.ofText?` gives the tokens of a document, if its text is well formed.
-/

namespace ScriptEngine.Yaml

/-- A token. -/
inductive Token where
  | documentStart
  | documentEnd
  | blockSequenceStart
  | blockMappingStart
  | blockEnd
  | flowSequenceStart
  | flowSequenceEnd
  | flowMappingStart
  | flowMappingEnd
  | key
  | value
  | blockEntry
  | flowEntry
  | scalar (text : Text) (plain : Bool)
deriving DecidableEq

/-- Something that is a key if a colon follows. -/
structure PossibleKey where
  index : Nat
  required : Bool
  line : Nat
  offset : Nat
  column : Nat

/-- The state of a scan: the rest of the text and its place, the depth of flow collections, the columns
of the blocks around, whether a key may start, what may be a key at each depth, and the tokens. -/
structure Scan where
  rest : Text
  line : Nat := 0
  column : Nat := 0
  offset : Nat := 0
  flow : Nat := 0
  indents : List Nat := []
  allowKey : Bool := true
  keys : List (Nat × PossibleKey) := []
  tokens : List Token := []

/-- A step of a scan. -/
abbrev Scanner := StateT Scan Option

namespace Scanner

/-- Refuses the text. -/
def refuse {α : Type} : Scanner α := fun _ => none

/-- Whether a character ends a line. -/
def isBreak (c : CodePoint) : Bool := [0x0A, 0x0D, 0x85, 0x2028, 0x2029].contains c.toNat

/-- Whether a character separates tokens; the end of the text does as well. -/
def isGap (c : Option CodePoint) : Bool :=
  c.all fun c => c = .scalar ' ' || c = .scalar '\t' || isBreak c

/-- Whether a character may be part of a document. -/
def isAllowed (c : CodePoint) : Bool :=
  let n := c.toNat
  [0x09, 0x0A, 0x0D, 0x85].contains n || (0x20 ≤ n && n ≤ 0x7E) || (0xA0 ≤ n && n < 0xD800) ||
    (0xE000 ≤ n && n ≤ 0xFFFD) || 0x10000 ≤ n

/-- The character some places ahead. -/
def peek (n : Nat := 0) : Scanner (Option CodePoint) := return (← get).rest[n]?

/-- Takes a character. -/
def next : Scanner Unit :=
  modify fun s =>
    match s.rest with
    | [] => s
    | c :: rest =>
      if isBreak c then
        { s with rest := rest, offset := s.offset + 1, line := s.line + 1, column := 0 }
      else { s with rest := rest, offset := s.offset + 1, column := s.column + 1 }

/-- Takes some characters. -/
def forward : Nat → Scanner Unit
  | 0 => return ()
  | n + 1 => do
    next
    forward n

/-- Takes the characters of a class at the front. -/
def takeRun (p : CodePoint → Bool) : Scanner Text := do
  let run := (← get).rest.takeWhile p
  forward run.length
  return run

/-- Takes a line end, if there is one: a line feed stands for all but two of them. -/
def lineBreak : Scanner Text := do
  match (← get).rest with
  | [] => return []
  | c :: _ =>
    if isBreak c then
      next
      return if 0x2028 ≤ c.toNat then [c] else [.scalar '\n']
    else return []

/-- Whether a document mark stands at the front. -/
def atMark (mark : Text) : Scanner Bool := do
  let s ← get
  return mark.isPrefixOf s.rest && isGap s.rest[3]?

/-- Whether one of the document marks stands at the front. -/
def atSomeMark : Scanner Bool := do return (← atMark "---") || (← atMark "...")

/-- Skips blanks, comments and line ends. After a line end a key may start. -/
def skip : Nat → Scanner Unit
  | 0 => return ()
  | fuel + 1 => do
    let _ ← takeRun (· = .scalar ' ')
    if (← peek) = some (.scalar '#') then
      let _ ← takeRun fun c => !isBreak c
    if (← lineBreak).isEmpty then return ()
    else
      modify fun s => if s.flow = 0 then { s with allowKey := true } else s
      skip fuel

/-- Adds a token. -/
def push (t : Token) : Scanner Unit := modify fun s => { s with tokens := s.tokens ++ [t] }

/-! ## Keys and blocks -/

/-- Forgets what cannot be a key any more: a key ends on its line and has at most 1024 characters. -/
def forgetStale : Scanner Unit := do
  let s ← get
  let stale (k : PossibleKey) : Bool := k.line ≠ s.line || 1024 < s.offset - k.offset
  if s.keys.any fun (_, k) => stale k && k.required then refuse
  else set { s with keys := s.keys.filter fun (_, k) => !stale k }

/-- Forgets what may be a key at the current depth. -/
def forgetKey : Scanner Unit := do
  let s ← get
  match s.keys.lookup s.flow with
  | some k =>
    if k.required then refuse
    else set { s with keys := s.keys.filter (·.1 ≠ s.flow) }
  | none => return ()

/-- Whether a column is that of the innermost block. -/
def isBlockColumn (s : Scan) (column : Nat) : Bool := s.indents.head? = some column

/-- Remembers that a key may start here. -/
def markKey : Scanner Unit := do
  if (← get).allowKey then
    forgetKey
    modify fun s =>
      let k : PossibleKey :=
        { index := s.tokens.length, required := s.flow = 0 && isBlockColumn s s.column,
          line := s.line, offset := s.offset, column := s.column }
      { s with keys := (s.flow, k) :: s.keys }
  else return ()

/-- Ends the blocks that are further right than a column. -/
def unwind (column : Nat) : List Nat → Scanner Unit
  | [] => return ()
  | inner :: outer => do
    if column < inner then
      push .blockEnd
      modify fun s => { s with indents := outer }
      unwind column outer
    else return ()

/-- Opens a block at a column, unless one at least as far right is open. -/
def openBlock (column : Nat) : Scanner Bool := do
  let s ← get
  if s.indents.head?.all (· < column) then
    set { s with indents := column :: s.indents }
    return true
  else return false

/-! ## Scalars -/

/-- The line ends and blanks inside a plain scalar, folded; whether a document mark or nothing at all
comes next is told by giving nothing. -/
def plainSpaces : Scanner (Option Text) := do
  let blanks ← takeRun (· = .scalar ' ')
  let first ← lineBreak
  if first.isEmpty then return if blanks.isEmpty then none else some blanks
  else
    modify fun s => { s with allowKey := true }
    if ← atSomeMark then return none
    else
      let rec breaks : Nat → Text → Scanner (Option Text)
        | 0, found => return some found
        | fuel + 1, found => do
          let _ ← takeRun (· = .scalar ' ')
          let more ← lineBreak
          if more.isEmpty then return some found
          else if ← atSomeMark then return none
          else breaks fuel (found ++ more)
      match ← breaks (← get).rest.length.succ [] with
      | none => return none
      | some more =>
        return some ((if first ≠ [.scalar '\n'] then first
          else if more.isEmpty then [.scalar ' '] else []) ++ more)

/-- The length of a piece of a plain scalar at the front of a text. -/
def plainLength (inFlow : Bool) : Text → Nat
  | [] => 0
  | c :: rest =>
    let ends := isGap (some c) ||
      (c = .scalar ':' && (isGap rest.head? ||
        (inFlow && rest.head?.any (Text.ofString ",[]\x7b\x7d").contains))) ||
      (inFlow && (Text.ofString ",?[]\x7b\x7d").contains c)
    if ends then 0 else plainLength inFlow rest + 1

/-- The pieces of a plain scalar that may not stand left of a column; `gap` is what lies between the
pieces so far and the next. -/
def plainPieces (column : Nat) : Nat → Text → Text → Scanner Text
  | 0, found, _ => return found
  | fuel + 1, found, gap => do
    let s ← get
    let length := if s.rest.head? = some (.scalar '#') then 0 else plainLength (0 < s.flow) s.rest
    if length = 0 then return found
    else
      let piece := s.rest.take length
      modify fun s => { s with allowKey := false }
      forward length
      match ← plainSpaces with
      | none => return found ++ gap ++ piece
      | some gap' =>
        let s ← get
        if s.rest.head? = some (.scalar '#') || (s.flow = 0 && s.column < column) then
          return found ++ gap ++ piece
        else plainPieces column fuel (found ++ gap ++ piece) gap'

/-- A plain scalar. -/
def plainScalar : Scanner Unit := do
  markKey
  modify fun s => { s with allowKey := false }
  let s ← get
  let column := match s.indents.head? with
    | some c => c + 1
    | none => 0
  push (.scalar (← plainPieces column (s.rest.length + 1) [] []) true)

/-- The character of an escape of one letter. -/
def shortEscape? : CodePoint → Option Nat
  | .scalar '0' => some 0
  | .scalar 'a' => some 7
  | .scalar 'b' => some 8
  | .scalar 't' => some 9
  | .scalar '\t' => some 9
  | .scalar 'n' => some 10
  | .scalar 'v' => some 11
  | .scalar 'f' => some 12
  | .scalar 'r' => some 13
  | .scalar 'e' => some 27
  | .scalar ' ' => some 32
  | .scalar '"' => some 34
  | .scalar '\\' => some 92
  | .scalar '/' => some 47
  | .scalar 'N' => some 0x85
  | .scalar '_' => some 0xA0
  | .scalar 'L' => some 0x2028
  | .scalar 'P' => some 0x2029
  | _ => none

/-- The number of hexadecimal digits after the letter of an escape. -/
def hexLength? : CodePoint → Option Nat
  | .scalar 'x' => some 2
  | .scalar 'u' => some 4
  | .scalar 'U' => some 8
  | _ => none

/-- The empty lines inside a quoted scalar. -/
def quotedBreaks : Nat → Scanner Text
  | 0 => return []
  | fuel + 1 => do
    if ← atSomeMark then refuse
    else
      let _ ← takeRun fun c => c = .scalar ' ' || c = .scalar '\t'
      let more ← lineBreak
      if more.isEmpty then return [] else return more ++ (← quotedBreaks fuel)

/-- An escape in a scalar between double quotes, after the backslash. -/
def escape : Scanner Text := do
  match (← get).rest with
  | [] => refuse
  | c :: rest =>
    match shortEscape? c, hexLength? c with
    | some n, _ =>
      next
      return (CodePoint.ofNat? n).toList
    | none, some count =>
      let digits := rest.take count
      match CodePoint.ofNat? (Text.hexNumber digits) with
      | some x =>
        if digits.length = count && digits.all CodePoint.isHexDigit then
          forward (count + 1)
          return [x]
        else refuse
      | none => refuse
    | none, none =>
      if isBreak c then
        let _ ← lineBreak
        quotedBreaks (rest.length + 1)
      else refuse

/-- A quoted scalar after its opening quote, up to the closing one. -/
def quotedRest (double : Bool) : Nat → Text → Scanner Text
  | 0, _ => refuse
  | fuel + 1, found => do
    match (← get).rest with
    | [] => refuse
    | c :: rest =>
      if c = .scalar '\'' && !double then
        if rest.head? = some (.scalar '\'') then
          forward 2
          quotedRest double fuel (found ++ [c])
        else
          next
          return found
      else if c = .scalar '"' && double then
        next
        return found
      else if c = .scalar '\\' && double then
        next
        let more ← escape
        quotedRest double fuel (found ++ more)
      else if c = .scalar ' ' || c = .scalar '\t' || isBreak c then
        let blanks ← takeRun fun c => c = .scalar ' ' || c = .scalar '\t'
        let first ← lineBreak
        if first.isEmpty then quotedRest double fuel (found ++ blanks)
        else
          let more ← quotedBreaks (rest.length + 1)
          let folded := if first ≠ [.scalar '\n'] then first
            else if more.isEmpty then [.scalar ' '] else []
          quotedRest double fuel (found ++ folded ++ more)
      else
        next
        quotedRest double fuel (found ++ [c])

/-- A quoted scalar. -/
def quotedScalar (double : Bool) : Scanner Unit := do
  markKey
  modify fun s => { s with allowKey := false }
  next
  push (.scalar (← quotedRest double ((← get).rest.length + 1) []) false)

/-! ## Marks -/

/-- The start of a flow collection. -/
def flowStart (t : Token) : Scanner Unit := do
  markKey
  next
  modify fun s => { s with flow := s.flow + 1, allowKey := true }
  push t

/-- The end of a flow collection. -/
def flowEnd (t : Token) : Scanner Unit := do
  forgetKey
  next
  modify fun s => { s with flow := s.flow - 1, allowKey := false }
  push t

/-- A comma. -/
def flowEntry : Scanner Unit := do
  modify fun s => { s with allowKey := true }
  forgetKey
  next
  push .flowEntry

/-- The dash of an entry. -/
def blockEntry : Scanner Unit := do
  let s ← get
  if s.flow = 0 then
    if !s.allowKey then refuse
    else if ← openBlock s.column then push .blockSequenceStart
  modify fun s => { s with allowKey := true }
  forgetKey
  next
  push .blockEntry

/-- A question mark before a key. -/
def explicitKey : Scanner Unit := do
  let s ← get
  if s.flow = 0 then
    if !s.allowKey then refuse
    else if ← openBlock s.column then push .blockMappingStart
  modify fun s => { s with allowKey := s.flow = 0 }
  forgetKey
  next
  push .key

/-- The colon before a value. What stood before it is the key. -/
def keyedValue : Scanner Unit := do
  let s ← get
  match s.keys.lookup s.flow with
  | some k =>
    let opened ← if s.flow = 0 then openBlock k.column else pure false
    let marks := if opened then [Token.blockMappingStart, .key] else [.key]
    modify fun s =>
      { s with keys := s.keys.filter (·.1 ≠ s.flow), allowKey := false,
               tokens := s.tokens.take k.index ++ marks ++ s.tokens.drop k.index }
  | none =>
    if s.flow = 0 then
      if !s.allowKey then refuse
      else if ← openBlock s.column then push .blockMappingStart
    modify fun s => { s with allowKey := s.flow = 0 }
    forgetKey
  next
  push .value

/-- A mark of a document. -/
def documentMark (t : Token) : Scanner Unit := do
  let indents := (← get).indents
  indents.forM fun _ => push .blockEnd
  modify fun s => { s with indents := [] }
  forgetKey
  modify fun s => { s with allowKey := false }
  forward 3
  push t

/-- Whether a plain scalar can start with a character. -/
def startsPlain (inFlow : Bool) (c : CodePoint) (after : Option CodePoint) : Bool :=
  !(isGap (some c) || (Text.ofString "-?:,[]\x7b\x7d#&*!|>'\"%@\x60").contains c) ||
    (!isGap after &&
      (c = .scalar '-' || (!inFlow && (c = .scalar '?' || c = .scalar ':'))))

/-- Scans the next token that starts with a character. -/
def token (c : CodePoint) (after : Option CodePoint) : Scanner Unit := do
  let s ← get
  let inFlow := 0 < s.flow
  if s.column = 0 && c = .scalar '%' then refuse
  else if s.column = 0 && (← atMark "---") then documentMark .documentStart
  else if s.column = 0 && (← atMark "...") then documentMark .documentEnd
  else if c = .scalar '[' then flowStart .flowSequenceStart
  else if c = .scalar '{' then flowStart .flowMappingStart
  else if c = .scalar ']' then flowEnd .flowSequenceEnd
  else if c = .scalar '}' then flowEnd .flowMappingEnd
  else if c = .scalar ',' then flowEntry
  else if c = .scalar '-' && isGap after then blockEntry
  else if c = .scalar '?' && (inFlow || isGap after) then explicitKey
  else if c = .scalar ':' && (inFlow || isGap after) then keyedValue
  else if c = .scalar '\'' then quotedScalar false
  else if c = .scalar '"' then quotedScalar true
  else if startsPlain inFlow c after then plainScalar
  else refuse

/-- Scans all tokens. -/
def all : Nat → Scanner Unit
  | 0 => refuse
  | fuel + 1 => do
    skip ((← get).rest.length + 1)
    forgetStale
    let s ← get
    match s.rest with
    | [] =>
      s.indents.forM fun _ => push .blockEnd
      forgetKey
    | c :: rest =>
      if s.flow = 0 then unwind s.column s.indents
      token c rest.head?
      all fuel

end Scanner

/-- The tokens of a document, if its text is well formed. -/
def Token.ofText? (t : Text) : Option (List Token) :=
  let body := match t with
    | c :: rest => if c.toNat = 0xFEFF then rest else t
    | [] => []
  if body.all Scanner.isAllowed then
    ((Scanner.all (body.length + 2)).run { rest := body }).map fun (_, s) => s.tokens
  else none

end ScriptEngine.Yaml
