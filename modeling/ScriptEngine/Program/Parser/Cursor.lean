import ScriptEngine.Diagnostic
import ScriptEngine.Program.Tree
import ScriptEngine.Text.Lines

/-!
# Reading a token list

A parser is a function of the tokens and of the position of the next one; it gives a result and the
position after it, or it stops. Every token is looked up by its index, and `ParseStop` tells apart the
tokens that are no program, an index without a token, and a bound that is used up.

The grammar is recursive, and each cycle of it consumes a token. A `Grammar` is what a construct may use for its parts
once it has consumed a token of its own: the constructs themselves are written without recursion over a `Grammar`, and
the grammar of level `n + 1` is made of the constructs over the grammar of level `n`. Its `bound` is the number of
rounds a repetition may take.
-/

namespace ScriptEngine

/-- Why a token list is no program. -/
inductive ParseCause where
  | unexpectedToken (expected found : Text)
  | unexpectedEnd (expected : Text)
  | invalid (message : Text)
  | elseNotLast
  | duplicateVariadic

namespace ParseCause

/-- The code of the diagnostic. -/
def code : ParseCause → Text
  | unexpectedToken _ _ => "E101"
  | unexpectedEnd _ => "E102"
  | invalid _ => "E103"
  | elseNotLast => "E104"
  | duplicateVariadic => "E105"

/-- The message of the diagnostic. -/
def message : ParseCause → Text
  | unexpectedToken expected found => "expected " ++ expected ++ ", found " ++ found
  | unexpectedEnd expected => "unexpected end of file, expected " ++ expected
  | invalid message => message
  | elseNotLast => "'else' must be the last arm of a match expression"
  | duplicateVariadic => "a function may declare '__args__' only once"

/-- What was expected and what was found, where the cause names them. -/
def expectation? : ParseCause → Option (Text × Text)
  | unexpectedToken expected found => some (expected, found)
  | unexpectedEnd expected => some (expected, "end of file")
  | _ => none

/-- Whether the diagnostic shows the source line. An end of file has none to show. -/
def showsSource : ParseCause → Bool
  | unexpectedEnd _ => false
  | _ => true

end ParseCause

/-- An error with the span it is reported at. -/
structure ParseError where
  cause : ParseCause
  span : Span

/-- The diagnostic of an error, with an excerpt when the source is known. -/
def ParseError.diagnostic (e : ParseError) (source : Option Text) : Diagnostic :=
  { code := e.cause.code, message := e.cause.message, span := e.span,
    sourceLine :=
      if e.cause.showsSource then source.bind fun s => s.line? e.span.start.line else none }

/-- Why a parser stops without a result. -/
inductive ParseStop where
  /-- The tokens are no program. -/
  | rejected (e : ParseError)
  /-- There is no token at an index that was asked for. -/
  | noToken
  /-- A bound on repetition or nesting is used up. -/
  | unfinished

/-- A parser of something. It reads a token list and keeps the position of the next token. -/
abbrev Parse := ReaderT (Array Token) (StateT Nat (Except ParseStop))

namespace Parse

/-- The result of a parser that starts with the first token, and the number of tokens it consumed. -/
def runOn {α : Type} (p : Parse α) (tokens : List Token) : Except ParseStop (α × Nat) :=
  p tokens.toArray 0

/-- The token at an index. -/
def tokenAt (i : Nat) : Parse Token := do
  match (← read)[i]? with
  | some token => return token
  | none => throw .noToken

/-- The token some places after the next one. Past the end it is the last token. -/
def lookAhead (places : Nat) : Parse Token := do
  let i := (← get) + places
  let size := (← read).size
  tokenAt (if i < size then i else size - 1)

/-- The next token. -/
def peek : Parse Token := lookAhead 0

/-- The token after the next one. -/
def peekSecond : Parse Token := lookAhead 1

/-- Consumes the next token. The end of file is never consumed. -/
def next : Parse Token := do
  let token ← peek
  if token.kind ≠ .endOfFile then modify (· + 1)
  return token

/-- The last consumed token. -/
def previous : Parse Token := do
  match ← get with
  | 0 => throw .noToken
  | i + 1 => tokenAt i

/-- Fails at a span. -/
def failAt {α : Type} (cause : ParseCause) (span : Span) : Parse α :=
  throw (.rejected ⟨cause, span⟩)

/-- Fails at the next token because something else was expected. -/
def failExpected {α : Type} (expected : Text) : Parse α := do
  let token ← peek
  match token.kind with
  | .endOfFile => failAt (.unexpectedEnd expected) token.span
  | _ => failAt (.unexpectedToken expected ("'" ++ token.lexeme ++ "'")) token.span

/-- Whether the next token is of a kind. -/
def looksAt (kind : TokenKind) : Parse Bool := return (← peek).kind = kind

/-- Whether the next token is a symbol. -/
def atSymbol (s : Symbol) : Parse Bool := looksAt (.symbol s)

/-- Whether the next token is a keyword. -/
def atKeyword (k : Keyword) : Parse Bool := looksAt (.keyword k)

/-- Consumes the next token if it is of a kind. -/
def accept (kind : TokenKind) : Parse Bool := do
  if ← looksAt kind then
    let _ ← next
    return true
  else return false

/-- Consumes the next token if it is a symbol. -/
def acceptSymbol (s : Symbol) : Parse Bool := accept (.symbol s)

/-- Consumes the next token if it is a keyword. -/
def acceptKeyword (k : Keyword) : Parse Bool := accept (.keyword k)

/-- Consumes a token of a kind, or fails with what was expected. -/
def expect (kind : TokenKind) (expected : Text) : Parse Token := do
  if ← looksAt kind then next else failExpected expected

/-- Consumes a symbol. -/
def expectSymbol (s : Symbol) (expected : Text) : Parse Token := expect (.symbol s) expected

/-- Consumes a keyword. -/
def expectKeyword (k : Keyword) (expected : Text) : Parse Token := expect (.keyword k) expected

/-- Consumes an identifier, and gives its token and its name. -/
def expectName (expected : Text) : Parse (Token × Text) := do
  let token ← peek
  match token.kind with
  | .identifier name =>
    let _ ← next
    return (token, name)
  | _ => failExpected expected

/-- Consumes an identifier if there is one. -/
def acceptName : Parse (Option Text) := do
  match (← peek).kind with
  | .identifier name =>
    let _ ← next
    return some name
  | _ => return none

/-- Whether the next token is a word that is an identifier everywhere else. -/
def atWord (word : Text) : Parse Bool := looksAt (.identifier word)

/-- The span from the start of a token to the last consumed token, or to the first one if none has been
consumed. -/
def spanFrom (start : Token) : Parse Span := do
  let last ← tokenAt ((← get) - 1)
  return ⟨start.span.start, last.span.stop⟩

/-! ## Repetition

Each round of a repetition consumes a token, so a bound on the tokens ahead bounds the rounds. -/

/-- What a repetition does when its bound is used up. -/
def exhausted {α : Type} : Parse α := throw .unfinished

/-- Applies a step to a state until the step gives nothing. -/
def iterate {σ : Type} (step : σ → Parse (Option σ)) : Nat → σ → Parse σ
  | 0, _ => exhausted
  | bound + 1, s => do
    match ← step s with
    | some s => iterate step bound s
    | none => return s

/-- Collects items until there is none. -/
def many {α : Type} (item : Parse (Option α)) : Nat → Parse (List α)
  | 0 => exhausted
  | bound + 1 => do
    match ← item with
    | some a => return a :: (← many item bound)
    | none => return []

/-- Items with commas between them up to a closing symbol, which is not consumed. A comma may follow
the last item. -/
def separated {α : Type} (close : Symbol) (item : Parse α) : Nat → Parse (List α)
  | 0 => exhausted
  | bound + 1 => do
    if ← atSymbol close then return []
    let a ← item
    if ← acceptSymbol .comma then return a :: (← separated close item bound)
    return [a]

/-- One or more items with commas between them. -/
def commaList {α : Type} (item : Parse α) : Nat → Parse (List α)
  | 0 => exhausted
  | bound + 1 => do
    let a ← item
    if ← acceptSymbol .comma then return a :: (← commaList item bound)
    return [a]

/-- Consumes semicolons. -/
def skipSemicolons (bound : Nat) : Parse Unit := do
  let _ ← many (do if ← acceptSymbol .semicolon then return some () else return none) bound

end Parse

/-! ## Grammars by level -/

/-- The parsers that a construct uses for its parts. -/
structure Grammar where
  bound : Nat
  expression : Parse Expr
  ternary : Parse Expr
  binary : Nat → Parse Expr
  unary : Parse Expr
  operand : Parse Expr
  ifElse : Parse Expr
  statement : Parse Stmt

/-- The grammar that nothing satisfies. -/
def Grammar.nothing : Grammar :=
  { bound := 0, expression := Parse.exhausted, ternary := Parse.exhausted,
    binary := fun _ => Parse.exhausted, unary := Parse.exhausted, operand := Parse.exhausted,
    ifElse := Parse.exhausted, statement := Parse.exhausted }

end ScriptEngine
