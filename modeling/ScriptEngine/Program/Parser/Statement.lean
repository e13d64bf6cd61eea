import ScriptEngine.Program.Parser.Expression
import ScriptEngine.Token.Lexer

/-!
# Statements and programs

* `Program.ofTokens` parses a token list; the level of the grammar is the number of tokens, since
  each level consumes one.
* `Program.parse` reads a source.
-/

namespace ScriptEngine

namespace Grammar

open Parse

variable (g : Grammar)

/-- The variables of a declaration: a name, or the names of a pattern between brackets. -/
def declared : Parse (Option Text × List Text) := do
  if ← acceptSymbol .lbracket then
    let targets ← separated .rbracket (return (← expectName "identifier").2) g.bound
    let _ ← expectSymbol .rbracket "']'"
    return (none, targets)
  else return (some (← expectName "variable name").2, [])

/-- The initial value of a declaration, which may be left out unless it is needed. -/
def initializer (needed : Bool) : Parse (Option Expr) := do
  if ← acceptSymbol .assign then return some (← g.expressionExpr)
  else if needed then failExpected "'=' and an initializer"
  else return none

/-- A declaration of variables or constants. Constants and patterns with names need an initial
value. -/
def varDecl : Parse VarDecl := do
  let start ← next
  let isConst := start.kind = .keyword .kwConst
  let (name, targets) ← g.declared
  let initializer ← g.initializer (isConst || !targets.isEmpty)
  return ⟨← spanFrom start, name, initializer, isConst, targets⟩

/-- Whether a return has no value: a semicolon, a closing brace or the end follows. -/
def atStatementEnd : Parse Bool := do
  return (← atSymbol .semicolon) || (← atSymbol .rbrace) || (← looksAt .endOfFile)

/-- The value of a return, if it has one. -/
def returnedValue : Parse (Option Expr) := do
  if ← atStatementEnd then return none else return some (← g.expressionExpr)

/-- A return with or without a value. -/
def returnStmt : Parse Stmt := do
  let start ← next
  let value ← g.returnedValue
  return .returnValue (← spanFrom start) value

/-- A declaration of an enum. -/
def enumDecl : Parse EnumDecl := do
  let start ← next
  let (_, name) ← expectName "enum name"
  let _ ← expectSymbol .lbrace "'\x7b'"
  let variants ← separated .rbrace (return (← expectName "variant name").2) g.bound
  let _ ← expectSymbol .rbrace "'\x7d'"
  return ⟨← spanFrom start, name, variants⟩

/-- The alias of a name to import or export, if it has one. -/
def altName : Parse (Option Text) := do
  if ← acceptKeyword .kwAs then return some (← expectName "alias").2 else return none

/-- A name to import or export, with its alias if it has one. -/
def exchangedName : Parse ExchangedName := do
  let (token, name) ← expectName "name"
  let altName ← altName
  return ⟨← spanFrom token, name, altName⟩

/-- The names of an import: all of them for a star. -/
def importedNames : Parse (List ExchangedName × Bool) := do
  if ← acceptSymbol .star then return ([], true)
  else return (← commaList exchangedName g.bound, false)

/-- The path of a module. -/
def modulePath : Parse Text := do
  match (← peek).kind with
  | .string path =>
    let _ ← next
    return path
  | _ => failExpected "module path string"

/-- An import in either form. -/
def importStmt : Parse Import := do
  let start ← next
  let path ← modulePath
  if start.kind = .keyword .kwFrom then
    let _ ← expectKeyword .kwImport "'import'"
    let (names, everything) ← g.importedNames
    return ⟨← spanFrom start, path, names, everything, .fromPath⟩
  else if ← atWord "expose" then
    let _ ← next
    let (names, everything) ← g.importedNames
    return ⟨← spanFrom start, path, names, everything, .expose⟩
  else return ⟨← spanFrom start, path, [], false, .expose⟩

/-- A function that is exported, which must have a name. -/
def exportedFunction : Parse FunctionDef := do
  let f ← g.functionDef
  if f.name.isNone then failAt (.invalid "exported functions must be named") f.span
  return f

/-- An export of a declaration or of names. -/
def exportStmt : Parse Stmt := do
  let start ← next
  match (← peek).kind with
  | .keyword .kwLet | .keyword .kwConst =>
    let d ← g.varDecl
    return .exportDeclared (← spanFrom start) (.bindings d)
  | .keyword .kwEnum =>
    let d ← g.enumDecl
    return .exportDeclared (← spanFrom start) (.enum d)
  | .keyword .kwFunc | .keyword .kwPure =>
    let f ← g.exportedFunction
    return .exportDeclared (← spanFrom start) (.function f)
  | _ =>
    let names ← commaList exchangedName g.bound
    return .exportNames (← spanFrom start) names

/-- A statement. -/
def stmt : Parse Stmt := do
  let token ← peek
  match token.kind with
  | .keyword .kwLet | .keyword .kwConst => return .bindings (← g.varDecl)
  | .keyword .kwReturn => g.returnStmt
  | .keyword .kwBreak =>
    let _ ← next
    return .breakLoop token.span
  | .keyword .kwContinue =>
    let _ ← next
    return .continueLoop token.span
  | .keyword .kwThrow =>
    let _ ← next
    let value ← g.expressionExpr
    return .throwValue (← spanFrom token) value
  | .keyword .kwEnum => return .enum (← g.enumDecl)
  | .keyword .kwImport | .keyword .kwFrom => return .importNames (← g.importStmt)
  | .keyword .kwExport => g.exportStmt
  | _ =>
    let e ← g.expressionExpr
    return .expression e.span e

/-- The grammar of the constructs over a grammar for their parts. -/
def above : Grammar :=
  { bound := g.bound + 1, expression := g.expressionExpr, ternary := g.ternaryExpr,
    binary := g.binaryExpr, unary := g.unaryExpr, operand := g.operandExpr,
    ifElse := g.conditional, statement := g.stmt }

/-- The grammar of a level. -/
def ofLevel : Nat → Grammar
  | 0 => nothing
  | n + 1 => (ofLevel n).above

/-- The statements of a program up to the end of file. -/
def programStatements : Parse (List Stmt) :=
  many (do
    if ← looksAt .endOfFile then return none
    let s ← g.statement
    skipSemicolons g.bound
    return some s) g.bound

/-- A whole program. -/
def program (file : Option Text) : Parse Program := do
  let start ← peek
  skipSemicolons g.bound
  let statements ← g.programStatements
  return ⟨← spanFrom start, statements, file⟩

end Grammar

/-- Why a source gives no program. -/
inductive SourceError where
  | lexical (e : LexError)
  | grammatical (stop : ParseStop)

namespace Program

/-- The program of a token list that ends with the end of file. -/
def ofTokens (tokens : List Token) (file : Option Text) : Except ParseStop Program :=
  (((Grammar.ofLevel (tokens.length + 2)).program file).runOn tokens).map Prod.fst

/-- The program of a source. -/
def parse (source : Text) (file : Option Text) : Except SourceError Program := do
  let tokens ← (tokenize source file).mapError .lexical
  (ofTokens tokens file).mapError .grammatical

end Program

end ScriptEngine
