import ScriptEngine.Program.Parser.Operator

/-!
# Constructs that start with a token of their own

Blocks, conditionals, matches, tries, loops, functions, and array and object literals. Each consumes
a token before it uses the grammar for its parts.
-/

namespace ScriptEngine.Grammar

open Parse

variable (g : Grammar)

/-- The statements of a block up to its closing brace. -/
def blockStatements : Parse (List Stmt) :=
  many (do
    if ← atSymbol .rbrace then return none
    if ← looksAt .endOfFile then failExpected "'\x7d'"
    let s ← g.statement
    skipSemicolons g.bound
    return some s) g.bound

/-- A block between braces. -/
def block : Parse Block := do
  let start ← expectSymbol .lbrace "'\x7b'"
  skipSemicolons g.bound
  let statements ← g.blockStatements
  let _ ← expectSymbol .rbrace "'\x7d'"
  return ⟨← spanFrom start, statements⟩

/-- An array literal. -/
def arrayLiteral : Parse Expr := do
  let start ← next
  let elements ← separated .rbracket g.expression g.bound
  let _ ← expectSymbol .rbracket "']'"
  return .array (← spanFrom start) elements

/-- An entry of an object literal: a quoted key with a value, a name with a value, or a name that
stands for the variable of that name. -/
def objectEntry : Parse ObjectEntry := do
  let token ← peek
  match token.kind with
  | .string key =>
    let _ ← next
    let _ ← expectSymbol .colon "':'"
    let value ← g.expression
    return ⟨← spanFrom token, key, value⟩
  | .identifier key =>
    let _ ← next
    if ← acceptSymbol .colon then
      let value ← g.expression
      return ⟨← spanFrom token, key, value⟩
    else return ⟨← spanFrom token, key, .name token.span key⟩
  | _ => failExpected "object key"

/-- An object literal. -/
def objectLiteral : Parse Expr := do
  let start ← next
  let _ ← next
  let entries ← separated .rbrace g.objectEntry g.bound
  let _ ← expectSymbol .rbrace "'\x7d'"
  return .object (← spanFrom start) entries

/-- The other branch of a conditional, if there is one: another conditional or a block. -/
def elseBranch : Parse (Option Expr) := do
  if ← acceptKeyword .kwElse then
    if ← atKeyword .kwIf then return some (← g.ifElse)
    else return some (.block (← g.block))
  else return none

/-- A conditional. -/
def conditional : Parse Expr := do
  let start ← next
  let condition ← g.expression
  let thenBranch ← g.block
  let elseBranch ← g.elseBranch
  return .ifElse (← spanFrom start) condition thenBranch elseBranch

/-- The test of an arm of a match. -/
def armTest : Parse ArmTest := do
  if ← acceptKeyword .kwElse then return .otherwise
  if ← acceptKeyword .kwIs then return .isVariant (← g.binary InfixOp.rangePrecedence)
  match CompareOp.ofToken? (← peek).kind with
  | some op =>
    let _ ← next
    return .compares op (← g.binary InfixOp.rangePrecedence)
  | none => return .equals (← g.binary 1)

/-- An arm of a match. -/
def matchArm : Parse MatchArm := do
  let start ← peek
  let test ← g.armTest
  let body ← g.block
  return ⟨← spanFrom start, test, body⟩

/-- Whether an arm takes every subject. -/
def isCatchAll (a : MatchArm) : Bool :=
  match a.test with
  | .otherwise => true
  | _ => false

/-- The arms of a match up to its closing brace, in reverse; `arms` are those before. -/
def matchArms : Parse (List MatchArm) :=
  iterate (fun arms => do
    if ← atSymbol .rbrace then return none
    if arms.head?.any isCatchAll then failAt .elseNotLast (← peek).span
    let arm ← g.matchArm
    let _ ← acceptSymbol .comma
    return some (arm :: arms)) g.bound []

/-- A match. -/
def matchExpr : Parse Expr := do
  let start ← next
  let subject ← g.expression
  let _ ← expectSymbol .lbrace "'\x7b'"
  let arms ← g.matchArms
  let _ ← expectSymbol .rbrace "'\x7d'"
  return .matchOn (← spanFrom start) subject arms.reverse

/-- The catch part of a try, if there is one: the name of the error and the handler. -/
def catchPart : Parse (Option Text × Option Block) := do
  if ← acceptKeyword .kwCatch then
    let name ← acceptName
    return (name, some (← g.block))
  else return (none, none)

/-- The finally part of a try, if there is one. -/
def finallyPart : Parse (Option Block) := do
  if ← acceptKeyword .kwFinally then return some (← g.block) else return none

/-- A try with a catch part, a finally part or both. -/
def tryExpr : Parse Expr := do
  let start ← next
  let body ← g.block
  let (catchName, handler) ← g.catchPart
  let cleanup ← g.finallyPart
  if handler.isNone && cleanup.isNone then failExpected "'catch' or 'finally'"
  return .tryCatch (← spanFrom start) body catchName handler cleanup

/-- A loop over a condition; `until` loops while its condition is false. -/
def whileExpr (negate : Bool) : Parse Expr := do
  let start ← next
  let condition ← g.expression
  let body ← g.block
  return .whileLoop (← spanFrom start) condition body negate

/-- A loop without a condition. -/
def loopExpr : Parse Expr := do
  let start ← next
  let body ← g.block
  return .loop (← spanFrom start) body

/-- The variables of a loop over elements: one for the element, or one for the index and one for the
element. -/
def loopNames : Parse (Option Text × Text) := do
  let (_, first) ← expectName "loop variable"
  if ← acceptSymbol .comma then
    let (_, second) ← expectName "loop variable"
    return (some first, second)
  else return (none, first)

/-- A loop over the elements of a value. -/
def forExpr : Parse Expr := do
  let start ← next
  let (indexName, valueName) ← loopNames
  let _ ← expectKeyword .kwIn "'in'"
  let iterable ← g.expression
  let body ← g.block
  return .forIn (← spanFrom start) indexName valueName iterable body

/-- Arguments between parentheses. -/
def arguments : Parse (List Expr) := do
  let _ ← expectSymbol .lparen "'('"
  let args ← separated .rparen g.expression g.bound
  let _ ← expectSymbol .rparen "')'"
  return args

/-- A parameter: a name, or a name with a predicate, which may have further arguments. -/
def parameter : Parse Parameter := do
  let (token, name) ← expectName "parameter name"
  if ← acceptSymbol .colon then
    let annotation ← g.operand
    let (predicate, args) := match annotation with
      | .call _ callee args => (callee, args)
      | e => (e, [])
    return ⟨← spanFrom token, name, some predicate, args⟩
  else return ⟨← spanFrom token, name, none, []⟩

/-- The second parameter that takes all other arguments, if there is one. -/
def secondVariadic? (parameters : List Parameter) : Option Parameter :=
  (parameters.filter (·.name = variadicName))[1]?

/-- The word `func` with the word `pure` on either side of it: whether the function is pure. -/
def functionHead : Parse Bool := do
  if ← acceptKeyword .kwPure then
    let _ ← expectKeyword .kwFunc "'func'"
    return true
  else
    let _ ← expectKeyword .kwFunc "'func'"
    acceptKeyword .kwPure

/-- The conditions of a function after the word `where`, if there are any. -/
def whereClauses : Parse (List Expr) := do
  if ← acceptKeyword .kwWhere then commaList g.expression g.bound else return []

/-- A function. -/
def functionDef : Parse FunctionDef := do
  let start ← peek
  let isPure ← functionHead
  let name ← acceptName
  let _ ← expectSymbol .lparen "'('"
  let parameters ← separated .rparen g.parameter g.bound
  let _ ← expectSymbol .rparen "')'"
  match secondVariadic? parameters with
  | some p => failAt .duplicateVariadic p.span
  | none => pure ()
  let whereClauses ← g.whereClauses
  let body ← g.block
  return ⟨← spanFrom start, name, parameters, body, whereClauses, isPure⟩

end ScriptEngine.Grammar
