import ScriptEngine.Program.Parser.Construct

/-!
# Expressions

Primary expressions, what may follow them, operators by precedence climbing, the conditional
operator and assignment.
-/

namespace ScriptEngine.Grammar

open Parse

variable (g : Grammar)

/-- Fails unless an expression can be assigned to. -/
def checkAssignable (target : Expr) : Parse Unit :=
  if target.isAssignable then return ()
  else failAt (.invalid "invalid assignment target") target.span

/-- An expression between parentheses. The parentheses are not part of its span. -/
def parenthesized : Parse Expr := do
  let _ ← next
  let e ← g.expression
  let _ ← expectSymbol .rparen "')'"
  return e

/-- An expression that is no operator applied to operands. -/
def primary : Parse Expr := do
  let token ← peek
  match Literal.ofToken? token.kind with
  | some value =>
    let _ ← next
    return .literal token.span value
  | none =>
    match token.kind with
    | .identifier name =>
      let _ ← next
      return .name token.span name
    | .symbol .lparen => g.parenthesized
    | .symbol .lbracket => g.arrayLiteral
    | .symbol .dot =>
      if (← peekSecond).kind = .symbol .lbrace then g.objectLiteral
      else failExpected "expression"
    | .symbol .lbrace => return .block (← g.block)
    | .keyword .kwIf => g.conditional
    | .keyword .kwMatch => g.matchExpr
    | .keyword .kwTry => g.tryExpr
    | .keyword .kwWhile => g.whileExpr false
    | .keyword .kwUntil => g.whileExpr true
    | .keyword .kwLoop => g.loopExpr
    | .keyword .kwFor => g.forExpr
    | .keyword .kwFunc => return .function (← g.functionDef)
    | .keyword .kwPure => return .function (← g.functionDef)
    | _ => failExpected "expression"

/-- What may follow an operand: arguments, a member, an index, or a counting operator if it can be
assigned to. Gives nothing when nothing follows. -/
def operandTail (e : Expr) : Parse (Option Expr) := do
  let token ← peek
  match token.kind with
  | .symbol .lparen =>
    let args ← g.arguments
    return some (.call (e.span.upTo (← previous).span) e args)
  | .symbol .dot =>
    if (← peekSecond).kind = .symbol .lbrace then return none
    let _ ← next
    let (member, name) ← expectName "member name"
    return some (.member (e.span.upTo member.span) e name)
  | .symbol .lbracket =>
    let _ ← next
    let index ← g.expression
    let close ← expectSymbol .rbracket "']'"
    return some (.index (e.span.upTo close.span) e index)
  | kind =>
    match UpdateOp.ofToken? kind with
    | some op =>
      if e.isAssignable then
        let _ ← next
        return some (.update (e.span.upTo token.span) op e false)
      else return none
    | none => return none

/-- A primary expression with all that follows it. -/
def operandExpr : Parse Expr := do
  iterate g.operandTail g.bound (← g.primary)

/-- An operand with the operators before it. -/
def unaryExpr : Parse Expr := do
  let token ← peek
  match UnaryOp.ofToken? token.kind with
  | some op =>
    let _ ← next
    let operand ← g.unary
    return .unary (token.span.upTo operand.span) op operand
  | none =>
    match UpdateOp.ofToken? token.kind with
    | some op =>
      let _ ← next
      let target ← g.unary
      checkAssignable target
      return .update (token.span.upTo target.span) op target true
    | none => g.operandExpr

/-- The step of a range, if one is given. -/
def rangeStep : Parse (Option Expr) := do
  if ← atWord "step" then
    let _ ← next
    return some (← g.binary InfixOp.sumPrecedence)
  else return none

/-- Applies an operator to its operands. A range also takes its step. -/
def applyInfix (left : Expr) (op : InfixOp) (right : Expr) : Parse Expr := do
  match op with
  | .binary op => return .binary (left.span.upTo right.span) left op right
  | .logical op => return .logical (left.span.upTo right.span) left op right
  | .range withStart withStop =>
    let step ← g.rangeStep
    let last := step.getD right
    return .range (left.span.upTo last.span) left right withStart withStop step

/-- The next operator that binds at least as tightly as `least`, applied to `left` and its right
operand. Gives nothing when there is no such operator. -/
def infixTail (least : Nat) (left : Expr) : Parse (Option Expr) := do
  match InfixOp.ofToken? (← peek).kind with
  | none => return none
  | some op =>
    if op.precedence < least then return none
    let _ ← next
    let right ← g.binary op.rightPrecedence
    return some (← g.applyInfix left op right)

/-- Operands joined by operators that bind at least as tightly as `least`. -/
def binaryExpr (least : Nat) : Parse Expr := do
  iterate (g.infixTail least) g.bound (← g.unaryExpr)

/-- The conditional operator. -/
def ternaryExpr : Parse Expr := do
  let condition ← g.binaryExpr 1
  if ← acceptSymbol .question then
    let thenExpr ← g.ternary
    let _ ← expectSymbol .colon "':'"
    let elseExpr ← g.ternary
    return .ternary (condition.span.upTo elseExpr.span) condition thenExpr elseExpr
  else return condition

/-- An expression: an assignment, which groups to the right, or what binds more tightly. -/
def expressionExpr : Parse Expr := do
  let target ← g.ternaryExpr
  match AssignOp.ofToken? (← peek).kind with
  | none => return target
  | some op =>
    let _ ← next
    checkAssignable target
    let value ← g.expression
    return .assign (target.span.upTo value.span) target op value

end ScriptEngine.Grammar
