import ScriptEngine.Token.Basic

/-!
# Program trees

The tree of a parsed program. Everything that has a value is an expression, blocks, conditionals,
matches, tries and loops included; statements are declarations, exits and expressions.

Operators are types of their own, so a node can hold only an operator that it knows. What the types
leave open (which expressions are assigned to, where the catch-all arm of a match stands, that a try
does something with a failure) the parser sees to.
-/

namespace ScriptEngine

/-- A literal of the source. -/
inductive Literal where
  | number (q : Rat)
  | string (t : Text)
  | bool (b : Bool)
  | null
deriving DecidableEq, Inhabited

/-- The arithmetic operators. -/
inductive ArithOp where
  | add | sub | mul | div | mod | pow
deriving DecidableEq, Inhabited

/-- The comparison operators. -/
inductive CompareOp where
  | eq | ne | lt | gt | le | ge
deriving DecidableEq, Inhabited

/-- The operators that always evaluate both operands. -/
inductive BinaryOp where
  | arith (op : ArithOp)
  | compare (op : CompareOp)
  | within
  | isVariant
deriving DecidableEq, Inhabited

/-- The operators that may leave out their second operand. -/
inductive LogicalOp where
  | and | or
deriving DecidableEq, Inhabited

/-- The operators with one operand. -/
inductive UnaryOp where
  | not | neg | pos | length | typeof
deriving DecidableEq, Inhabited

/-- Counting up or down by one. -/
inductive UpdateOp where
  | increment | decrement
deriving DecidableEq, Inhabited

/-- Plain assignment, or assignment combined with an arithmetic operator. -/
inductive AssignOp where
  | set | add | sub | mul | div | mod
deriving DecidableEq, Inhabited

namespace ArithOp

/-- The symbol of an operator. -/
def symbol : ArithOp → Symbol
  | add => .plus | sub => .minus | mul => .star | div => .slash | mod => .percent
  | pow => .doubleStar

end ArithOp

namespace CompareOp

/-- The symbol of an operator. -/
def symbol : CompareOp → Symbol
  | eq => .eq | ne => .ne | lt => .lt | gt => .gt | le => .le | ge => .ge

end CompareOp

namespace BinaryOp

/-- The name of an operator in listings. -/
def label : BinaryOp → Text
  | arith op => op.symbol.label
  | compare op => op.symbol.label
  | within => Keyword.kwIn.label
  | isVariant => Keyword.kwIs.label

end BinaryOp

namespace LogicalOp

/-- The symbol of an operator. -/
def symbol : LogicalOp → Symbol
  | and => .and | or => .or

end LogicalOp

namespace UnaryOp

/-- The name of an operator in listings. -/
def label : UnaryOp → Text
  | not => Symbol.not.label
  | neg => Symbol.minus.label
  | pos => Symbol.plus.label
  | length => Symbol.dollar.label
  | typeof => Keyword.kwTypeof.label

end UnaryOp

namespace UpdateOp

/-- The symbol of an operator. -/
def symbol : UpdateOp → Symbol
  | increment => .increment | decrement => .decrement

end UpdateOp

namespace AssignOp

/-- The symbol of an operator. -/
def symbol : AssignOp → Symbol
  | set => .assign | add => .plusAssign | sub => .minusAssign | mul => .starAssign
  | div => .slashAssign | mod => .percentAssign

/-- The arithmetic operator that a combined assignment applies. -/
def arith? : AssignOp → Option ArithOp
  | set => none | add => some .add | sub => some .sub | mul => some .mul
  | div => some .div | mod => some .mod

end AssignOp

/-- A name that is imported or exported, with the name it gets on the other side. -/
structure ExchangedName where
  span : Span
  name : Text
  altName : Option Text
deriving Inhabited

namespace ExchangedName

/-- The name on the other side. -/
def localName (n : ExchangedName) : Text := n.altName.getD n.name

end ExchangedName

/-- The declaration of an enum. -/
structure EnumDecl where
  span : Span
  name : Text
  variants : List Text
deriving Inhabited

/-- The two forms of an import. -/
inductive ImportStyle where
  | fromPath | expose
deriving DecidableEq, Inhabited

/-- An import of names, or of all names, from a module. -/
structure Import where
  span : Span
  path : Text
  names : List ExchangedName
  everything : Bool
  style : ImportStyle
deriving Inhabited

mutual

/-- An expression. -/
inductive Expr where
  | literal (span : Span) (value : Literal)
  | name (span : Span) (name : Text)
  | binary (span : Span) (left : Expr) (op : BinaryOp) (right : Expr)
  | logical (span : Span) (left : Expr) (op : LogicalOp) (right : Expr)
  | unary (span : Span) (op : UnaryOp) (operand : Expr)
  | update (span : Span) (op : UpdateOp) (target : Expr) (yieldsNew : Bool)
  | assign (span : Span) (target : Expr) (op : AssignOp) (value : Expr)
  | member (span : Span) (object : Expr) (member : Text)
  | index (span : Span) (object : Expr) (index : Expr)
  | call (span : Span) (callee : Expr) (arguments : List Expr)
  | array (span : Span) (elements : List Expr)
  | object (span : Span) (entries : List ObjectEntry)
  | range (span : Span) (start : Expr) (stop : Expr) (withStart : Bool) (withStop : Bool)
      (step : Option Expr)
  | block (body : Block)
  | ifElse (span : Span) (condition : Expr) (thenBranch : Block) (elseBranch : Option Expr)
  | ternary (span : Span) (condition : Expr) (thenExpr : Expr) (elseExpr : Expr)
  | whileLoop (span : Span) (condition : Expr) (body : Block) (negate : Bool)
  | loop (span : Span) (body : Block)
  | forIn (span : Span) (indexName : Option Text) (valueName : Text) (iterable : Expr)
      (body : Block)
  | tryCatch (span : Span) (body : Block) (catchName : Option Text) (handler : Option Block)
      (cleanup : Option Block)
  | matchOn (span : Span) (subject : Expr) (arms : List MatchArm)
  | function (definition : FunctionDef)

/-- A block of statements between braces. -/
structure Block where
  span : Span
  statements : List Stmt

/-- A key of an object literal with its value. -/
structure ObjectEntry where
  span : Span
  key : Text
  value : Expr

/-- What the subject of a match must satisfy. -/
inductive ArmTest where
  | equals (pattern : Expr)
  | compares (op : CompareOp) (pattern : Expr)
  | isVariant (pattern : Expr)
  | otherwise

/-- An arm of a match. -/
structure MatchArm where
  span : Span
  test : ArmTest
  body : Block

/-- A parameter. With a predicate `p` and further arguments `xs`, the argument `a` must satisfy
`p(a, xs)`. -/
structure Parameter where
  span : Span
  name : Text
  predicate : Option Expr
  predicateArgs : List Expr

/-- A function literal or declaration. -/
structure FunctionDef where
  span : Span
  name : Option Text
  parameters : List Parameter
  body : Block
  whereClauses : List Expr
  isPure : Bool

/-- A declaration of a variable or of the variables of a pattern. A pattern without names leaves
both parts empty. -/
structure VarDecl where
  span : Span
  name : Option Text
  initializer : Option Expr
  isConst : Bool
  targets : List Text

/-- What an export declares. -/
inductive Declaration where
  | bindings (d : VarDecl)
  | enum (d : EnumDecl)
  | function (f : FunctionDef)

/-- A statement. -/
inductive Stmt where
  | expression (span : Span) (e : Expr)
  | bindings (d : VarDecl)
  | returnValue (span : Span) (value : Option Expr)
  | breakLoop (span : Span)
  | continueLoop (span : Span)
  | throwValue (span : Span) (value : Expr)
  | enum (d : EnumDecl)
  | importNames (i : Import)
  | exportDeclared (span : Span) (d : Declaration)
  | exportNames (span : Span) (names : List ExchangedName)

end

/-- A whole source. -/
structure Program where
  span : Span
  statements : List Stmt
  file : Option Text

instance : Inhabited Expr := ⟨.literal Span.unknown .null⟩

instance : Inhabited Block := ⟨⟨Span.unknown, []⟩⟩

instance : Inhabited Program := ⟨⟨Span.unknown, [], none⟩⟩

/-- The parameter that takes all arguments the other parameters leave. -/
def variadicName : Text := "__args__"

namespace Expr

/-- The span of an expression. -/
def span : Expr → Span
  | literal s _ | name s _ | binary s _ _ _ | logical s _ _ _ | unary s _ _ | update s _ _ _
  | assign s _ _ _ | member s _ _ | index s _ _ | call s _ _ | array s _ | object s _
  | range s _ _ _ _ _ | ifElse s _ _ _ | ternary s _ _ _ | whileLoop s _ _ _ | loop s _
  | forIn s _ _ _ _ | tryCatch s _ _ _ _ | matchOn s _ _ => s
  | block b => b.span
  | function f => f.span

/-- Whether an expression can be assigned to. -/
def isAssignable : Expr → Bool
  | name _ _ | member _ _ _ | index _ _ _ => true
  | _ => false

end Expr

namespace Declaration

/-- The span of a declaration. -/
def span : Declaration → Span
  | bindings d => d.span
  | enum d => d.span
  | function f => f.span

end Declaration

namespace Stmt

/-- The span of a statement. -/
def span : Stmt → Span
  | expression s _ | returnValue s _ | breakLoop s | continueLoop s | throwValue s _
  | exportDeclared s _ | exportNames s _ => s
  | bindings d => d.span
  | enum d => d.span
  | importNames i => i.span

end Stmt

namespace FunctionDef

/-- The position of the parameter that takes all other arguments. -/
def variadicIndex? (f : FunctionDef) : Option Nat :=
  f.parameters.findIdx? (·.name = variadicName)

end FunctionDef

end ScriptEngine
