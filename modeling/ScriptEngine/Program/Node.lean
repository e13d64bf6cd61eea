import ScriptEngine.Number.Fraction
import ScriptEngine.Program.Tree

/-!
# Nodes and their fields

A uniform view of a program tree: every part with a span is a node with a label and named fields, in
a fixed order. Traversals, outlines and listings of a tree are written against this view alone.

* `Node.children` are the nodes among the fields.
* `Node.walk` lists a node and all below it, each before its own children.
-/

namespace ScriptEngine

/-- A part of a program tree. -/
inductive Node where
  | program (p : Program)
  | stmt (s : Stmt)
  | expr (e : Expr)
  | entry (e : ObjectEntry)
  | arm (a : MatchArm)
  | parameter (p : Parameter)
  | exchanged (n : ExchangedName)
  | varDecl (d : VarDecl)
  | enumDecl (d : EnumDecl)

/-- The content of a field of a node. -/
inductive NodeField where
  | absent
  | node (n : Node)
  | nodes (ns : List Node)
  | operator (label : Text)
  | flag (b : Bool)
  | text (t : Text)
  | texts (ts : List Text)
  | number (q : Rat)

namespace Node

/-- A block as a node. -/
def block (b : Block) : Node := expr (.block b)

/-- A function as a node. -/
def function (f : FunctionDef) : Node := expr (.function f)

/-- The span of a node. -/
def span : Node → Span
  | program p => p.span
  | stmt s => s.span
  | expr e => e.span
  | entry e => e.span
  | arm a => a.span
  | parameter p => p.span
  | exchanged n => n.span
  | varDecl d => d.span
  | enumDecl d => d.span

/-- The label of a node. -/
def label : Node → Text
  | program _ => "Program"
  | entry _ => "ObjectEntry"
  | arm _ => "MatchArm"
  | parameter _ => "Parameter"
  | exchanged _ => "ImportName"
  | varDecl _ => "VarDecl"
  | enumDecl _ => "EnumDecl"
  | stmt s => match s with
    | .expression _ _ => "ExpressionStatement"
    | .bindings _ => "VarDecl"
    | .returnValue _ _ => "ReturnStatement"
    | .breakLoop _ => "BreakStatement"
    | .continueLoop _ => "ContinueStatement"
    | .throwValue _ _ => "ThrowStatement"
    | .enum _ => "EnumDecl"
    | .importNames _ => "ImportStatement"
    | .exportDeclared _ _ => "ExportStatement"
    | .exportNames _ _ => "ExportStatement"
  | expr e => match e with
    | .literal _ _ => "Literal"
    | .name _ _ => "Identifier"
    | .binary _ _ _ _ => "BinaryOp"
    | .logical _ _ _ _ => "LogicalOp"
    | .unary _ _ _ => "UnaryOp"
    | .update _ _ _ _ => "UpdateExpr"
    | .assign _ _ _ _ => "Assignment"
    | .member _ _ _ => "MemberAccess"
    | .index _ _ _ => "IndexAccess"
    | .call _ _ _ => "Call"
    | .array _ _ => "ArrayLiteral"
    | .object _ _ => "ObjectLiteral"
    | .range _ _ _ _ _ _ => "RangeExpr"
    | .block _ => "Block"
    | .ifElse _ _ _ _ => "IfExpr"
    | .ternary _ _ _ _ => "Ternary"
    | .whileLoop _ _ _ _ => "WhileLoop"
    | .loop _ _ => "LoopExpr"
    | .forIn _ _ _ _ _ => "ForIn"
    | .tryCatch _ _ _ _ _ => "TryCatch"
    | .matchOn _ _ _ => "MatchExpr"
    | .function _ => "FunctionDef"

end Node

namespace NodeField

/-- A field that holds an expression. -/
def ofExpr (e : Expr) : NodeField := node (.expr e)

/-- A field that may hold an expression. -/
def ofExpr? : Option Expr → NodeField
  | some e => ofExpr e
  | none => absent

/-- A field that holds a block. -/
def ofBlock (b : Block) : NodeField := node (.block b)

/-- A field that may hold a block. -/
def ofBlock? : Option Block → NodeField
  | some b => ofBlock b
  | none => absent

/-- A field that may hold a text. -/
def ofText? : Option Text → NodeField
  | some t => text t
  | none => absent

/-- A field that holds a declaration. -/
def ofDeclaration : Declaration → NodeField
  | .bindings d => node (.varDecl d)
  | .enum d => node (.enumDecl d)
  | .function f => node (.function f)

/-- The nodes in a field. -/
def children : NodeField → List Node
  | node n => [n]
  | nodes ns => ns
  | _ => []

end NodeField

namespace Node

open NodeField

/-- The fields of a variable declaration. -/
def varDeclFields (d : VarDecl) : List (String × NodeField) :=
  [("name", ofText? d.name), ("initializer", ofExpr? d.initializer), ("is_const", .flag d.isConst),
   ("targets", .texts d.targets)]

/-- The fields of an enum declaration. -/
def enumDeclFields (d : EnumDecl) : List (String × NodeField) :=
  [("name", .text d.name), ("variants", .texts d.variants)]

/-- The fields of a literal. -/
def literalFields : Literal → List (String × NodeField)
  | .number q => [("value", .number q), ("literal_type", .operator "NUMBER")]
  | .string t => [("value", .text t), ("literal_type", .operator "STRING")]
  | .bool b => [("value", .flag b), ("literal_type", .operator (if b then "TRUE" else "FALSE"))]
  | .null => [("value", .absent), ("literal_type", .operator "NULL")]

/-- The fields of an arm of a match. -/
def armFields (a : MatchArm) : List (String × NodeField) :=
  let described (kind : Text) (pattern operator : NodeField) : List (String × NodeField) :=
    [("kind", .text kind), ("body", ofBlock a.body), ("pattern", pattern), ("operator", operator)]
  match a.test with
  | .equals p => described "equality" (ofExpr p) .absent
  | .compares op p => described "comparison" (ofExpr p) (.operator op.symbol.label)
  | .isVariant p => described "is" (ofExpr p) .absent
  | .otherwise => described "else" .absent .absent

/-- The fields of a function. -/
def functionFields (f : FunctionDef) : List (String × NodeField) :=
  [("name", ofText? f.name), ("parameters", .nodes (f.parameters.map .parameter)),
   ("body", ofBlock f.body), ("where_clauses", .nodes (f.whereClauses.map .expr)),
   ("is_pure", .flag f.isPure)]

/-- The fields of an expression. -/
def exprFields : Expr → List (String × NodeField)
  | .literal _ v => literalFields v
  | .name _ n => [("name", .text n)]
  | .binary _ l op r => [("left", ofExpr l), ("operator", .operator op.label), ("right", ofExpr r)]
  | .logical _ l op r =>
    [("left", ofExpr l), ("operator", .operator op.symbol.label), ("right", ofExpr r)]
  | .unary _ op e => [("operator", .operator op.label), ("operand", ofExpr e)]
  | .update _ op e b =>
    [("operator", .operator op.symbol.label), ("target", ofExpr e), ("prefix", .flag b)]
  | .assign _ t op v =>
    [("target", ofExpr t), ("operator", .operator op.symbol.label), ("value", ofExpr v)]
  | .member _ o m => [("object", ofExpr o), ("member", .text m)]
  | .index _ o i => [("object", ofExpr o), ("index", ofExpr i)]
  | .call _ c args => [("callee", ofExpr c), ("arguments", .nodes (args.map .expr))]
  | .array _ es => [("elements", .nodes (es.map .expr))]
  | .object _ es => [("entries", .nodes (es.map .entry))]
  | .range _ a b withStart withStop step =>
    [("start", ofExpr a), ("end", ofExpr b), ("inclusive_start", .flag withStart),
     ("inclusive_end", .flag withStop), ("step", ofExpr? step)]
  | .block b => [("statements", .nodes (b.statements.map .stmt))]
  | .ifElse _ c t e =>
    [("condition", ofExpr c), ("then_branch", ofBlock t), ("else_branch", ofExpr? e)]
  | .ternary _ c t e => [("condition", ofExpr c), ("then_expr", ofExpr t), ("else_expr", ofExpr e)]
  | .whileLoop _ c b negate =>
    [("condition", ofExpr c), ("body", ofBlock b), ("negate", .flag negate)]
  | .loop _ b => [("body", ofBlock b)]
  | .forIn _ i v e b =>
    [("index_name", ofText? i), ("value_name", .text v), ("iterable", ofExpr e),
     ("body", ofBlock b)]
  | .tryCatch _ b n h c =>
    [("try_block", ofBlock b), ("catch_name", ofText? n), ("catch_block", ofBlock? h),
     ("finally_block", ofBlock? c)]
  | .matchOn _ s arms => [("subject", ofExpr s), ("arms", .nodes (arms.map .arm))]
  | .function f => functionFields f

/-- The fields of a statement. -/
def stmtFields : Stmt → List (String × NodeField)
  | .expression _ e => [("expression", ofExpr e)]
  | .bindings d => varDeclFields d
  | .returnValue _ e => [("value", ofExpr? e)]
  | .breakLoop _ => []
  | .continueLoop _ => []
  | .throwValue _ e => [("value", ofExpr e)]
  | .enum d => enumDeclFields d
  | .importNames i =>
    [("path", .text i.path), ("names", .nodes (i.names.map .exchanged)),
     ("import_all", .flag i.everything),
     ("style", .text (match i.style with | .fromPath => "from" | .expose => "expose"))]
  | .exportDeclared _ d => [("declaration", ofDeclaration d), ("names", .nodes [])]
  | .exportNames _ ns => [("declaration", .absent), ("names", .nodes (ns.map .exchanged))]

/-- The fields of a node by name, in order. -/
def fields : Node → List (String × NodeField)
  | program p => [("statements", .nodes (p.statements.map .stmt)), ("filename", ofText? p.file)]
  | stmt s => stmtFields s
  | expr e => exprFields e
  | entry e => [("key", .text e.key), ("value", ofExpr e.value)]
  | arm a => armFields a
  | parameter p =>
    [("name", .text p.name), ("predicate", ofExpr? p.predicate),
     ("predicate_args", .nodes (p.predicateArgs.map .expr))]
  | exchanged n => [("name", .text n.name), ("alias", ofText? n.altName)]
  | varDecl d => varDeclFields d
  | enumDecl d => enumDeclFields d

/-- The nodes directly below a node, in field order. -/
def children (n : Node) : List Node := n.fields.flatMap fun f => f.2.children

end Node

end ScriptEngine
