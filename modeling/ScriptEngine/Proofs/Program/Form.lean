import ScriptEngine.Proofs.Program.Sound

/-!
# The form of nodes

What the evaluator relies on, stated on the fields of a node alone.

* `Node.operatorsByLabel` lists the operators that a node with a given label may carry.
* **Regular nodes** (`Node.Regular`): their targets, operators, arms, parameters, handlers and exported
  declarations are as the evaluator expects them.
* The types of the tree see to most of this and the parser to the rest, so that a well-formed node is
  regular (`Node.WellFormed.regular`).
-/

namespace ScriptEngine.Node

/-- The labels of what can be assigned to. -/
def targetLabels : List Text := ["Identifier", "MemberAccess", "IndexAccess"].map Text.ofString

/-- The arithmetic operators in listings. -/
def arithmeticLabels : List Text :=
  ["PLUS", "MINUS", "STAR", "SLASH", "PERCENT", "DOUBLE_STAR"].map Text.ofString

/-- The comparison operators in listings. -/
def comparisonLabels : List Text := ["EQ", "NE", "LT", "GT", "LE", "GE"].map Text.ofString

/-- The operators of each sort of node. -/
def operatorsByLabel : List (Text × List Text) :=
  [("BinaryOp", arithmeticLabels ++ comparisonLabels ++ ["IN", "IS"].map Text.ofString),
   ("LogicalOp", ["AND", "OR"].map Text.ofString),
   ("UnaryOp", ["NOT", "MINUS", "PLUS", "DOLLAR", "TYPEOF"].map Text.ofString),
   ("UpdateExpr", ["INCREMENT", "DECREMENT"].map Text.ofString),
   ("Assignment", ["ASSIGN", "PLUS_ASSIGN", "MINUS_ASSIGN", "STAR_ASSIGN", "SLASH_ASSIGN",
     "PERCENT_ASSIGN"].map Text.ofString),
   ("MatchArm", comparisonLabels)]

/-- The operators that a node may carry. -/
def knownOperators (n : Node) : List Text := (operatorsByLabel.lookup n.label).getD []

/-- A parameter that takes all arguments the others leave. -/
def IsVariadic (n : Node) : Prop := ("name", .text variadicName) ∈ n.fields

/-- The form of a node that can be evaluated. -/
structure Regular (n : Node) : Prop where
  target : ∀ t, ("target", .node t) ∈ n.fields → t.label ∈ targetLabels
  operator : ∀ op, ("operator", .operator op) ∈ n.fields → op ∈ n.knownOperators
  comparison : ∀ kind : Text, ("kind", .text kind) ∈ n.fields →
    ((∃ op, ("operator", .operator op) ∈ n.fields) ↔ kind = "comparison")
  pattern : ∀ kind : Text, ("kind", .text kind) ∈ n.fields →
    (("pattern", .absent) ∈ n.fields ↔ kind = "else")
  elseLast : ∀ arms, ("arms", .nodes arms) ∈ n.fields →
    ∀ a ∈ arms.dropLast, ("kind", .text "else") ∉ a.fields
  variadic : ∀ ps, ("parameters", .nodes ps) ∈ n.fields →
    ps.Pairwise fun p q => ¬ (p.IsVariadic ∧ q.IsVariadic)
  exported : ∀ f, ("declaration", .node (.function f)) ∈ n.fields → ("name", .absent) ∉ functionFields f
  handled : ("catch_block", .absent) ∈ n.fields → ("finally_block", .absent) ∉ n.fields

/-- The fields that the form of a node is about. -/
def formNames : List String :=
  ["target", "operator", "kind", "arms", "parameters", "declaration", "catch_block"]

/-- A node without such fields has the form. -/
theorem Regular.of_names {n : Node} (h : ∀ f ∈ n.fields, f.1 ∉ formNames) : n.Regular := by
  have hnone {name : String} {x : NodeField} (hname : name ∈ formNames) : (name, x) ∉ n.fields :=
    fun hx => h _ hx hname
  refine ⟨fun _ hx => ?_, fun _ hx => ?_, fun _ hx => ?_, fun _ hx => ?_, fun _ hx => ?_, fun _ hx => ?_,
    fun _ hx => ?_, fun hx => ?_⟩
  all_goals exact absurd hx (hnone (by decide))

open NodeField

theorem label_mem_targetLabels {e : Expr} (h : e.isAssignable) : (expr e).label ∈ targetLabels := by
  cases e with
  | name s n => exact .head _
  | member s o m => exact .tail _ (.head _)
  | index s o i => exact .tail _ (.tail _ (.head _))
  | _ => cases h

theorem label_mem_comparisonLabels (op : CompareOp) : op.symbol.label ∈ comparisonLabels := by
  cases op <;> decide

/-- The operators of the tree are those that the labels of the nodes allow. -/
theorem binary_mem_knownOperators (s : Span) (l r : Expr) (op : BinaryOp) :
    op.label ∈ (expr (.binary s l op r)).knownOperators := by
  show op.label ∈ arithmeticLabels ++ comparisonLabels ++ ["IN", "IS"].map Text.ofString
  rw [List.append_assoc]
  cases op with
  | arith op =>
    refine List.mem_append_left _ ?_
    cases op <;> decide
  | compare op =>
    exact List.mem_append_right _ (List.mem_append_left _ (label_mem_comparisonLabels op))
  | within => decide +kernel
  | isVariant => decide +kernel

theorem logical_mem_knownOperators (s : Span) (l r : Expr) (op : LogicalOp) :
    op.symbol.label ∈ (expr (.logical s l op r)).knownOperators := by
  show op.symbol.label ∈ ["AND", "OR"].map Text.ofString
  cases op <;> decide

theorem unary_mem_knownOperators (s : Span) (e : Expr) (op : UnaryOp) :
    op.label ∈ (expr (.unary s op e)).knownOperators := by
  show op.label ∈ ["NOT", "MINUS", "PLUS", "DOLLAR", "TYPEOF"].map Text.ofString
  cases op <;> decide +kernel

theorem update_mem_knownOperators (s : Span) (e : Expr) (op : UpdateOp) (b : Bool) :
    op.symbol.label ∈ (expr (.update s op e b)).knownOperators := by
  show op.symbol.label ∈ ["INCREMENT", "DECREMENT"].map Text.ofString
  cases op <;> decide

theorem assign_mem_knownOperators (s : Span) (e v : Expr) (op : AssignOp) :
    op.symbol.label ∈ (expr (.assign s e op v)).knownOperators := by
  show op.symbol.label ∈ ["ASSIGN", "PLUS_ASSIGN", "MINUS_ASSIGN", "STAR_ASSIGN", "SLASH_ASSIGN",
    "PERCENT_ASSIGN"].map Text.ofString
  cases op <;> decide

theorem arm_mem_knownOperators (a : MatchArm) (op : CompareOp) :
    op.symbol.label ∈ (arm a).knownOperators := label_mem_comparisonLabels op

/-- The kind of an arm tells whether it takes every subject. -/
theorem else_mem_fields_iff {a : MatchArm} :
    ("kind", .text "else") ∈ (arm a).fields ↔ Grammar.isCatchAll a = true := by
  obtain ⟨s, test, body⟩ := a
  cases test <;> simp [fields, armFields, Grammar.isCatchAll]
  all_goals decide

theorem isVariadic_iff {p : Parameter} : (parameter p).IsVariadic ↔ p.name = variadicName := by
  simp [IsVariadic, fields, eq_comm]

/-- If at most one parameter takes all other arguments, then no two do. -/
theorem pairwise_not_isVariadic {ps : List Parameter}
    (h : (ps.filter (·.name = variadicName)).length ≤ 1) :
    (ps.map parameter).Pairwise fun p q => ¬ (p.IsVariadic ∧ q.IsVariadic) := by
  have hshort : ∀ qs : List Parameter, qs.length ≤ 1 → qs.Pairwise fun _ _ => False
    | [], _ => .nil
    | [q], _ => List.pairwise_singleton _ q
  have hnone := List.pairwise_filter.1 (hshort _ h)
  rw [List.pairwise_map]
  refine hnone.imp fun hpq => ?_
  simpa [isVariadic_iff] using hpq

/-! ## Well-formed nodes are regular -/

theorem WellFormed.regular_expr {e : Expr} (h : (expr e).WellFormed) : (expr e).Regular := by
  cases e with
  | binary s l op r =>
    have hop := binary_mem_knownOperators s l r op
    constructor <;> simp [fields, exprFields, ofExpr, hop]
  | logical s l op r =>
    have hop := logical_mem_knownOperators s l r op
    constructor <;> simp [fields, exprFields, ofExpr, hop]
  | unary s op e =>
    have hop := unary_mem_knownOperators s e op
    constructor <;> simp [fields, exprFields, ofExpr, hop]
  | update s op e b =>
    have hop := update_mem_knownOperators s e op b
    have htarget := label_mem_targetLabels h
    constructor <;> simp [fields, exprFields, ofExpr, hop, htarget]
  | assign s e op v =>
    have hop := assign_mem_knownOperators s e v op
    have htarget := label_mem_targetLabels h
    constructor <;> simp [fields, exprFields, ofExpr, hop, htarget]
  | matchOn s e arms =>
    have hlast : ∀ a ∈ (arms.map arm).dropLast, ("kind", .text "else") ∉ a.fields := by
      intro n hn
      rw [← List.map_dropLast] at hn
      obtain ⟨a, ha, rfl⟩ := List.mem_map.1 hn
      rw [else_mem_fields_iff, h a ha]
      exact Bool.false_ne_true
    have hfields : (expr (.matchOn s e arms)).fields =
        [("subject", .node (expr e)), ("arms", .nodes (arms.map arm))] := rfl
    constructor
    case elseLast =>
      intro ns hns
      obtain rfl : ns = arms.map arm := by simpa [hfields] using hns
      exact hlast
    all_goals simp [hfields]
  | tryCatch s b n handler cleanup =>
    cases handler with
    | some b' => constructor <;> simp [fields, exprFields, ofBlock, ofBlock?]
    | none =>
      cases cleanup with
      | some c => constructor <;> simp [fields, exprFields, ofBlock, ofBlock?]
      | none => simp [WellFormed] at h
  | function f =>
    have hvariadic := pairwise_not_isVariadic h
    constructor
    case variadic =>
      intro ns hns
      obtain rfl : ns = f.parameters.map parameter := by
        simpa [fields, exprFields, functionFields] using hns
      exact hvariadic
    all_goals simp [fields, exprFields, functionFields]
  | literal s v => cases v <;> exact .of_names (by simp [fields, exprFields, literalFields, formNames])
  | _ => exact .of_names (by simp [fields, exprFields, formNames])

/-- Every well-formed node is regular. -/
theorem WellFormed.regular {n : Node} (h : n.WellFormed) : n.Regular := by
  cases n with
  | expr e => exact h.regular_expr
  | stmt s =>
    cases s with
    | exportDeclared s d =>
      cases d with
      | function f =>
        have hname : ("name", .absent) ∉ functionFields f := by
          obtain ⟨name, hname⟩ := Option.isSome_iff_exists.1 h
          simp [functionFields, hname, ofText?]
        constructor <;> simp [fields, stmtFields, ofDeclaration, Node.function, hname]
      | _ => constructor <;> simp [fields, stmtFields, ofDeclaration, Node.function]
    | exportNames s ns => constructor <;> simp [fields, stmtFields]
    | _ => exact .of_names (by simp [fields, stmtFields, varDeclFields, enumDeclFields, formNames])
  | arm a =>
    obtain ⟨s, test, body⟩ := a
    cases test with
    | compares op p =>
      have hop := arm_mem_knownOperators ⟨s, .compares op p, body⟩ op
      have hkind : Text.ofString "comparison" ≠ "else" := by decide
      constructor <;> simp [fields, armFields, ofExpr, hop, hkind]
    | equals p =>
      have hkind : Text.ofString "equality" ≠ "comparison" ∧ Text.ofString "equality" ≠ "else" := by decide
      constructor <;> simp [fields, armFields, ofExpr, hkind]
    | isVariant p =>
      have hkind : Text.ofString "is" ≠ "comparison" ∧ Text.ofString "is" ≠ "else" := by decide
      constructor <;> simp [fields, armFields, ofExpr, hkind]
    | otherwise =>
      have hkind : Text.ofString "else" ≠ "comparison" := by decide
      constructor <;> simp [fields, armFields, hkind]
  | _ => exact .of_names (by simp [fields, varDeclFields, enumDeclFields, formNames])

end ScriptEngine.Node
