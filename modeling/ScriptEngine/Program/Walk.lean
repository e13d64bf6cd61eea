import ScriptEngine.Program.Node

/-!
# Traversal

* `Node.weight` measures a node; the children of a node together weigh less than the node
  (`weights_children_lt`).
* `Node.walk` lists a node and everything below it with a worklist: the first node of the list is
  visited and its children take its place.
-/

namespace ScriptEngine.Node

/-- The size of the tree a node stands for. -/
noncomputable def weight (n : Node) : Nat := sizeOf n

/-- The sum of the weights of a list of nodes. -/
noncomputable def weights (ns : List Node) : Nat := ns.foldr (fun n total => n.weight + total) 0

@[simp] theorem weights_nil : weights [] = 0 := rfl

@[simp] theorem weights_cons (n : Node) (ns : List Node) :
    weights (n :: ns) = n.weight + weights ns := rfl

@[simp] theorem weights_append (ms ns : List Node) :
    weights (ms ++ ns) = weights ms + weights ns := by
  induction ms with
  | nil => simp
  | cons m rest ih => simp [ih, Nat.add_assoc]

theorem weights_map_le {α : Type} [SizeOf α] (f : α → Node)
    (h : ∀ a, (f a).weight = 1 + sizeOf a) (as : List α) : weights (as.map f) < sizeOf as := by
  induction as with
  | nil => simp
  | cons a rest ih => simp [h]; omega

theorem weights_exprs (es : List Expr) : weights (es.map .expr) < sizeOf es :=
  weights_map_le _ (fun _ => rfl) es

theorem weights_stmts (ss : List Stmt) : weights (ss.map .stmt) < sizeOf ss :=
  weights_map_le _ (fun _ => rfl) ss

theorem weights_entries (es : List ObjectEntry) : weights (es.map .entry) < sizeOf es :=
  weights_map_le _ (fun _ => rfl) es

theorem weights_arms (as : List MatchArm) : weights (as.map .arm) < sizeOf as :=
  weights_map_le _ (fun _ => rfl) as

theorem weights_parameters (ps : List Parameter) : weights (ps.map .parameter) < sizeOf ps :=
  weights_map_le _ (fun _ => rfl) ps

theorem weights_exchanged (ns : List ExchangedName) : weights (ns.map .exchanged) < sizeOf ns :=
  weights_map_le _ (fun _ => rfl) ns

theorem sizeOf_span_ge (s : Span) : 5 ≤ sizeOf s := by
  obtain ⟨⟨_, _, _, f⟩, ⟨_, _, _, g⟩⟩ := s
  cases f <;> cases g <;> simp <;> omega

open NodeField in
theorem weights_children_varDecl (d : VarDecl) :
    weights ((varDeclFields d).flatMap fun f => f.2.children) < sizeOf d := by
  obtain ⟨s, n, i, c, t⟩ := d
  cases n <;> cases i <;>
    simp [varDeclFields, ofText?, ofExpr?, ofExpr, NodeField.children, weight] <;> omega

theorem weights_children_enumDecl (d : EnumDecl) :
    weights ((enumDeclFields d).flatMap fun f => f.2.children) < sizeOf d := by
  obtain ⟨s, n, v⟩ := d
  show 0 < sizeOf (EnumDecl.mk s n v)
  simp only [EnumDecl.mk.sizeOf_spec]
  omega

theorem weights_children_literal (v : Literal) :
    weights ((literalFields v).flatMap fun f => f.2.children) = 0 := by
  cases v <;> simp [literalFields, NodeField.children]

open NodeField in
theorem weights_children_function (f : FunctionDef) :
    weights ((functionFields f).flatMap fun f => f.2.children) < sizeOf f := by
  obtain ⟨s, n, ps, b, ws, p⟩ := f
  have := weights_parameters ps
  have := weights_exprs ws
  have := sizeOf_span_ge s
  cases n <;>
    simp [functionFields, ofText?, ofBlock, NodeField.children, weight, block] <;> omega

open NodeField in
theorem weights_children_arm (a : MatchArm) :
    weights ((armFields a).flatMap fun f => f.2.children) < sizeOf a := by
  obtain ⟨s, t, b⟩ := a
  have := sizeOf_span_ge s
  cases t <;>
    simp [armFields, ofExpr, ofBlock, NodeField.children, weight, block] <;> omega

open NodeField in
theorem weights_children_expr (e : Expr) :
    weights ((exprFields e).flatMap fun f => f.2.children) < 1 + sizeOf e := by
  cases e with
  | literal s v => have := weights_children_literal v; simp only [exprFields]; omega
  | name s n => exact Nat.lt_add_right _ Nat.one_pos
  | binary s l op r =>
    have := sizeOf_span_ge s
    simp [exprFields, ofExpr, NodeField.children, weight]
    omega
  | logical s l op r =>
    have := sizeOf_span_ge s
    simp [exprFields, ofExpr, NodeField.children, weight]
    omega
  | unary s op e =>
    show weights [expr e] < _
    simp only [weights_cons, weights_nil, weight, expr.sizeOf_spec, Expr.unary.sizeOf_spec]
    have := sizeOf_span_ge s
    omega
  | update s op t b =>
    show weights [expr t] < _
    simp only [weights_cons, weights_nil, weight, expr.sizeOf_spec, Expr.update.sizeOf_spec]
    have := sizeOf_span_ge s
    omega
  | assign s t op v =>
    have := sizeOf_span_ge s
    simp [exprFields, ofExpr, NodeField.children, weight]
    omega
  | member s o m =>
    have := sizeOf_span_ge s
    simp [exprFields, ofExpr, NodeField.children, weight]
    omega
  | index s o i =>
    have := sizeOf_span_ge s
    simp [exprFields, ofExpr, NodeField.children, weight]
    omega
  | call s c args =>
    have := weights_exprs args
    simp [exprFields, ofExpr, NodeField.children, weight]
    omega
  | array s es =>
    have := weights_exprs es
    simp [exprFields, NodeField.children]
    omega
  | object s es =>
    have := weights_entries es
    simp [exprFields, NodeField.children]
    omega
  | range s a b ws wt step =>
    have := sizeOf_span_ge s
    cases step <;> simp [exprFields, ofExpr, ofExpr?, NodeField.children, weight] <;> omega
  | block b =>
    obtain ⟨s, ss⟩ := b
    have := weights_stmts ss
    simp [exprFields, NodeField.children]
    omega
  | ifElse s c t e =>
    have := sizeOf_span_ge s
    cases e <;>
      simp [exprFields, ofExpr, ofExpr?, ofBlock, NodeField.children, weight, Node.block] <;> omega
  | ternary s c t e =>
    have := sizeOf_span_ge s
    simp [exprFields, ofExpr, NodeField.children, weight]
    omega
  | whileLoop s c b n =>
    have := sizeOf_span_ge s
    simp [exprFields, ofExpr, ofBlock, NodeField.children, weight, Node.block]
    omega
  | loop s b =>
    have := sizeOf_span_ge s
    simp [exprFields, ofBlock, NodeField.children, weight, Node.block]
    omega
  | forIn s i v e b =>
    have := sizeOf_span_ge s
    cases i <;>
      simp [exprFields, ofText?, ofExpr, ofBlock, NodeField.children, weight, Node.block] <;> omega
  | tryCatch s b n h c =>
    have := sizeOf_span_ge s
    cases n <;> cases h <;> cases c <;>
      simp [exprFields, ofText?, ofBlock, ofBlock?, NodeField.children, weight, Node.block] <;>
      omega
  | matchOn s e arms =>
    have := weights_arms arms
    simp [exprFields, ofExpr, NodeField.children, weight]
    omega
  | function f =>
    have := weights_children_function f
    simp only [exprFields, Expr.function.sizeOf_spec]; omega

open NodeField in
theorem weights_children_stmt (s : Stmt) :
    weights ((stmtFields s).flatMap fun f => f.2.children) < 1 + sizeOf s := by
  cases s with
  | expression s e =>
    show weights [expr e] < _
    simp only [weights_cons, weights_nil, weight, expr.sizeOf_spec, Stmt.expression.sizeOf_spec]
    have := sizeOf_span_ge s
    omega
  | bindings d =>
    have := weights_children_varDecl d
    simp only [stmtFields, Stmt.bindings.sizeOf_spec]; omega
  | returnValue s e =>
    have := sizeOf_span_ge s
    cases e with
    | none => exact Nat.lt_add_right _ Nat.one_pos
    | some e =>
      show weights [expr e] < _
      simp only [weights_cons, weights_nil, weight, expr.sizeOf_spec, Stmt.returnValue.sizeOf_spec,
        Option.some.sizeOf_spec]
      omega
  | breakLoop s => exact Nat.lt_add_right _ Nat.one_pos
  | continueLoop s => exact Nat.lt_add_right _ Nat.one_pos
  | throwValue s e =>
    show weights [expr e] < _
    simp only [weights_cons, weights_nil, weight, expr.sizeOf_spec, Stmt.throwValue.sizeOf_spec]
    have := sizeOf_span_ge s
    omega
  | enum d =>
    have := weights_children_enumDecl d
    simp only [stmtFields, Stmt.enum.sizeOf_spec]; omega
  | importNames i =>
    obtain ⟨s, p, ns, e, st⟩ := i
    have := weights_exchanged ns
    simp [stmtFields, NodeField.children]
    omega
  | exportDeclared s d =>
    have := sizeOf_span_ge s
    cases d <;> simp [stmtFields, ofDeclaration, NodeField.children, weight, Node.function] <;>
      omega
  | exportNames s ns =>
    have := weights_exchanged ns
    simp [stmtFields, NodeField.children]
    omega

open NodeField in
/-- The children of a node together weigh less than the node. -/
theorem weights_children_lt (n : Node) : weights n.children < n.weight := by
  unfold children
  cases n with
  | program p =>
    obtain ⟨s, ss, f⟩ := p
    have := weights_stmts ss
    cases f <;> simp [fields, ofText?, NodeField.children, weight] <;> omega
  | stmt s => have := weights_children_stmt s; simp only [fields, weight, stmt.sizeOf_spec]; omega
  | expr e => have := weights_children_expr e; simp only [fields, weight, expr.sizeOf_spec]; omega
  | entry e =>
    obtain ⟨s, k, v⟩ := e
    show weights [expr v] < _
    simp only [weights_cons, weights_nil, weight, expr.sizeOf_spec, entry.sizeOf_spec,
      ObjectEntry.mk.sizeOf_spec]
    have := sizeOf_span_ge s
    omega
  | arm a => have := weights_children_arm a; simp only [fields, weight, arm.sizeOf_spec]; omega
  | parameter p =>
    obtain ⟨s, n, p, args⟩ := p
    have := weights_exprs args
    cases p <;> simp [fields, ofExpr, ofExpr?, NodeField.children, weight] <;> omega
  | exchanged n =>
    obtain ⟨s, n, a⟩ := n
    cases a <;> exact Nat.lt_add_right _ Nat.one_pos
  | varDecl d =>
    have := weights_children_varDecl d; simp only [fields, weight, varDecl.sizeOf_spec]; omega
  | enumDecl d =>
    have := weights_children_enumDecl d; simp only [fields, weight, enumDecl.sizeOf_spec]; omega

/-- A node in a list weighs no more than the list. -/
theorem weight_le_of_mem {n : Node} {ns : List Node} (h : n ∈ ns) : n.weight ≤ weights ns := by
  induction ns with
  | nil => simp at h
  | cons m rest ih =>
    rcases List.mem_cons.1 h with rfl | h
    · simp
    · have := ih h; simp; omega

/-- A child weighs less than its parent. -/
theorem weight_lt_of_mem_children {c n : Node} (h : c ∈ n.children) : c.weight < n.weight :=
  Nat.lt_of_le_of_lt (weight_le_of_mem h) (weights_children_lt n)

/-- The nodes of a worklist and everything below them: the first node is visited and its children
take its place at the front. -/
def visit (pending : List Node) : List Node :=
  match pending with
  | [] => []
  | n :: rest => n :: visit (n.children ++ rest)
termination_by weights pending
decreasing_by
  have := weights_children_lt n
  simp; omega

/-- A node and everything below it, each node before its children. -/
def walk (n : Node) : List Node := visit [n]

end ScriptEngine.Node
