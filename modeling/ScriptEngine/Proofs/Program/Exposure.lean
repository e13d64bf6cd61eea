import ScriptEngine.Program.Node

/-!
# Exposed jumps

A **jump** is a return, break or continue. What is written inside a construct may leave it by a jump,
unless the construct is where the jump ends: a function definition keeps all jumps of the function in,
and a loop the breaks and continues of its body.

* `Node.parts` are the children whose jumps leave a node as well, and `Node.loopBody?` is the child of
  which only the returns do.
* `Node.Exposes` is the resulting relation of a node and the jumps that may leave it.
* `FunctionDef.constraints` are the parts of a function that are evaluated before its body.
-/

namespace ScriptEngine

/-- The statements that leave the construct around them. -/
inductive Jump where
  | ret | brk | cont
deriving DecidableEq

namespace Node

/-- The children of a node that run as a part of it, the bodies of loops left out. -/
def parts : Node → List Node
  | expr (.function _) => []
  | expr (.whileLoop _ test _ _) => [expr test]
  | expr (.loop _ _) => []
  | expr (.forIn _ _ _ iterable _) => [expr iterable]
  | n => n.children

/-- The body of a loop. -/
def loopBody? : Node → Option Block
  | expr (.whileLoop _ _ body _) => some body
  | expr (.loop _ body) => some body
  | expr (.forIn _ _ _ _ body) => some body
  | _ => none

/-- A jump that is written in a node, at a place, may leave the node. -/
inductive Exposes : Node → Jump × Span → Prop
  | returnValue {s : Span} {e : Option Expr} : Exposes (stmt (.returnValue s e)) (.ret, s)
  | breakLoop {s : Span} : Exposes (stmt (.breakLoop s)) (.brk, s)
  | continueLoop {s : Span} : Exposes (stmt (.continueLoop s)) (.cont, s)
  | part {n c : Node} {j : Jump × Span} : c ∈ n.parts → Exposes c j → Exposes n j
  | body {n : Node} {b : Block} {s : Span} :
    n.loopBody? = some b → Exposes (block b) (.ret, s) → Exposes n (.ret, s)

/-! ## Parts by construct

The first parts of most nodes are found by evaluation; those behind a list or an optional part are
named here, by the field that holds them. -/

section

open NodeField

variable {s : Span} {e callee : Expr} {es : List Expr} {b h c : Block} {name : Option Text}

/-- What a field of a node holds is among the children of the node. -/
theorem mem_children {n c : Node} {field : String × NodeField} (hfield : field ∈ n.fields)
    (hc : c ∈ field.2.children) : c ∈ n.children :=
  List.mem_flatMap.2 ⟨field, hfield, hc⟩

/-- Parts are children. -/
theorem parts_subset_children (n : Node) : n.parts ⊆ n.children := by
  unfold parts
  split
  · exact List.nil_subset _
  · exact List.cons_subset.2 ⟨.head _, List.nil_subset _⟩
  · exact List.nil_subset _
  · exact List.cons_subset.2 ⟨mem_children (.tail _ (.tail _ (.head _))) (.head _), List.nil_subset _⟩
  · exact List.Subset.refl _

theorem loopBody?_mem_children {n : Node} (h : n.loopBody? = some b) : block b ∈ n.children := by
  unfold loopBody? at h
  split at h <;> cases h
  · exact .tail _ (.head _)
  · exact .head _
  · exact mem_children (.tail _ (.tail _ (.tail _ (.head _)))) (.head _)

theorem mem_children_ofExpr? {part : Option Expr} (he : part = some e) :
    expr e ∈ (ofExpr? part).children := by
  rw [he]
  exact .head _

@[simp] theorem parts_block (b : Block) : (block b).parts = b.statements.map .stmt :=
  List.append_nil (b.statements.map stmt)

theorem mem_parts_call (he : e ∈ es) : expr e ∈ (expr (.call s callee es)).parts :=
  mem_children (.tail _ (.head _)) (List.mem_map_of_mem he)

theorem mem_parts_array (he : e ∈ es) : expr e ∈ (expr (.array s es)).parts :=
  mem_children (.head _) (List.mem_map_of_mem he)

theorem mem_parts_object {entries : List ObjectEntry} {entry : ObjectEntry} (he : entry ∈ entries) :
    .entry entry ∈ (expr (.object s entries)).parts :=
  mem_children (.head _) (List.mem_map_of_mem he)

theorem mem_parts_step {start stop : Expr} {withStart withStop : Bool} :
    expr e ∈ (expr (.range s start stop withStart withStop (some e))).parts :=
  mem_children (.tail _ (.tail _ (.tail _ (.tail _ (.head _))))) (.head _)

theorem mem_parts_handler {cleanup : Option Block} :
    block h ∈ (expr (.tryCatch s b name (some h) cleanup)).parts :=
  mem_children (.tail _ (.tail _ (.head _))) (.head _)

theorem mem_parts_cleanup {handler : Option Block} :
    block c ∈ (expr (.tryCatch s b name handler (some c))).parts :=
  mem_children (.tail _ (.tail _ (.tail _ (.head _)))) (.head _)

theorem mem_parts_match {arms : List MatchArm} {a : MatchArm} (ha : a ∈ arms) :
    arm a ∈ (expr (.matchOn s e arms)).parts :=
  mem_children (.tail _ (.head _)) (List.mem_map_of_mem ha)

theorem body_mem_parts_arm {a : MatchArm} : block a.body ∈ (arm a).parts := by
  obtain ⟨s, test, body⟩ := a
  cases test <;> exact .head _

theorem mem_parts_varDecl {d : VarDecl} (he : e ∈ d.initializer) : expr e ∈ (varDecl d).parts :=
  mem_children (.tail _ (.head _)) (mem_children_ofExpr? he)

theorem mem_parts_bindings {d : VarDecl} (he : e ∈ d.initializer) :
    expr e ∈ (stmt (.bindings d)).parts := mem_parts_varDecl he

theorem mem_parts_predicateArgs {p : Parameter} (he : e ∈ p.predicateArgs) :
    expr e ∈ (parameter p).parts :=
  mem_children (.tail _ (.tail _ (.head _))) (List.mem_map_of_mem he)

theorem mem_parts_predicate {p : Parameter} (he : p.predicate = some e) :
    expr e ∈ (parameter p).parts :=
  mem_children (.tail _ (.head _)) (mem_children_ofExpr? he)

end

end Node

/-- The parts of a function that are evaluated when its parameters are bound, before its body. -/
def FunctionDef.constraints (f : FunctionDef) : List Node :=
  f.parameters.map .parameter ++ f.whereClauses.map .expr

/-- The constraints and the body of a function are below it. -/
theorem Node.constraints_subset_children (f : FunctionDef) :
    f.constraints ⊆ (Node.function f).children := by
  refine List.append_subset.2 ⟨fun n hn => ?_, fun n hn => ?_⟩
  · exact mem_children (.tail _ (.head _)) hn
  · exact mem_children (.tail _ (.tail _ (.tail _ (.head _)))) hn

theorem Node.body_mem_children (f : FunctionDef) : .block f.body ∈ (Node.function f).children :=
  mem_children (.tail _ (.tail _ (.head _))) (.head _)

end ScriptEngine
