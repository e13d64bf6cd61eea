import ScriptEngine.Eval.Expression
import ScriptEngine.Module.Loader

/-!
# Statements

What each form of statement does. Every statement has a value: an expression its own, a declaration that of what it
declares, an import null. The interpreter of each **level** evaluates the parts of a construct by the interpreter of the
level below.
-/

namespace ScriptEngine

namespace Interp

variable (I : Interp)

/-- Binds the names of a pattern to the elements of an array, and to null when there are too few. -/
def destructure (d : VarDecl) (items : List Value) (frame : Nat) : Eval Unit :=
  d.targets.zipIdx.forM fun (name, i) =>
    Eval.define frame (some name) (items.getD i .null) d.isConst d.span

/-- A declaration of variables. -/
def declareVariables (d : VarDecl) (frame : Nat) : Eval Value := do
  let v ← match d.initializer with
    | some e => I.eval e frame
    | none => pure .null
  match d.targets, v.payload with
  | [], _ => Eval.define frame d.name v d.isConst d.span
  | _, .array id => destructure d (← Eval.arrayItems id) frame
  | _, _ => Eval.failWith .type ("cannot destructure a " ++ v.typeName) d.span
  return v

/-- Fresh variants of an enum. -/
def freshVariants (enum : EnumTag) : List Text → Eval (List VariantTag)
  | [] => return []
  | name :: rest => do
    let id ← Eval.freshTag
    return ⟨enum, name, id⟩ :: (← freshVariants enum rest)

/-- A declaration of an enum: an object of its variants, as a constant. -/
def declareEnum (d : EnumDecl) (frame : Nat) : Eval Value := do
  let enum : EnumTag := ⟨d.name, ← Eval.freshTag⟩
  let variants ← freshVariants enum d.variants
  modify fun m => { m with declared := variants :: m.declared }
  let holder ← Eval.newObject (.ofList (variants.map fun t => (t.name, .ofVariant t)))
  let v := holder.setTag TagName.enumBase (.enumBase enum)
  Eval.define frame (some d.name) v true d.span
  return v

/-- The fault of importing a name that a module does not offer. Names that can be imported are listed;
if there is a nameless one among them, the list cannot be written. -/
def notExported (path : Text) (n : ExchangedName) (offered : List BindingName) : Eval Unit :=
  match offered.mapM id with
  | some names =>
    Eval.fail
      { kind := .resolution, span := n.span,
        message := "'" ++ n.name ++ "' is not exported by '" ++ path ++ "'",
        hints := ["exported names: " ++
          (if names = [] then ("none" : Text) else Text.joinWith ", " names)] }
  | none =>
    Eval.crash .type ("sequence item " ++ Text.ofNat (offered.idxOf none) ++
      ": expected str instance, NoneType found")

/-- Binds an imported name. -/
def importName (path : Text) (moduleFrame frame : Nat) (n : ExchangedName) : Eval Unit := do
  let h ← Eval.heap
  match h.export? moduleFrame (some n.name) with
  | some v => Eval.define frame (some n.localName) v false n.span
  | none => notExported path n (h.exportedNames moduleFrame)

/-- An import. -/
def importNames (i : Import) (frame : Nat) : Eval Value := do
  let importer := (← Eval.heap).moduleFile? frame
  let moduleFrame ← I.loadModule i.path importer i.span
  if i.everything then
    let h ← Eval.heap
    (h.exportedNames moduleFrame).forM fun name =>
      Eval.define frame name ((h.export? moduleFrame name).getD .null) false i.span
  else i.names.forM (importName i.path moduleFrame frame)
  return .null

/-- The names that a declaration binds. -/
def declaredNames : Declaration → List BindingName
  | .bindings d => if d.targets = [] then [d.name] else d.targets.map some
  | .enum d => [some d.name]
  | .function f => [f.name]

/-- A declaration. -/
def declare (d : Declaration) (frame : Nat) : Eval Value :=
  match d with
  | .bindings d => I.declareVariables d frame
  | .enum d => declareEnum d frame
  | .function f => function f frame

/-- The value of an optional expression. -/
def optional (e : Option Expr) (frame : Nat) : Eval Value :=
  match e with
  | some e => I.eval e frame
  | none => return .null

/-- Executes a statement. -/
def stmt (s : Stmt) (frame : Nat) : Eval Value := do
  match s with
  | .expression _ e => I.eval e frame
  | .bindings d => I.declareVariables d frame
  | .returnValue span e => Eval.exit (.returned (← I.optional e frame) span)
  | .breakLoop span => Eval.exit (.broke span)
  | .continueLoop span => Eval.exit (.continued span)
  | .throwValue span e => Eval.exit (.thrown (← I.eval e frame) span)
  | .enum d => declareEnum d frame
  | .importNames i => I.importNames i frame
  | .exportDeclared span d =>
    let v ← I.declare d frame
    (declaredNames d).forM fun name => Eval.declareExport frame name none span
    return v
  | .exportNames _ names =>
    names.forM fun n => Eval.declareExport frame (some n.name) n.altName n.span
    return .null

/-- Executes statements in order; the value is that of the last one. -/
def stmts (frame : Nat) : List Stmt → Eval Value
  | [] => return .null
  | [s] => I.stmt s frame
  | s :: t :: rest => do
    let _ ← I.stmt s frame
    stmts frame (t :: rest)

end Interp

/-! ## Levels -/

namespace Interp

/-- The interpreter whose constructs have their parts evaluated by `below`. -/
def above (fuel : Nat) (below : Unit → Interp) : Interp where
  fuel := fuel
  eval e frame := (below ()).expr e frame
  exec s frame := (below ()).stmts frame s
  call f args span := (below ()).apply f args span

/-- The interpreter of a level. -/
def ofLevel : Nat → Interp
  | 0 => exhausted
  | n + 1 => above (n + 1) fun _ => ofLevel n

/-- The level at which sessions run: more than any run that ends in practice takes. -/
def sessionLevel : Nat := 1000000000000

/-- The interpreter of sessions. -/
def session : Interp := ofLevel sessionLevel

end Interp

end ScriptEngine
