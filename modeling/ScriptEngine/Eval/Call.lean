import ScriptEngine.Native.Run

/-!
# Calls

A call of a function binds its parameters in a new frame, checks the constraints on them there, and
runs the body one call deeper. A return ends the body; a break or continue that leaves it is a fault.

* `bindings` says which parameter gets which argument.
* `Interp.callClosure` is a call of a function, `Interp.apply` one of any value that can be called.
-/

namespace ScriptEngine

/-- What a parameter is bound to: one argument, or an array of several. -/
inductive Argument where
  | one (v : Value)
  | rest (vs : List Value)

/-- Gives parameters the arguments in order, and null when there are too few. -/
def positional (parameters : List Parameter) (args : List Value) : List (Text × Argument) :=
  parameters.zipIdx.map fun (p, i) => (p.name, .one (args.getD i .null))

/-- What the parameters of a function are bound to, in the order in which they are bound, unless
there are too many arguments. Parameters before the variadic one take arguments from the front, those
after it from the back, and it takes the rest. -/
def bindings (f : FunctionDef) (args : List Value) : Option (List (Text × Argument)) :=
  match f.variadicIndex? with
  | none =>
    if f.parameters.length < args.length then none else some (positional f.parameters args)
  | some k =>
    let leading := f.parameters.take k
    let trailing := f.parameters.drop (k + 1)
    let others := args.drop k
    let split := others.length - trailing.length
    some (positional leading args ++ positional trailing (others.drop split) ++
      [(variadicName, .rest (others.take split))])

/-- How messages name the predicate of a parameter. -/
def predicateName : Expr → Text
  | .name _ n => n
  | .member _ object member => predicateName object ++ "." ++ member
  | _ => "<predicate>"

namespace Eval

/-- Runs a body one call deeper, and restores the depth however it ends. -/
def deeper (depth : Nat) (body : Eval Value) : Eval (Except Exit Value) := do
  modify fun m => { m with depth := depth + 1 }
  let outcome ← attempt body
  modify fun m => { m with depth := depth }
  return outcome

/-- The fault of a break or continue that leaves no loop. -/
def outsideLoop {α : Type} (keyword : Text) (span : Span) : Eval α :=
  failWith .runtime ("'" ++ keyword ++ "' outside of a loop") span

end Eval

namespace Interp

variable (I : Interp)

/-- Binds the parameters of a function in the frame of a call. -/
def bindParameters (c : Closure) (frame : Nat) (args : List Value) (span : Option Span) :
    Eval Unit := do
  match bindings c.definition args with
  | none =>
    let n := c.definition.parameters.length
    Eval.failWith .arity (c.name ++ "() takes " ++ Text.ofNat n ++ " argument" ++
      (if n = 1 then ([] : Text) else "s") ++ " but " ++ Text.ofNat args.length ++
      " were given") span
  | some bound =>
    bound.forM fun (name, argument) => do
      let v ← match argument with
        | .one v => pure v
        | .rest vs => Eval.newArray vs.toArray
      Eval.define frame (some name) v false none

/-- Checks the predicate of a parameter. -/
def checkParameter (c : Closure) (frame : Nat) (span : Option Span) (p : Parameter) :
    Eval Unit := do
  match p.predicate with
  | none => return ()
  | some predicate =>
    let test ← I.eval predicate frame
    let extra ← I.evalList frame p.predicateArgs
    let argument ← Eval.lookup frame p.name none
    let result ← I.call test (argument :: extra) span
    match result.payload with
    | .bool true => return ()
    | _ =>
      Eval.fail
        { kind := .argumentType, span := span, data := some argument,
          message := "argument '" ++ p.name ++ "' of " ++ c.name ++ "() failed predicate " ++
            predicateName predicate ++ " (got " ++ (← Eval.quotedForm argument) ++ ")" }

/-- Checks a where clause. -/
def checkClause (c : Closure) (frame : Nat) (span : Option Span) (clause : Expr) : Eval Unit := do
  let result ← I.eval clause frame
  match result.payload with
  | .bool true => return ()
  | .bool false =>
    Eval.failWith .argumentType ("where clause of " ++ c.name ++ "() rejected its arguments") span
  | _ =>
    Eval.failWith .type ("where clause of " ++ c.name ++ "() must be a boolean, got a " ++
      result.typeName) clause.span

/-- Checks the predicates of the parameters and then the where clauses. -/
def checkConstraints (c : Closure) (frame : Nat) (span : Option Span) : Eval Unit := do
  c.definition.parameters.forM (I.checkParameter c frame span)
  c.definition.whereClauses.forM (I.checkClause c frame span)

/-- The value of a body by the way it ended. A recursion without end becomes a fault in the innermost call. -/
def bodyResult (c : Closure) (span : Option Span) : Except Exit Value → Eval Value
  | .error (.returned v _) => return v
  | .error (.broke s) => Eval.outsideLoop "break" s
  | .error (.continued s) => Eval.outsideLoop "continue" s
  | .error (.crashed ⟨.recursion, _⟩) =>
    Eval.failWith .recursion ("host recursion limit reached in " ++ c.name ++ "()") span
  | outcome => Eval.resume outcome

/-- Checks that a function named as a predicate gives a boolean. -/
def checkPredicate (c : Closure) (result : Value) (span : Option Span) : Eval Value :=
  match c.definition.name with
  | some name =>
    if isPredicateName name ∧ result.kind ≠ .boolean then
      Eval.failWith .type ("predicate " ++ name ++ "() must return a boolean, got a " ++
        result.typeName) span
    else return result
  | none => return result

/-- Calls a function. -/
def callClosure (c : Closure) (args : List Value) (span : Option Span) : Eval Value := do
  let m ← get
  let depth := m.depth
  let limit := m.settings.callLimit
  if limit.count ≤ depth then
    Eval.failWith .recursion ("maximum call depth (" ++ limit.shown ++ ") exceeded in " ++
      c.name ++ "()") span
  else
    let frame ← Eval.childFrame c.frame ("call:" ++ c.name) c.definition.isPure
    bindParameters c frame args span
    I.checkConstraints c frame span
    let outcome ← Eval.deeper depth (I.exec c.definition.body.statements frame)
    checkPredicate c (← bodyResult c span outcome) span

/-- Applies the constructor of a variant: without an argument it is its own value, with one it stamps
the argument. -/
def construct (f : Value) (variant : VariantTag) (args : List Value) (span : Option Span) :
    Eval Value :=
  match args with
  | [] => return f
  | [v] => return v.stamped variant
  | args =>
    Eval.failWith .arity ("variant " ++ variant.render ++ " takes one payload argument, got " ++
      Text.ofNat args.length) span

/-- Calls a value. -/
def apply (f : Value) (args : List Value) (span : Option Span) : Eval Value := do
  match f.payload, f.variant? with
  | .function id, _ =>
    match (← Eval.heap).closures[id]? with
    | some c => I.callClosure c args span
    | none => return .null
  | .native n, _ => n.call I args span
  | .null, some variant => construct f variant args span
  | _, _ => Eval.failWith .type ("a " ++ f.typeName ++ " is not callable") span

end Interp

end ScriptEngine
