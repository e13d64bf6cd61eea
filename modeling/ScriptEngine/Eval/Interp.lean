import ScriptEngine.Machine.State

/-!
# Interpreters by level

Evaluation is recursive through expressions, statements and calls. An `Interp` is what a construct
uses to evaluate its parts. Constructs are written without recursion over an `Interp`, and the
interpreter of level `n + 1` is made of the constructs over the interpreter of level `n`. The level
is the fuel: loops may take as many rounds as the level says, and at level zero everything ends with
`Exit.exhausted`.
-/

namespace ScriptEngine

/-- How the parts of a construct are evaluated. -/
structure Interp where
  fuel : Nat
  eval : Expr → Nat → Eval Value
  exec : List Stmt → Nat → Eval Value
  call : Value → List Value → Option Span → Eval Value

namespace Interp

/-- The interpreter without fuel. -/
def exhausted : Interp :=
  { fuel := 0, eval := fun _ _ => Eval.exit .exhausted, exec := fun _ _ => Eval.exit .exhausted,
    call := fun _ _ _ => Eval.exit .exhausted }

variable (I : Interp)

/-- Evaluates expressions in order. -/
def evalList (frame : Nat) : List Expr → Eval (List Value)
  | [] => return []
  | e :: rest => do
    let v ← I.eval e frame
    return v :: (← evalList frame rest)

end Interp

end ScriptEngine
