import ScriptEngine.Eval.Access
import ScriptEngine.Eval.Arithmetic
import ScriptEngine.Eval.Call
import ScriptEngine.Eval.Purity
import ScriptEngine.Eval.Range

/-!
# Expressions

What each form of expression does, given an interpreter for its parts.

* **Operators** evaluate their operands from left to right; `&&` and `||` leave out the right one if
  the left one decides.
* **Targets** of assignments have their container and index evaluated once, before the value.
* **Loops** run their body until the condition fails or a break leaves it, and give null.
* A **try** hands throws and errors of the engine to its handler, and always runs its cleanup.
* A **match** runs the first arm whose test holds.
-/

namespace ScriptEngine.Interp

variable (I : Interp)

/-- The truth of a condition. -/
def condition (e : Expr) (frame : Nat) (construct : Text) : Eval Bool := do
  let v ← I.eval e frame
  match v.payload with
  | .bool b => return b
  | _ =>
    Eval.failWith .type (construct ++ " condition must be a boolean, got a " ++ v.typeName) e.span

/-- The value of a literal. -/
def literal : Literal → Value
  | .number q => .number q
  | .string t => .string t
  | .bool b => .bool b
  | .null => .null

/-- Runs the statements of a block in a frame of their own. -/
def block (b : Block) (frame : Nat) : Eval Value := do
  I.exec b.statements (← Eval.childFrame frame "block")

/-! ## Operators -/

/-- Whether a value is what a variant, an enum, a predicate or another value says. -/
def isTest (left right : Value) (span : Span) : Eval Bool := do
  match right.variant?, right.enumBase? with
  | some variant, _ => return left.variant? = some variant
  | none, some enum => return left.variant?.any (·.enum = enum)
  | none, none =>
    if right.isCallable then
      let result ← I.call right [left] span
      match result.payload with
      | .bool b => return b
      | _ =>
        Eval.failWith .type ("'is' predicate must return a boolean, got a " ++ result.typeName)
          span
    else Eval.equal left right

/-- The result of a binary operator. -/
def binary (op : BinaryOp) (left right : Value) (span : Span) : Eval Value := do
  match op with
  | .arith op => Eval.arithmetic op left right span
  | .compare op => return .bool (← Eval.readHeap (·.comparison op left right span))
  | .within => return .bool (← Eval.readHeap (·.membership left right span))
  | .isVariant => return .bool (← I.isTest left right span)

/-- An operand of a logical operator. -/
def logicalOperand (op : LogicalOp) (side : Text) (e : Expr) (frame : Nat) :
    Eval (Value × Bool) := do
  let v ← I.eval e frame
  match v.payload with
  | .bool b => return (v, b)
  | _ =>
    Eval.failWith .type (side ++ " operand of " ++ op.text ++ " must be a boolean, got a " ++
      v.typeName) e.span

/-- The truth of the left operand with which a logical operator leaves out the right one. -/
def decisive : LogicalOp → Bool
  | .and => false
  | .or => true

/-- The result of a logical operator. -/
def logical (left : Expr) (op : LogicalOp) (right : Expr) (frame : Nat) : Eval Value := do
  let (v, b) ← I.logicalOperand op "left" left frame
  if b = decisive op then return v
  else return (← I.logicalOperand op "right" right frame).1

/-- The result of a unary operator. -/
def unary (op : UnaryOp) (v : Value) (span : Span) : Eval Value := do
  match op, v.payload with
  | .not, .bool b => return .bool !b
  | .not, _ => Eval.failWith .type ("cannot negate a " ++ v.typeName) span
  | .neg, .number x => return .number (-x.value)
  | .neg, _ => Eval.failWith .type ("bad operand type for unary -: " ++ v.typeName) span
  | .pos, .number x => return .number x.value
  | .pos, _ => Eval.failWith .type ("bad operand type for unary +: " ++ v.typeName) span
  | .typeof, _ => return .string v.typeName
  | .length, _ =>
    match (← Eval.heap).length? v with
    | some n => return .number n
    | none => Eval.fail (Heap.noLength v span)

/-! ## Targets -/

/-- A target of an assignment whose parts have been evaluated. -/
inductive Target where
  | name (frame : Nat) (name : Text) (span : Span)
  | member (object : Value) (name : Text) (span : Span)
  | index (object index : Value) (span : Span)

/-- The value of a target. -/
def Target.read : Target → Eval Value
  | .name frame n span => Eval.lookup frame n span
  | .member object n span => Eval.readHeap (·.member object n span)
  | .index object i span => Eval.index object i span

/-- Gives a target a value. -/
def Target.write (v : Value) : Target → Eval Unit
  | .name frame n span => Eval.assign frame n v span
  | .member object n span => Eval.setAt object (.string n) v span
  | .index object i span => Eval.setAt object i v span

/-- Evaluates the parts of a target. -/
def target (e : Expr) (frame : Nat) : Eval Target := do
  match e with
  | .name span n => return .name frame n span
  | .member span object n => return .member (← I.eval object frame) n span
  | .index span object i =>
    let object ← I.eval object frame
    return .index object (← I.eval i frame) span
  | e => Eval.failWith .runtime "invalid assignment target" e.span

/-- An assignment. -/
def assignment (left : Expr) (op : AssignOp) (right : Expr) (span : Span) (frame : Nat) :
    Eval Value := do
  let place ← I.target left frame
  let v ← match op.arith? with
    | none => I.eval right frame
    | some op => do
      let current ← place.read
      let operand ← I.eval right frame
      Eval.arithmetic op current operand span
  place.write v
  return v

/-- How messages write an update. -/
def updateText : UpdateOp → Text
  | .increment => "++"
  | .decrement => "--"

/-- By how much an update changes a number. -/
def updateDelta : UpdateOp → Rat
  | .increment => 1
  | .decrement => -1

/-- Counts a target up or down. -/
def update (op : UpdateOp) (e : Expr) (yieldsNew : Bool) (span : Span) (frame : Nat) :
    Eval Value := do
  let place ← I.target e frame
  let current ← place.read
  match current.payload with
  | .number x =>
    let updated : Value := .number (x.value + updateDelta op)
    place.write updated
    return if yieldsNew then updated else current
  | _ =>
    Eval.failWith .type ("cannot apply " ++ updateText op ++ " to a " ++ current.typeName) span

/-! ## Ranges -/

/-- The parts of a range expression. -/
structure RangeParts where
  span : Span
  start : Expr
  stop : Expr
  withStart : Bool
  withStop : Bool
  step : Option Expr

/-- The numbers that a range denotes; inside a container of a given size negative bounds count from
its end. -/
def progression (r : RangeParts) (size : Option Nat) (frame : Nat) : Eval Progression := do
  let bound (e : Expr) (what : Text) : Eval Int := do
    let v ← I.eval e frame
    Eval.readHeap fun _ => rangeNumber v what r.span
  let start ← bound r.start "start"
  let stop ← bound r.stop "end"
  let place (n : Int) : Int := match size with
    | some size => boundIn size n
    | none => n
  let step ← match r.step with
    | none => pure none
    | some e => do
      let v ← I.eval e frame
      pure (some (← Eval.readHeap fun _ => rangeNumber v "step" e.span))
  match Progression.between (place start) (place stop) step r.withStart r.withStop with
  | .ok p => return p
  | .error e => Eval.failWith .value e.message ((r.step.map Expr.span).getD r.span)

/-- A range as an array. -/
def rangeArray (r : RangeParts) (frame : Nat) : Eval Value := do
  let p ← I.progression r none frame
  Eval.newArray (p.toList.map fun n => .number n).toArray

/-- The elements of a value at the numbers of a progression from position `i` on. The first number
that is no index of the value ends it. -/
def picked (v : Value) (p : Progression) (span : Span) (i : Nat) : Nat → Eval (List Value)
  | 0 => return []
  | left + 1 => do
    let item ← Eval.index v (.number (p.get i)) span
    return item :: (← picked v p span (i + 1) left)

/-- The part of an array or a string that a range picks. -/
def sliceBy (v : Value) (r : RangeParts) (frame : Nat) : Eval Value := do
  if v.kind ≠ .array ∧ v.kind ≠ .string then
    Eval.failWith .type ("a " ++ v.typeName ++ " cannot be sliced") r.span
  else
    let size := ((← Eval.heap).length? v).getD 0
    let p ← I.progression r (some size) frame
    Eval.gathered v (← picked v p r.span 0 p.count)

/-! ## Loops -/

/-- Runs the body of a loop once and tells whether the loop goes on. -/
def round (body : Eval Value) : Eval Bool := do
  match ← Eval.attempt body with
  | .ok _ => return true
  | .error (.continued _) => return true
  | .error (.broke _) => return false
  | .error e => Eval.exit e

/-- Runs rounds while there are any, at most as many as the fuel allows. -/
def rounds (test : Eval Bool) (body : Eval Value) : Nat → Eval Value
  | 0 => Eval.exit .exhausted
  | fuel + 1 => do
    if ← test then
      if ← round body then rounds test body fuel else return .null
    else return .null

/-- A round of a loop over elements: the index and the element are bound in a frame of its own. -/
def forRound (indexName : Option Text) (valueName : Text) (body : Block) (frame : Nat)
    (index item : Value) : Eval Bool := do
  let inner ← Eval.childFrame frame "for"
  match indexName with
  | some n => Eval.define inner (some n) index false none
  | none => pure ()
  Eval.define inner (some valueName) item false none
  round (I.exec body.statements inner)

/-- Runs rounds over elements. -/
def forEach (turn : Value → Value → Eval Bool) : List (Value × Value) → Eval Value
  | [] => return .null
  | (index, item) :: rest => do
    if ← turn index item then forEach turn rest else return .null

/-- Runs rounds over the numbers of a progression from position `i` on. -/
def forNumbers (turn : Value → Value → Eval Bool) (p : Progression) (i : Nat) : Nat → Eval Value
  | 0 => return .null
  | left + 1 => do
    if ← turn (.number i) (.number (p.get i)) then forNumbers turn p (i + 1) left
    else return .null

/-- The elements that a loop goes over. -/
def elements (v : Value) (span : Span) : Eval (List (Value × Value)) := do
  let target ← Eval.readEndless (·.follow? v)
  match (← Eval.heap).pairs? target with
  | some pairs => return pairs
  | none => Eval.fail (Heap.notIterable target span)

/-- A loop over elements, or over the numbers of a range literal. -/
def forIn (indexName : Option Text) (valueName : Text) (iterable : Expr) (body : Block)
    (frame : Nat) : Eval Value := do
  let turn := I.forRound indexName valueName body frame
  match iterable with
  | .range span start stop withStart withStop step =>
    let p ← I.progression ⟨span, start, stop, withStart, withStop, step⟩ none frame
    forNumbers turn p 0 p.count
  | e => forEach turn (← elements (← I.eval e frame) e.span)

/-! ## Errors and matches -/

/-- The value that a handler receives for an exit, if it is one that handlers receive. -/
def caught? : Exit → Eval (Option Value)
  | .thrown v _ => return some v
  | .failed (.uncaught v _ _) => return some v
  | .failed e => return some (← Eval.onHeap fun h =>
      let data := match e with
        | .fault f => f.data
        | _ => none
      h.newError e.message e.caughtAs data e.diagnostic.span)
  | _ => return none

/-- Runs the handler of a try. -/
def handle (name : Option Text) (handler : Block) (frame : Nat) (error : Value) : Eval Value := do
  let inner ← Eval.childFrame frame "catch"
  match name with
  | some n => Eval.define inner (some n) error false none
  | none => pure ()
  I.exec handler.statements inner

/-- The guarded part of a try: its body, and its handler if the body failed. -/
def guarded (body : Block) (name : Option Text) (handler : Option Block) (frame : Nat) :
    Eval Value := do
  match ← Eval.attempt (I.block body frame), handler with
  | .error e, some handler =>
    match ← caught? e with
    | some error => I.handle name handler frame error
    | none => Eval.exit e
  | outcome, _ => Eval.resume outcome

/-- Runs a cleanup after an action, however that ended. The exit of the cleanup wins, unless the action
did not come to an end. -/
def withCleanup (action cleanup : Eval Value) : Eval Value := do
  match ← Eval.attempt action with
  | .error .exhausted =>
    let _ ← Eval.attempt cleanup
    Eval.exit .exhausted
  | outcome =>
    let _ ← cleanup
    Eval.resume outcome

/-- Notes that a try is entered and that it is left, however it ends. -/
def noted (cleanup : Block) (action : Eval Value) : Eval Value := do
  Eval.note .entered cleanup
  let outcome ← Eval.attempt action
  Eval.note .left cleanup
  Eval.resume outcome

/-- A try. -/
def tryCatch (body : Block) (name : Option Text) (handler cleanup : Option Block) (frame : Nat) :
    Eval Value :=
  match cleanup with
  | some cleanup =>
    noted cleanup <| withCleanup (I.guarded body name handler frame) do
      Eval.note .cleaning cleanup
      I.block cleanup frame
  | none => I.guarded body name handler frame

/-- Whether the subject of a match passes the test of an arm. -/
def armMatches (arm : MatchArm) (subject : Value) (frame : Nat) : Eval Bool := do
  match arm.test with
  | .otherwise => return true
  | .equals pattern => Eval.equal subject (← I.eval pattern frame)
  | .isVariant pattern => I.isTest subject (← I.eval pattern frame) arm.span
  | .compares op pattern =>
    let v ← I.eval pattern frame
    Eval.readHeap (·.comparison op subject v arm.span)

/-- Runs the first arm that matches. -/
def arms (subject : Value) (span : Span) (frame : Nat) : List MatchArm → Eval Value
  | [] => do
    Eval.failWith .noMatch ("no match arm matched " ++ (← Eval.quotedForm subject)) span
  | arm :: rest => do
    if ← I.armMatches arm subject frame then I.block arm.body frame
    else arms subject span frame rest

/-! ## Functions and calls -/

/-- Defines a function, under its name if it has one. -/
def function (f : FunctionDef) (frame : Nat) : Eval Value := do
  Eval.readHeap (·.checkPure frame f)
  let v ← Eval.onHeap (·.newClosure ⟨f, frame⟩)
  match f.name with
  | some n => Eval.define frame (some n) v false f.span
  | none => pure ()
  return v

/-- A call. The function of a method call is looked up before the arguments are evaluated. -/
def callExpr (callee : Expr) (args : List Expr) (span : Span) (frame : Nat) : Eval Value := do
  match callee with
  | .member memberSpan object name =>
    let receiver ← I.eval object frame
    let (f, takesReceiver) ← Eval.readHeap (·.method receiver name memberSpan)
    let values ← I.evalList frame args
    I.call f (if takesReceiver then receiver :: values else values) span
  | callee =>
    let f ← I.eval callee frame
    I.call f (← I.evalList frame args) span

/-- An element access, or a slice if the index is a range literal. -/
def indexExpr (object index : Expr) (span : Span) (frame : Nat) : Eval Value := do
  let v ← I.eval object frame
  match index with
  | .range rangeSpan start stop withStart withStop step =>
    I.sliceBy v ⟨rangeSpan, start, stop, withStart, withStop, step⟩ frame
  | index => Eval.index v (← I.eval index frame) span

/-- The entries of an object literal in order. -/
def entries (frame : Nat) : List ObjectEntry → Eval (List (Text × Value))
  | [] => return []
  | e :: rest => do
    let v ← I.eval e.value frame
    return (e.key, v) :: (← entries frame rest)

/-- The value of an expression. -/
def expr (e : Expr) (frame : Nat) : Eval Value := do
  match e with
  | .literal _ l => return literal l
  | .name span n => Eval.lookup frame n span
  | .binary span left op right =>
    let l ← I.eval left frame
    let r ← I.eval right frame
    I.binary op l r span
  | .logical _ left op right => I.logical left op right frame
  | .unary span op operand => unary op (← I.eval operand frame) span
  | .update span op e yieldsNew => I.update op e yieldsNew span frame
  | .assign span left op right => I.assignment left op right span frame
  | .member span object name =>
    let v ← I.eval object frame
    Eval.readHeap (·.member v name span)
  | .index span object index => I.indexExpr object index span frame
  | .call span callee args => I.callExpr callee args span frame
  | .array _ elements => do Eval.newArray (← I.evalList frame elements).toArray
  | .object _ entries => do Eval.newObject (.ofList (← I.entries frame entries))
  | .range span start stop withStart withStop step =>
    I.rangeArray ⟨span, start, stop, withStart, withStop, step⟩ frame
  | .block b => I.block b frame
  | .ifElse _ test thenBranch elseBranch =>
    if ← I.condition test frame "if" then I.block thenBranch frame
    else match elseBranch with
      | some e => I.eval e frame
      | none => return .null
  | .ternary _ test thenExpr elseExpr =>
    if ← I.condition test frame "ternary" then I.eval thenExpr frame else I.eval elseExpr frame
  | .whileLoop _ test body negate =>
    let construct : Text := if negate then "until" else "while"
    rounds (return (← I.condition test frame construct) != negate) (I.block body frame) I.fuel
  | .loop _ body => rounds (return true) (I.block body frame) I.fuel
  | .forIn _ indexName valueName iterable body => I.forIn indexName valueName iterable body frame
  | .tryCatch _ body name handler cleanup => I.tryCatch body name handler cleanup frame
  | .matchOn span subject arms => do I.arms (← I.eval subject frame) span frame arms
  | .function f => function f frame

end ScriptEngine.Interp
