import ScriptEngine.Machine.State
import ScriptEngine.Text.Search

/-!
# Operators on values

Arithmetic on numbers is exact, and the remainder has the sign of the divisor. A string can be
joined with a string, a number, a boolean or null. Numbers are ordered by size and strings by code
points; everything can be tested for equality.

* `Number.calculate` is the arithmetic of numbers, with the causes for which it has no result.
* `Heap.arithmetic`, `Heap.comparison` and `Heap.membership` are the operators on values.
* `Eval.arithmetic` fails with the host when a string is joined with a number that has too many digits.
-/

namespace ScriptEngine

namespace Number

/-- The causes for which an operation on numbers has no result. -/
inductive ArithmeticError where
  | divisionByZero
  | moduloByZero
  | fractionalExponent
  | zeroToNegativePower
deriving DecidableEq

namespace ArithmeticError

/-- The kind of fault of a cause. -/
def kind : ArithmeticError → FaultKind
  | fractionalExponent => .value
  | _ => .divisionByZero

/-- The message of a cause. -/
def message : ArithmeticError → Text
  | divisionByZero => "division by zero"
  | moduloByZero => "modulo by zero"
  | fractionalExponent => "exponent must be a whole number"
  | zeroToNegativePower => "zero raised to a negative power"

end ArithmeticError

/-- The remainder of a division whose quotient is rounded down. -/
def floorMod (a b : Rat) : Rat := a - (a / b).floor * b

/-- A power with a whole exponent. -/
def power (a : Rat) (n : Int) : Rat := Rat.zpow a n

/-- The result of an operation on two numbers. -/
def calculate (op : ArithOp) (a b : Number) : Except ArithmeticError Rat :=
  match op with
  | .add => .ok (a.value + b.value)
  | .sub => .ok (a.value - b.value)
  | .mul => .ok (a.value * b.value)
  | .div => if b.value = 0 then .error .divisionByZero else .ok (a.value / b.value)
  | .mod => if b.value = 0 then .error .moduloByZero else .ok (floorMod a.value b.value)
  | .pow =>
    match b.whole? with
    | none => .error .fractionalExponent
    | some n => if a.value = 0 ∧ n < 0 then .error .zeroToNegativePower else .ok (power a.value n)

end Number

namespace ArithOp

/-- The operator in messages. -/
def text : ArithOp → Text
  | add => "+" | sub => "-" | mul => "*" | div => "/" | mod => "%" | pow => "**"

end ArithOp

namespace CompareOp

/-- The operator in messages. -/
def text : CompareOp → Text
  | eq => "==" | ne => "!=" | lt => "<" | gt => ">" | le => "<=" | ge => ">="

end CompareOp

namespace LogicalOp

/-- The operator in messages. -/
def text : LogicalOp → Text
  | and => "&&" | or => "||"

end LogicalOp

/-- The fault of an operator that is not defined for the kinds of its operands. -/
def operandMismatch (operator : Text) (left right : Value) (span : Span) : Fault :=
  { kind := .type, span := span,
    message := "unsupported operand types for " ++ operator ++ ": " ++ left.typeName ++ " and " ++
      right.typeName }

namespace Heap

/-- The text that a value adds to a string: strings, numbers, booleans and null have one. -/
def joinedText? (h : Heap) (v : Value) : Option Text :=
  match v.payload with
  | .string t => some t
  | .number _ | .bool _ | .null => h.display? v
  | _ => none

/-- The result of an arithmetic operator. -/
def arithmetic (h : Heap) (op : ArithOp) (left right : Value) (span : Span) : Except Fault Value :=
  match left.payload, right.payload with
  | .number a, .number b =>
    match Number.calculate op a b with
    | .ok q => .ok (.number q)
    | .error e => .error { kind := e.kind, message := e.message, span := span }
  | .string s, _ =>
    match op, h.joinedText? right with
    | .add, some t => .ok (.string (s ++ t))
    | _, _ => .error (operandMismatch op.text left right span)
  | _, _ => .error (operandMismatch op.text left right span)

/-- Whether two ordered things stand as an operator says, given whether one is before the other. -/
def ordered (op : CompareOp) (before after : Bool) : Bool :=
  match op with
  | .eq => !before && !after
  | .ne => before || after
  | .lt => before
  | .gt => after
  | .le => !after
  | .ge => !before

/-- The result of a comparison. -/
def comparison (h : Heap) (op : CompareOp) (left right : Value) (span : Span) :
    Except Fault Bool :=
  match op with
  | .eq => .ok (h.equal left right)
  | .ne => .ok (!h.equal left right)
  | op =>
    match left.payload, right.payload with
    | .number a, .number b => .ok (ordered op (a.value < b.value) (b.value < a.value))
    | .string s, .string t => .ok (ordered op (Text.before s t) (Text.before t s))
    | _, _ => .error (operandMismatch op.text left right span)

/-- Whether a value is an element of an array, a key of an object or a part of a string. -/
def membership (h : Heap) (item container : Value) (span : Span) : Except Fault Bool :=
  match container.payload, item.payload with
  | .array id, _ => .ok ((h.array id).any fun element => h.equal item element)
  | .object id, .string key => .ok ((h.object id).contains key)
  | .string whole, .string part => .ok (Text.occursIn part whole)
  | _, _ => .error
    { kind := .type, span := span,
      message := "cannot test membership of a " ++ item.typeName ++ " in a " ++
        container.typeName }

end Heap

/-- Whether an operator is to join a string with a number that the host does not write. -/
def ArithOp.joinsTooLong (op : ArithOp) (left right : Value) : Bool :=
  match op, left.payload, right.payload with
  | .add, .string _, .number x => !Number.isWritable x.value
  | _, _, _ => false

/-- The result of an arithmetic operator, if the host can write it. -/
def Eval.arithmetic (op : ArithOp) (left right : Value) (span : Span) : Eval Value :=
  if op.joinsTooLong left right then Eval.unprintable .tooLong else Eval.readHeap (·.arithmetic op left right span)

/-- An operation that does not join a string with a number that is too long is one on the heap. -/
theorem Eval.arithmetic_eq {op : ArithOp} {left right : Value} {span : Span} (hj : op.joinsTooLong left right = false) :
    Eval.arithmetic op left right span = Eval.readHeap (·.arithmetic op left right span) :=
  if_neg (ne_true_of_eq_false hj)

end ScriptEngine
