import ScriptEngine.Eval.Interp
import ScriptEngine.Value.Datum

/-!
# Arguments of native functions

What a native function expects of an argument, and the fault that names the function, the position
and the kind if the argument is of another kind.
-/

namespace ScriptEngine.Native

variable (f : Native) (position : Nat) (span : Option Span) (v : Value)

/-- A fault whose message starts with the name of the function. -/
def reject {α : Type} (kind : FaultKind) (message : Text) : Eval α :=
  Eval.failWith kind (f.name ++ "()" ++ message) span

/-- The fault of an argument of the wrong kind. -/
def wrongKind {α : Type} (expected : Kind) : Eval α :=
  f.reject span .type (" argument " ++ Text.ofNat position ++ " must be a " ++ expected.name ++
    ", not a " ++ v.typeName)

/-- A number. -/
def number : Eval Number :=
  match v.payload with
  | .number x => return x
  | _ => f.wrongKind position span v .number

/-- A whole number. -/
def whole : Eval Int := do
  match (← f.number position span v).whole? with
  | some n => return n
  | none =>
    f.reject span .value (" argument " ++ Text.ofNat position ++ " must be a whole number")

/-- A string. -/
def text : Eval Text :=
  match v.payload with
  | .string t => return t
  | _ => f.wrongKind position span v .string

/-- The cell of an array. -/
def arrayCell : Eval Nat :=
  match v.payload with
  | .array id => return id
  | _ => f.wrongKind position span v .array

/-- The elements of an array. -/
def arrayItems : Eval (List Value) := do Eval.arrayItems (← f.arrayCell position span v)

/-- The cell of an object. -/
def objectCell : Eval Nat :=
  match v.payload with
  | .object id => return id
  | _ => f.wrongKind position span v .object

/-- The cell of a reference. -/
def referenceCell : Eval Nat :=
  match v.payload with
  | .reference id => return id
  | _ => f.wrongKind position span v .reference

/-- The byte that an element of a buffer stands for, by the plain data of the element. A reference
stands for its target, and the booleans for one and zero. -/
def byte : Eval Nat := do
  let refuse {α : Type} (sort : Text) : Eval α :=
    f.reject span .value (": '" ++ sort ++ "' object cannot be interpreted as an integer")
  let inRange (n : Int) : Eval Nat :=
    if 0 ≤ n ∧ n < 256 then return n.toNat
    else f.reject span .value ": bytes must be in range(0, 256)"
  match ← Eval.readEndless (·.toDatum? v) with
  | .null => refuse "NoneType"
  | .bool b => inRange (if b then 1 else 0)
  | .number q =>
    match (Number.ofRat q).whole? with
    | some n => inRange n
    | none => refuse "Fraction"
  | .text _ => refuse "str"
  | .list _ => refuse "list"
  | .object _ => refuse "dict"
  | .handle _ => refuse "Value"

/-- The bytes of a buffer. -/
def bytes : Eval (List Nat) := do
  (← f.arrayItems position span v).mapM fun item => f.byte span item

end ScriptEngine.Native
