import ScriptEngine.Value.Heap
import ScriptEngine.Text.Quoted

/-!
# Frames and names

Frames form chains through their parents, and a name stands for the nearest binding of it. The frame
of a call of a pure function is a boundary: a name found beyond it must be in a global frame.

* `Heap.resolve` finds the frame of a name, `Heap.lookup` and `Heap.assign` read and change the
  binding there.
* `Heap.define` adds a binding to one frame. A constant is never bound again.
* `Heap.declareExport` and `Heap.export?` are the names a module offers.
-/

namespace ScriptEngine

/-- The nameless name as messages show it. -/
def BindingName.shown (n : BindingName) : Text := n.getD "None"

namespace Heap

/-- A frame and its ancestors, innermost first. A parent is older than its children. -/
def chain (h : Heap) (id : Nat) : List Nat :=
  match (h.frame id).parent with
  | some p => if p < id then id :: h.chain p else [id]
  | none => [id]
termination_by id

/-- The outermost frame of a chain. -/
def rootFrame (h : Heap) (id : Nat) : Nat := (h.chain id).getLastD id

/-- The file the code of a frame came from, if it is known. -/
def moduleFile? (h : Heap) (id : Nat) : Option Text :=
  (h.chain id).findSome? fun f => (h.frame f).file.filter (· ≠ [])

/-- A new frame inside another. -/
def childFrame (h : Heap) (parent : Nat) (name : Text) (isPure : Bool := false) : Nat × Heap :=
  h.newFrame { parent := some parent, name := name, isPure := isPure }

/-- A frame with a name bound. -/
def bind (h : Heap) (id : Nat) (name : BindingName) (value : Value) (constant : Bool) : Heap :=
  h.modifyFrame id fun f =>
    { f with bindings := f.bindings.insert name value,
             constants := if constant then f.constants ++ [name] else f.constants }

/-- The fault of binding a constant of the frame again. -/
def redeclared (name : BindingName) (span : Option Span) : Fault :=
  { kind := .immutable, message := "cannot redeclare constant '" ++ name.shown ++ "'",
    span := span }

/-- Whether a name is a constant of a frame. -/
def isConstant (h : Heap) (id : Nat) (name : BindingName) : Bool :=
  (h.frame id).constants.contains name

/-- Binds a name in a frame. -/
def define (h : Heap) (id : Nat) (name : BindingName) (value : Value) (constant : Bool)
    (span : Option Span) : Except Fault Heap :=
  if h.isConstant id name then .error (redeclared name span)
  else .ok (h.bind id name value constant)

/-- The fault of a pure function that reaches a variable of a frame around it. -/
def capturedFault (name : Text) (span : Option Span) : Fault :=
  { kind := .scopeViolation,
    message := "pure function cannot access captured variable '" ++ name ++ "'", span := span,
    hints := ["pure functions may only use their parameters and globals"] }

/-- The nearest frame that binds a name; `crossed` tells whether the boundary of a pure function
lies behind. -/
def resolveFrom (h : Heap) (name : Text) (span : Option Span) (crossed : Bool) (id : Nat) :
    Except Fault Nat :=
  let f := h.frame id
  if f.bindings.contains (some name) then
    if crossed && !f.isGlobal then .error (capturedFault name span) else .ok id
  else match f.parent with
    | some p =>
      if p < id then h.resolveFrom name span (crossed || f.isPure) p
      else .error { kind := .name, message := "'" ++ name ++ "' is not defined", span := span }
    | none => .error { kind := .name, message := "'" ++ name ++ "' is not defined", span := span }
termination_by id

/-- The frame that a name resolves to from a frame. -/
def resolve (h : Heap) (id : Nat) (name : Text) (span : Option Span) : Except Fault Nat :=
  h.resolveFrom name span false id

/-- The value of a name. -/
def lookup (h : Heap) (id : Nat) (name : Text) (span : Option Span) : Except Fault Value := do
  let f ← h.resolve id name span
  return ((h.frame f).bindings.get? (some name)).getD .null

/-- The frame in which a name can be given a new value. -/
def assignable (h : Heap) (id : Nat) (name : Text) (span : Option Span) : Except Fault Nat := do
  let f ← h.resolve id name span
  if h.isConstant f (some name) then
    throw { kind := .immutable,
            message := "cannot assign to constant '" ++ name ++ "'", span := span }
  return f

/-- Gives a name a new value where it is bound. -/
def assign (h : Heap) (id : Nat) (name : Text) (value : Value) (span : Option Span) :
    Except Fault Heap := do
  let f ← h.assignable id name span
  return h.bind f (some name) value false

/-- The nearest frame that binds a name, boundaries of pure functions aside. -/
def owner? (h : Heap) (id : Nat) (name : Text) : Option Nat :=
  (h.chain id).find? fun f => (h.frame f).bindings.contains (some name)

/-- Offers a binding of a frame to importers, under an alias if one is given. -/
def declareExport (h : Heap) (id : Nat) (name : BindingName) (altName : Option Text)
    (span : Option Span) : Except Fault Heap :=
  if (h.frame id).bindings.contains name then
    let offered : BindingName := match altName.filter (· ≠ []) with
      | some a => some a
      | none => name
    .ok (h.modifyFrame id fun f => { f with exports := f.exports.insert offered name })
  else .error { kind := .name,
                message := "cannot export undefined name '" ++ name.shown ++ "'", span := span }

/-- The names a frame offers. -/
def exportedNames (h : Heap) (id : Nat) : List BindingName := (h.frame id).exports.keys

/-- The value of an offered name. The nameless binding cannot be read. -/
def export? (h : Heap) (id : Nat) (name : BindingName) : Option Value := do
  let inner ← (h.frame id).exports.get? name
  let inner ← inner
  (h.frame id).bindings.get? (some inner)

end Heap

/-- A frame in a listing: its name and its bindings in alphabetical order. -/
def Frame.listing (f : Frame) : Text :=
  let names := (f.bindings.keys.map BindingName.shown).mergeSort fun a b => !Text.before b a
  "Scope(" ++ f.name.quoted ++ ", [" ++ Text.joinWith ", " (names.map Text.quoted) ++ "])"

end ScriptEngine
