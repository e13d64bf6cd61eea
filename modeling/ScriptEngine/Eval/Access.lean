import ScriptEngine.Machine.State
import ScriptEngine.Value.Prototype

/-!
# Members, elements and keys

* A **member** is a key of an object, or comes from a prototype. An object lacks no member: one that
  is not there is null.
* An **index** is a position in an array or a string, counted from the end if it is negative, or a
  key of an object. An array of indices picks several elements at once.
-/

namespace ScriptEngine

namespace Heap

/-- The member of a value. -/
def member (h : Heap) (v : Value) (name : Text) (span : Span) : Except Fault Value :=
  match h.ownMember? v name, h.inherited? v name with
  | some own, _ => .ok own
  | none, some method => .ok method
  | none, none =>
    if v.kind = .object then .ok .null
    else .error
      { kind := .type, span := span,
        message := "a " ++ v.typeName ++ " has no member '" ++ name ++ "'" }

/-- The function that a method call finds, and whether it takes the receiver as its first
argument: members of prototypes do, members of the receiver itself do not. -/
def method (h : Heap) (receiver : Value) (name : Text) (span : Span) :
    Except Fault (Value × Bool) :=
  match h.ownMember? receiver name, h.inherited? receiver name with
  | some own, _ => .ok (own, false)
  | none, some method => .ok (method, true)
  | none, none => .error
    { kind := .type, span := span,
      message := "a " ++ receiver.typeName ++ " has no method '" ++ name ++ "'" }

/-- The position that an index means in an array or a string of a given size. -/
def position (container index : Value) (size : Nat) (span : Span) : Except Fault Nat :=
  let index? := match index.payload with
    | .number x => x.whole?
    | _ => none
  match index? with
  | none => .error
    { kind := .type, span := span,
      message := container.typeName ++ " indices must be whole numbers, not " ++ index.typeName }
  | some i =>
    let place := if i < 0 then i + size else i
    if 0 ≤ place ∧ place < size then .ok place.toNat
    else .error
      { kind := .index, span := span,
        message := "index " ++ Text.ofInt i ++ " out of range for " ++ container.typeName ++
          " of length " ++ Text.ofNat size }

/-- The key that an index means in an object. -/
def objectKey (index : Value) (span : Span) : Except Fault Text :=
  match index.payload with
  | .string key => .ok key
  | _ => .error
    { kind := .type, span := span,
      message := "object keys must be strings, not " ++ index.typeName }

/-- The element at an index that is not an array. -/
def element (h : Heap) (v index : Value) (span : Span) : Except Fault Value :=
  match v.payload with
  | .array id => do
    let items := h.array id
    let place ← position v index items.size span
    return items.getD place .null
  | .string t => do
    let place ← position v index t.length span
    return .string (t[place]?.toList)
  | .object id => do
    let key ← objectKey index span
    return ((h.object id).get? key).getD .null
  | _ => .error
    { kind := .type, span := span, message := "a " ++ v.typeName ++ " cannot be indexed" }

end Heap

namespace Eval

/-- Elements picked from an array or a string, put together again. -/
def gathered (source : Value) (picked : List Value) : Eval Value :=
  match source.payload with
  | .string _ => return .string (picked.flatMap Value.stringText)
  | _ => newArray picked.toArray

/-- The element at an index, or the elements at an array of indices, nested at most `depth` deep. -/
def indexIn (span : Span) : Nat → Value → Value → Eval Value
  | 0, _, _ => endless
  | depth + 1, v, index =>
    match index.payload, v.kind with
    | .array id, .array | .array id, .string => do
      gathered v (← (← arrayItems id).mapM fun i => indexIn span depth v i)
    | _, _ => readHeap (·.element v index span)

/-- The element at an index, or the elements at an array of indices. -/
def index (v index : Value) (span : Span) : Eval Value := do
  indexIn span ((← heap).arrays.size + 2) v index

/-- Puts a value at an index of an array or under a key of an object. -/
def setAt (v index value : Value) (span : Span) : Eval Unit := do
  match v.payload with
  | .array id =>
    let place ← readHeap fun h => Heap.position v index (h.array id).size span
    modifyHeap (·.modifyArray id (·.setIfInBounds place value))
  | .object id =>
    let key ← readHeap fun _ => Heap.objectKey index span
    modifyHeap (·.modifyObject id (·.insert key value))
  | _ => failWith .type ("cannot assign into a " ++ v.typeName) span

end Eval

end ScriptEngine
