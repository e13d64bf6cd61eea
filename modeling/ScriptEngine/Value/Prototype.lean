import ScriptEngine.Value.Heap

/-!
# Prototypes

Members that a value does not have itself are looked for in objects called prototypes: first the
value's own prototype, if it carries one, then the prototype of its kind, then the one of all kinds.
The prototypes of the kinds and of all kinds are the first objects of a session's heap.
-/

namespace ScriptEngine

namespace Prototype

/-- The prototypes of a session by name, in the order of their cells. -/
def names : List Text :=
  ["null", "boolean", "number", "string", "array", "object", "function", "native_function",
   "reference", "any"]

/-- The cell of the prototype of a kind. -/
def ofKind : Kind → Nat
  | .null => 0
  | .boolean => 1
  | .number => 2
  | .string => 3
  | .array => 4
  | .object => 5
  | .function => 6
  | .native => 7
  | .reference => 8

/-- The cell of the prototype of all kinds. -/
def any : Nat := 9

/-- The prototype with a given name. -/
def named? (name : Text) : Option Value := (names.idxOf? name).map fun id => .plain (.object id)

end Prototype

namespace Heap

/-- The heap with the empty prototypes of a session. -/
def withPrototypes : Heap := { objects := Array.replicate Prototype.names.length .empty }

/-- The object that a value's own prototype leads to, directly or by one reference. -/
def ownPrototype? (h : Heap) (v : Value) : Option Value :=
  let target := v.prototype?.map fun p =>
    match p.payload with
    | .reference id => h.reference id
    | _ => p
  target.filter (·.kind = .object)

/-- The prototype in which the members of a value are looked for first. -/
def prototypeOf (h : Heap) (v : Value) : Value :=
  (h.ownPrototype? v).getD (.plain (.object (Prototype.ofKind v.kind)))

/-- The prototypes of a value, nearest first. -/
def prototypeChain (h : Heap) (v : Value) : List Value :=
  (h.ownPrototype? v).toList ++
    [.plain (.object (Prototype.ofKind v.kind)), .plain (.object Prototype.any)]

/-- A member of an object. -/
def ownMember? (h : Heap) (v : Value) (name : Text) : Option Value :=
  match v.payload with
  | .object id => (h.object id).get? name
  | _ => none

/-- A member that a value has from its prototypes. -/
def inherited? (h : Heap) (v : Value) (name : Text) : Option Value :=
  (h.prototypeChain v).findSome? fun p => h.ownMember? p name

end Heap

end ScriptEngine
