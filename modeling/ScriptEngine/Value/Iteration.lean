import ScriptEngine.Value.Heap

/-!
# Elements and lengths

What loops go over: the elements of arrays and the characters of strings with their positions, the
values of objects with their keys, and the elements of what a reference leads to.
-/

namespace ScriptEngine.Heap

/-- What a value leads to through references, if it is found in `steps` steps. -/
def followIn? (h : Heap) : Nat → Value → Option Value
  | 0, _ => none
  | steps + 1, v =>
    match v.payload with
    | .reference id => h.followIn? steps (h.reference id)
    | _ => some v

/-- What a value leads to through references, unless they lead in a circle. -/
def follow? (h : Heap) (v : Value) : Option Value := h.followIn? (h.references.size + 1) v

/-- The elements of a list with their positions as values. -/
def enumerated (items : List Value) : List (Value × Value) :=
  items.zipIdx.map fun (item, i) => (.number i, item)

/-- The elements of a value with their positions or keys. Nothing is given for a value that has no
elements. -/
def pairs? (h : Heap) (v : Value) : Option (List (Value × Value)) :=
  match v.payload with
  | .array id => some (enumerated (h.array id).toList)
  | .string t => some (enumerated (t.map fun c => .string [c]))
  | .object id => some ((h.object id).entries.map fun (key, item) => (.string key, item))
  | _ => none

/-- The number of elements of an array, a string or an object. -/
def length? (h : Heap) (v : Value) : Option Nat :=
  match v.payload with
  | .array id => some (h.array id).size
  | .string t => some t.length
  | .object id => some (h.object id).size
  | _ => none

/-- The fault of going over a value that has no elements. -/
def notIterable (v : Value) (span : Option Span) : Fault :=
  { kind := .type, message := "cannot iterate over a " ++ v.typeName, span := span }

/-- The fault of asking for the length of a value that has none. -/
def noLength (v : Value) (span : Option Span) : Fault :=
  { kind := .type, message := "a " ++ v.typeName ++ " has no length", span := span }

end ScriptEngine.Heap
