import ScriptEngine.Json.Basic
import ScriptEngine.Value.Heap

/-!
# Plain data

Data that a host exchanges with scripts: trees without sharing. Values of the other kinds are handed
out as they are.
-/

namespace ScriptEngine

/-- A tree of plain data. -/
inductive Datum where
  | null
  | bool (b : Bool)
  | number (q : Rat)
  | text (t : Text)
  | list (items : List Datum)
  | object (members : List (Text × Datum))
  | handle (v : Value)
deriving Inhabited

namespace Heap

mutual

/-- Puts plain data into the heap. -/
def ofDatum (h : Heap) : Datum → Value × Heap
  | .null => (.null, h)
  | .bool b => (.bool b, h)
  | .number q => (.number q, h)
  | .text t => (.string t, h)
  | .list items =>
    let (values, h) := h.ofData items
    h.newArray values.toArray
  | .object members =>
    let (entries, h) := h.ofMembers members
    h.newObject (.ofList entries)
  | .handle v => (v, h)

/-- Puts a list of plain data into the heap. -/
def ofData (h : Heap) : List Datum → List Value × Heap
  | [] => ([], h)
  | d :: rest =>
    let (v, h) := h.ofDatum d
    let (vs, h) := h.ofData rest
    (v :: vs, h)

/-- Puts members with plain data into the heap. -/
def ofMembers (h : Heap) : List (Text × Datum) → List (Text × Value) × Heap
  | [] => ([], h)
  | (key, d) :: rest =>
    let (v, h) := h.ofDatum d
    let (vs, h) := h.ofMembers rest
    ((key, v) :: vs, h)

end

/-- The plain data of a value, if it is found in `depth` steps. References are followed. -/
def toDatumIn? (h : Heap) : Nat → Value → Option Datum
  | 0, _ => none
  | depth + 1, v =>
    match v.payload with
    | .null => some .null
    | .bool b => some (.bool b)
    | .number x => some (.number x.value)
    | .string t => some (.text t)
    | .array id => do
      let items ← (h.array id).toList.mapM (h.toDatumIn? depth)
      return .list items
    | .object id => do
      let members ← (h.object id).entries.mapM fun (key, item) => do
        return (key, ← h.toDatumIn? depth item)
      return .object members
    | .reference id => h.toDatumIn? depth (h.reference id)
    | .function _ => some (.handle v)
    | .native _ => some (.handle v)

/-- The plain data of a value, unless it has cycles. -/
def toDatum? (h : Heap) (v : Value) : Option Datum := h.toDatumIn? (h.size + 1) v

end Heap

end ScriptEngine
