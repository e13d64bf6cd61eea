import ScriptEngine.Json.Reader
import ScriptEngine.Json.Writer
import ScriptEngine.Native.Argument
import ScriptEngine.Value.Datum

/-!
# Natives of data exchange, errors and references

JSON texts are read with exact numbers and written with the numbers that are not whole as doubles.
-/

namespace ScriptEngine

mutual

/-- The plain data of a JSON document; the error is a number that is not finite. -/
def Json.toDatum : Json → Except NonFinite Datum
  | .null => .ok .null
  | .bool b => .ok (.bool b)
  | .whole n => .ok (.number n)
  | .real q => .ok (.number q)
  | .nonFinite x => .error x
  | .text t => .ok (.text t)
  | .array items => do return .list (← Json.itemsToData items)
  | .object members => do return .object (← Json.membersToData members)

/-- The plain data of the items of an array. -/
def Json.itemsToData : List Json → Except NonFinite (List Datum)
  | [] => .ok []
  | j :: rest => do
    let d ← j.toDatum
    return d :: (← Json.itemsToData rest)

/-- The plain data of the members of an object. -/
def Json.membersToData : List (Text × Json) → Except NonFinite (List (Text × Datum))
  | [] => .ok []
  | (key, j) :: rest => do
    let d ← j.toDatum
    return (key, d) :: (← Json.membersToData rest)

end

/-- Why plain data cannot be written as JSON. -/
inductive JsonObstacle where
  | unwritable (kind : Kind)
  | tooLarge
  | tooLong

mutual

/-- The JSON document of plain data. -/
def Datum.toJson : Datum → Except JsonObstacle Json
  | .null => .ok .null
  | .bool b => .ok (.bool b)
  | .number q =>
    match (Number.ofRat q).whole?, Double.ofRat q with
    | some n, _ => if Text.isWritable n.natAbs then .ok (.whole n) else .error .tooLong
    | none, .finite _ _ => .ok (.real q)
    | none, _ => .error .tooLarge
  | .text t => .ok (.text t)
  | .list items => do return .array (← Datum.itemsToJson items)
  | .object members => do return .object (← Datum.membersToJson members)
  | .handle v => .error (.unwritable v.kind)

/-- The JSON documents of the items of a list. -/
def Datum.itemsToJson : List Datum → Except JsonObstacle (List Json)
  | [] => .ok []
  | d :: rest => do
    let j ← d.toJson
    return j :: (← Datum.itemsToJson rest)

/-- The JSON documents of the members of an object. -/
def Datum.membersToJson : List (Text × Datum) → Except JsonObstacle (List (Text × Json))
  | [] => .ok []
  | (key, d) :: rest => do
    let j ← d.toJson
    return (key, j) :: (← Datum.membersToJson rest)

end

namespace Native

/-- The value of a JSON text. -/
def readJson (span : Option Span) (v : Value) : Eval Value := do
  let document ← parseJson.text 1 span v
  match Json.read document with
  | .error e => parseJson.reject span .value (": " ++ e.message document)
  | .ok json =>
    match json.toDatum with
    | .error x =>
      parseJson.reject span .value (": Invalid literal for Fraction: " ++ Text.quoted x.name)
    | .ok datum => Eval.onHeap (·.ofDatum datum)

/-- The JSON text of a value. -/
def writeJson (span : Option Span) (v : Value) : Eval Value := do
  let datum ← Eval.readEndless (·.toDatum? v)
  match datum.toJson with
  | .ok json => return .string json.write
  | .error (.unwritable kind) =>
    toJson.reject span .type (": a " ++ kind.name ++ " cannot be converted to JSON")
  | .error .tooLarge => Eval.crash .overflow "integer division result too large for a float"
  | .error .tooLong => Eval.unprintable .tooLong

/-- An error with a message, a type and data. -/
def makeError (span : Option Span) (message : Value) (kind data : Option Value) : Eval Value := do
  let text ← error.text 1 span message
  let typeName ← match kind.filter fun k => !k.isNull with
    | some k => error.text 2 span k
    | none => pure "Error"
  Eval.onHeap (·.newError text typeName data none)

/-- A new reference. -/
def newRef (v : Value) : Eval Value := Eval.onHeap (·.newReference v)

/-- The target of a reference. -/
def target (span : Option Span) (v : Value) : Eval Value := do
  return (← Eval.heap).reference (← deref.referenceCell 1 span v)

/-- Gives a reference a new target. -/
def retarget (span : Option Span) (r v : Value) : Eval Value := do
  let id ← refSet.referenceCell 1 span r
  Eval.modifyHeap (·.setReference id v)
  return r

end Native

end ScriptEngine
