import ScriptEngine.Native.Argument
import ScriptEngine.Text.Utf8
import ScriptEngine.Value.Copy

/-!
# Natives of arrays, objects and buffers

* `push_arr` and `arr_ref_set` change an array in place and give it back.
* `slice` and `reverse` work on strings as well as on arrays.
* A **buffer** is an array of bytes.
-/

namespace ScriptEngine.Native

/-- Adds a value to the end of an array. -/
def pushTo (span : Option Span) (arr value : Value) : Eval Value := do
  let id ← pushArray.arrayCell 1 span arr
  Eval.modifyHeap (·.modifyArray id (·.push value))
  return arr

/-- Gives an array the elements of another. -/
def replaceItems (span : Option Span) (arr other : Value) : Eval Value := do
  let id ← replaceArray.arrayCell 1 span arr
  let source ← replaceArray.arrayCell 2 span other
  let items := (← Eval.heap).array source
  Eval.modifyHeap (·.modifyArray id fun _ => items)
  return arr

/-- The position that a bound of a slice means: negative bounds count from the end, and bounds
outside the container stand for its ends. -/
def sliceBound (size : Nat) (bound : Int) : Nat :=
  min size (if bound < 0 then bound + size else bound).toNat

/-- The elements from a start up to an end that is left out. -/
def sliced {α : Type} (items : List α) (start : Int) (stop : Option Int) : List α :=
  let first := sliceBound items.length start
  let last := (stop.map (sliceBound items.length)).getD items.length
  (items.take last).drop first

/-- A part of a string or of an array. -/
def sliceOf (span : Option Span) (v start : Value) (stop : Option Value) : Eval Value := do
  let first ← slice.whole 2 span start
  let last ← match stop.filter fun v => !v.isNull with
    | some v => do pure (some (← slice.whole 3 span v))
    | none => pure none
  match v.payload with
  | .string t => return .string (sliced t first last)
  | _ => Eval.newArray (sliced (← slice.arrayItems 1 span v) first last).toArray

/-- A string or an array backwards. -/
def reversed (span : Option Span) (v : Value) : Eval Value := do
  match v.payload with
  | .string t => return .string t.reverse
  | _ => Eval.newArray (← reverse.arrayItems 1 span v).reverse.toArray

/-- The elements of a value; for an object the keys. -/
def elementsOf (span : Option Span) (v : Value) : Eval Value := do
  let target ← Eval.readEndless (·.follow? v)
  match (← Eval.heap).pairs? target with
  | none => Eval.fail (Heap.notIterable target span)
  | some pairs =>
    Eval.newArray (pairs.map fun (key, item) => if v.kind = .object then key else item).toArray

/-- The keys of an object. -/
def keysOf (span : Option Span) (v : Value) : Eval Value := do
  let id ← keys.objectCell 1 span v
  Eval.newTexts ((← Eval.heap).object id).keys

/-- An array of bytes as a value. -/
def bufferValue (bytes : List Nat) : Eval Value :=
  Eval.newArray (bytes.map fun b => .number b).toArray

/-- The text that a buffer encodes. -/
def decodeBuffer (span : Option Span) (v : Value) : Eval Value := do
  match Utf8.decode (← bufferToText.bytes 1 span v) with
  | .ok t => return .string t
  | .error u => bufferToText.reject span .value (": " ++ u.message)

/-- The bytes of a text. Surrogates have none. -/
def encodedText (t : Text) : Eval (List Nat) :=
  match Utf8.encode t with
  | .ok bytes => return bytes
  | .error u => Eval.crash .value u.message

/-- The buffer of a text. -/
def encodeBuffer (span : Option Span) (v : Value) : Eval Value := do
  bufferValue (← encodedText (← textToBuffer.text 1 span v))

end ScriptEngine.Native
