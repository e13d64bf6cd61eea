import ScriptEngine.Number.Fraction
import ScriptEngine.Value.Copy

/-!
# Values as text

`Heap.display` is how a value is printed, with a string at the top as it is; `Heap.quotedForm` quotes it as well.
A container inside itself is shown by three dots. Two things have no text (`Unprintable`): a reference shows its
target, so one that leads to itself through references alone would be printed without end, and the host does not
write numbers with too many digits.
-/

namespace ScriptEngine

/-- A string between double quotes, with the backslash, the double quote, the line feed and the tab
escaped. -/
def Text.doubleQuoted (t : Text) : Text :=
  "\"" ++ (t.flatMap fun c : CodePoint =>
    if c = '\\' then ("\\\\" : Text)
    else if c = '"' then "\\\""
    else if c = '\n' then "\\n"
    else if c = '\t' then "\\t"
    else [c]) ++ "\""

/-- Why a value has no text. -/
inductive Unprintable where
  /-- A reference leads to itself through references alone. -/
  | endless
  /-- A whole number in it has more digits than the host writes. -/
  | tooLong
deriving DecidableEq

namespace Heap

/-- The name of a function in the heap. -/
def closureName (h : Heap) (id : Nat) : Text :=
  match h.closures[id]? with
  | some c => c.name
  | none => "<anonymous>"

/-- The text of a value inside the containers `within`, if it is found in `depth` steps. -/
def render (h : Heap) : Nat → Bool → List Cell → Value → Except Unprintable Text
  | 0, _, _, _ => .error .endless
  | depth + 1, quote, within, v =>
    let payload (quote : Bool) : Except Unprintable Text :=
      match v.payload with
      | .null => .ok "null"
      | .bool b => .ok (if b then "true" else "false")
      | .number x => (Number.text? x.value).elim (.error .tooLong) .ok
      | .string t => .ok (if quote then Text.doubleQuoted t else t)
      | .function id => .ok ("<func " ++ h.closureName id ++ ">")
      | .native n => .ok ("<native " ++ n.name ++ ">")
      | .reference id => do
        let target ← h.render depth true within (h.reference id)
        return "&" ++ target
      | .array id =>
        if .array id ∈ within then .ok "[...]"
        else do
          let items ← (h.array id).toList.mapM (h.render depth true (.array id :: within))
          return "[" ++ Text.joinWith ", " items ++ "]"
      | .object id =>
        if .object id ∈ within then .ok ".\x7b...\x7d"
        else match v.enumBase? with
          | some e => .ok ("<enum " ++ e.name ++ ">")
          | none => do
            let items ← (h.object id).entries.mapM fun (key, item) => do
              let text ← h.render depth true (.object id :: within) item
              return (key ++ ": " ++ text : Text)
            return ".\x7b" ++ Text.joinWith ", " items ++ "\x7d"
    match v.variant? with
    | some variant =>
      if v.isNull then .ok variant.render
      else (payload true).map fun text => variant.render ++ "(" ++ text ++ ")"
    | none => payload quote

/-- A number that the host does not write has no text. -/
theorem render_tooLong {h : Heap} {v : Value} {x : Number} {depth : Nat} {quote : Bool} {within : List Cell}
    (hv : v.payload = .number x) (hx : ¬ Number.isWritable x.value) :
    h.render (depth + 1) quote within v = .error .tooLong := by
  have hnull : v.isNull = false := by rw [Value.isNull, Value.kind, hv]; rfl
  rw [render]
  simp only [hv, hnull, Number.text?, hx]
  cases v.variant? <;> rfl

/-- More steps than any text takes: containers do not repeat within each other, and between two of
them no reference repeats. -/
def renderDepth (h : Heap) : Nat :=
  (h.arrays.size + h.objects.size + 1) * (h.references.size + 1) + 1

/-- A value as it is printed. -/
def display (h : Heap) (v : Value) : Except Unprintable Text := h.render h.renderDepth false [] v

/-- A value with strings quoted. -/
def quotedForm (h : Heap) (v : Value) : Except Unprintable Text := h.render h.renderDepth true [] v

/-- A value as it is printed, if it has a text. -/
def display? (h : Heap) (v : Value) : Option Text := (h.display v).toOption

theorem display?_eq_some_iff {h : Heap} {v : Value} {t : Text} : h.display? v = some t ↔ h.display v = .ok t := by
  unfold display?
  cases h.display v <;> simp [Except.toOption]

/-- A value with strings quoted, if it has a text. -/
def quotedForm? (h : Heap) (v : Value) : Option Text := (h.quotedForm v).toOption

end Heap

end ScriptEngine
