import ScriptEngine.Native.Catalogue
import ScriptEngine.Number.Fraction

/-!
# Values

A value is a payload with an annex of tags. Numbers, texts, booleans and null are payloads by
themselves; arrays, objects, references and functions are payloads that point into a heap, so that
copies of the value share what it points to.

Tags are names with a content. Scripts set tags with texts; the tags under the names of
`TagName.reserved` are the engine's: they carry the identity of enums and variants, mark errors and
event emitters, and hold the prototype of a value.
-/

namespace ScriptEngine

/-- The identity of an enum declaration. -/
structure EnumTag where
  name : Text
  id : Nat
deriving DecidableEq, Inhabited

/-- The identity of a variant of an enum. -/
structure VariantTag where
  enum : EnumTag
  name : Text
  id : Nat
deriving DecidableEq, Inhabited

/-- The variant with the name of its enum. -/
def VariantTag.render (v : VariantTag) : Text := v.enum.name ++ "." ++ v.name

/-- What a value is apart from its tags. Arrays, objects, references and functions are given by
their place in the heap. -/
inductive Payload where
  | null
  | bool (b : Bool)
  | number (x : Number)
  | string (t : Text)
  | array (id : Nat)
  | object (id : Nat)
  | function (id : Nat)
  | native (n : Native)
  | reference (id : Nat)
deriving DecidableEq, Inhabited

/-- The kinds of values. -/
inductive Kind where
  | null | boolean | number | string | array | object | function | native | reference
deriving DecidableEq, Inhabited

namespace Kind

/-- The name of a kind. -/
def name : Kind → Text
  | null => "null"
  | boolean => "boolean"
  | number => "number"
  | string => "string"
  | array => "array"
  | object => "object"
  | function => "function"
  | native => "native_function"
  | reference => "reference"

end Kind

/-- The kind of a payload. -/
def Payload.kind : Payload → Kind
  | null => .null
  | bool _ => .boolean
  | number _ => .number
  | string _ => .string
  | array _ => .array
  | object _ => .object
  | function _ => .function
  | native _ => .native
  | reference _ => .reference

mutual

/-- A payload with its tags, in the order in which they were set. -/
structure Value where
  payload : Payload
  tags : List (Text × Tag)

/-- The content of a tag. -/
inductive Tag where
  | text (t : Text)
  | error
  | variant (v : VariantTag)
  | enumBase (e : EnumTag)
  | prototype (p : Value)
  | emitter (id : Nat)

end

namespace TagName

/-- The tag that holds the variant of a value. -/
def variant : Text := "__enum_variant"

/-- The tag that holds the enum an object lists the variants of. -/
def enumBase : Text := "__enum_base"

/-- The tag that marks an error. -/
def error : Text := "__error"

/-- The tag that holds the prototype of a value. -/
def prototype : Text := "__proto"

/-- The tag that holds an event emitter. -/
def emitter : Text := "__event_emitter"

/-- The tags that scripts cannot change. -/
def reserved : List Text := [variant, enumBase, error, prototype, emitter]

end TagName

/-- The text of a variant tag, an enum tag, a prototype and the other tags, where `emitters` gives the
texts of event emitters. -/
def Tag.shown (emitters : Nat → Text) : Tag → Text
  | text t => t
  | error => "true"
  | variant v => v.render
  | enumBase e => e.name
  | prototype p => p.payload.kind.name
  | emitter id => emitters id

namespace Value

/-- A value without tags. -/
def plain (p : Payload) : Value := ⟨p, []⟩

/-- The null value. -/
def null : Value := plain .null

instance : Inhabited Value := ⟨null⟩

/-- A boolean value. -/
def bool (b : Bool) : Value := plain (.bool b)

/-- A number value. -/
def number (q : Rat) : Value := plain (.number (.ofRat q))

/-- A string value. -/
def string (t : Text) : Value := plain (.string t)

/-- The kind of a value. -/
def kind (v : Value) : Kind := v.payload.kind

/-- The name of the kind of a value. -/
def typeName (v : Value) : Text := v.kind.name

/-- Whether a value is null. -/
def isNull (v : Value) : Bool := v.kind = .null

/-- The tag with a given name. -/
def tag? (v : Value) (name : Text) : Option Tag :=
  (v.tags.find? (·.1 = name)).map Prod.snd

/-- The variant a value carries. -/
def variant? (v : Value) : Option VariantTag :=
  match v.tag? TagName.variant with
  | some (.variant t) => some t
  | _ => none

/-- The enum a value lists the variants of. -/
def enumBase? (v : Value) : Option EnumTag :=
  match v.tag? TagName.enumBase with
  | some (.enumBase e) => some e
  | _ => none

/-- The prototype a value carries. -/
def prototype? (v : Value) : Option Value :=
  match v.tag? TagName.prototype with
  | some (.prototype p) => some p
  | _ => none

/-- The event emitter a value carries. -/
def emitter? (v : Value) : Option Nat :=
  match v.tag? TagName.emitter with
  | some (.emitter id) => some id
  | _ => none

/-- The same payload without tags. -/
def withoutTags (v : Value) : Value := plain v.payload

/-- The tags with one of them set: a tag that is there keeps its place, a new one goes to the end. -/
def putTag (name : Text) (tag : Tag) : List (Text × Tag) → List (Text × Tag)
  | [] => [(name, tag)]
  | e :: rest => if e.1 = name then (name, tag) :: rest else e :: putTag name tag rest

/-- The same payload with one tag set. -/
def setTag (v : Value) (name : Text) (tag : Tag) : Value := ⟨v.payload, putTag name tag v.tags⟩

/-- The same payload without one tag. -/
def eraseTag (v : Value) (name : Text) : Value := ⟨v.payload, v.tags.filter (·.1 ≠ name)⟩

/-- The same payload stamped with a variant. -/
def stamped (variant : VariantTag) (v : Value) : Value := v.setTag TagName.variant (.variant variant)

/-- The bare value of a variant, which is also its constructor. -/
def ofVariant (variant : VariantTag) : Value := null.stamped variant

/-- The text of a string, and nothing for other values. -/
def stringText (v : Value) : Text :=
  match v.payload with
  | .string t => t
  | _ => []

/-- Whether a value can be called: functions, natives and bare variants can. -/
def isCallable (v : Value) : Bool :=
  match v.kind with
  | .function | .native => true
  | .null => v.variant?.isSome
  | _ => false

end Value

end ScriptEngine
