import ScriptEngine.Number.Binary64

/-!
# JSON documents

A JSON document. Numbers that have a point or an exponent are told apart from whole numbers, and both
are exact; the words for numbers that are not finite have a form of their own. Members of an object
are in document order with distinct keys.
-/

namespace ScriptEngine

/-- The numbers that are not finite. -/
inductive NonFinite where
  | notANumber | infinity | negativeInfinity
deriving DecidableEq

namespace NonFinite

/-- The name of a number that is not finite. -/
def name : NonFinite → Text
  | notANumber => "nan"
  | infinity => "inf"
  | negativeInfinity => "-inf"

end NonFinite

/-- A JSON document. -/
inductive Json where
  | null
  | bool (b : Bool)
  | whole (n : Int)
  | real (q : Rat)
  | nonFinite (x : NonFinite)
  | text (t : Text)
  | array (items : List Json)
  | object (members : List (Text × Json))
deriving Inhabited

namespace Json

/-- The member of an object with a given key. -/
def member? (key : Text) : Json → Option Json
  | object members => (members.find? (·.1 = key)).map Prod.snd
  | _ => none

/-- An object from members given in order. -/
def ofMembers (members : List (String × Json)) : Json :=
  object (members.map fun (k, v) => (↑k, v))

end Json

end ScriptEngine
