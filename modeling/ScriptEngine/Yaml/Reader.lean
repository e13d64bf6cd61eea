import ScriptEngine.Yaml.Scalar
import ScriptEngine.Yaml.Token

/-!
# Reading YAML documents

The data of a document from its tokens. A later value of a key takes the place of an earlier one; a
collection cannot be a key.
-/

namespace ScriptEngine.Yaml

/-- A reader of tokens. -/
abbrev Reader := StateT (List Token) Option

namespace Reader

/-- Refuses the tokens. -/
def refuse {α : Type} : Reader α := fun _ => none

/-- The next token. -/
def peek : Reader (Option Token) := return (← get).head?

/-- Takes the next token. -/
def next : Reader Unit := modify List.tail

/-- Takes a token if it is the next. -/
def accept (t : Token) : Reader Bool := do
  if (← peek) = some t then
    next
    return true
  else return false

/-- Takes a token, which must be the next. -/
def expect (t : Token) : Reader Unit := do
  if ← accept t then return () else refuse

/-- Whether the next token is one of some. -/
def sees (ts : List Token) : Reader Bool := return (← peek).any (ts.contains ·)

/-- Data as a key. Collections are none. -/
def asKey : Json → Reader Text
  | .array _ => refuse
  | .object _ => refuse
  | .text t => return t
  | .null => return "None"
  | .bool b => return if b then "True" else "False"
  | .whole n => return Text.ofInt n
  | .real q => return (Double.ofRat q).text
  | .nonFinite x => return x.name

/-- Gives a key a value. -/
def put (key : Text) (v : Json) : List (Text × Json) → List (Text × Json)
  | [] => [(key, v)]
  | e :: rest => if e.1 = key then (key, v) :: rest else e :: put key v rest

mutual

/-- A node. Entries at the column of their key make up a sequence where `entries` allows it. -/
def node (fuel : Nat) (entries : Bool) : Reader Json :=
  match fuel with
  | 0 => refuse
  | fuel + 1 => do
    match ← peek with
    | some (.scalar t plain) =>
      next
      return if plain then plainMeaning t else .text t
    | some .flowSequenceStart =>
      next
      return .array (← flowItems fuel true)
    | some .flowMappingStart =>
      next
      return .object (← flowMembers fuel true [])
    | some .blockSequenceStart =>
      next
      let items ← blockItems fuel
      expect .blockEnd
      return .array items
    | some .blockMappingStart =>
      next
      let members ← blockMembers fuel []
      expect .blockEnd
      return .object members
    | some .blockEntry => if entries then return .array (← blockItems fuel) else refuse
    | _ => refuse

/-- The items of a block sequence. -/
def blockItems (fuel : Nat) : Reader (List Json) :=
  match fuel with
  | 0 => refuse
  | fuel + 1 => do
    if ← accept .blockEntry then
      let item ← if ← sees [.blockEntry, .key, .value, .blockEnd] then pure .null
        else if (← peek).isNone then pure .null
        else node fuel false
      return item :: (← blockItems fuel)
    else return []

/-- The members of a block mapping. -/
def blockMembers (fuel : Nat) (found : List (Text × Json)) : Reader (List (Text × Json)) :=
  match fuel with
  | 0 => refuse
  | fuel + 1 => do
    if ← accept .key then
      let key ← if ← sees [.key, .value, .blockEnd] then pure .null else node fuel true
      let value ←
        if ← accept .value then
          if ← sees [.key, .value, .blockEnd] then pure .null else node fuel true
        else pure .null
      blockMembers fuel (put (← asKey key) value found)
    else return found

/-- The items of a flow sequence up to its end. -/
def flowItems (fuel : Nat) (first : Bool) : Reader (List Json) :=
  match fuel with
  | 0 => refuse
  | fuel + 1 => do
    if ← accept .flowSequenceEnd then return []
    else
      if !first then expect .flowEntry
      if ← accept .flowSequenceEnd then return []
      else if ← accept .key then
        let key ← if ← sees [.value, .flowEntry, .flowSequenceEnd] then pure .null
          else node fuel false
        let value ← flowValue fuel .flowSequenceEnd
        let item := Json.object [(← asKey key, value)]
        return item :: (← flowItems fuel false)
      else
        let item ← node fuel false
        return item :: (← flowItems fuel false)

/-- The value of a key in a flow collection, null if there is none. -/
def flowValue (fuel : Nat) (ending : Token) : Reader Json :=
  match fuel with
  | 0 => refuse
  | fuel + 1 => do
    if ← accept .value then
      if ← sees [.flowEntry, ending] then return .null else node fuel false
    else return .null

/-- The members of a flow mapping up to its end. -/
def flowMembers (fuel : Nat) (first : Bool) (found : List (Text × Json)) :
    Reader (List (Text × Json)) :=
  match fuel with
  | 0 => refuse
  | fuel + 1 => do
    if ← accept .flowMappingEnd then return found
    else
      if !first then expect .flowEntry
      if ← accept .flowMappingEnd then return found
      else if ← accept .key then
        let key ← if ← sees [.value, .flowEntry, .flowMappingEnd] then pure .null
          else node fuel false
        let value ← flowValue fuel .flowMappingEnd
        flowMembers fuel false (put (← asKey key) value found)
      else
        let key ← node fuel false
        flowMembers fuel false (put (← asKey key) .null found)

end

/-- The end marks of a document. -/
def skipEnds : Nat → Reader Unit
  | 0 => return ()
  | fuel + 1 => do
    if ← accept .documentEnd then skipEnds fuel else return ()

/-- A stream of at most one document. -/
def document : Reader Json := do
  let fuel := 4 * (← get).length + 8
  skipEnds fuel
  if (← peek).isNone then return .null
  else
    let _ ← accept .documentStart
    let content ← if (← peek).isNone || (← sees [.documentStart, .documentEnd]) then pure .null
      else node fuel false
    skipEnds fuel
    if (← peek).isNone then return content else refuse

end Reader

/-- The data of a document, if its text is well formed. -/
def read? (t : Text) : Option Json := do
  let tokens ← Token.ofText? t
  (Reader.document.run tokens).map Prod.fst

end ScriptEngine.Yaml
