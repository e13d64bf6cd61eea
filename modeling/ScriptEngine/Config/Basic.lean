import ScriptEngine.Json.Basic
import ScriptEngine.Machine.State
import ScriptEngine.Text.Quoted

/-!
# Configurations

A configuration is read from named entries. Unknown names are refused, the entries that the engine
relies on are checked, and the others are kept as they are given.

* `Config.ofEntries` reads a configuration and `Config.toEntries` lists it.
* `Config.settings` are the settings of a session with the configuration.
-/

namespace ScriptEngine

/-- A configuration. The depth of calls is a positive whole number or the word for true, which counts
as one. -/
structure Config where
  loadPrelude : Json := .bool true
  modulePaths : List Text := []
  moduleExtension : Text := ".zr"
  maxCallDepth : Json := .whole 400
  logLevel : Json := .null
  arguments : List Text := []
deriving Inhabited

/-- Why entries are not a configuration. -/
inductive ConfigError where
  | unknownKeys (names : List Text)
  | pathsNotAList
  | badCallDepth
  | malformed
  | noMapping (file : Path)
  | host (e : HostFailure)

namespace ConfigError

/-- The message of an error; the one about malformed text is left open. -/
def message? : ConfigError → Option Text
  | unknownKeys names => some ("unknown configuration keys: " ++ Text.joinWith ", " names)
  | pathsNotAList => some "module_paths must be a list"
  | badCallDepth => some "max_call_depth must be a positive integer"
  | malformed => none
  | noMapping file => some (file.render ++ ": expected a mapping at top level")
  | host e => some e.message

end ConfigError

namespace Json

/-- Whether data counts as true: everything does but null, false, zeros and what is empty. -/
def isTruthy : Json → Bool
  | null => false
  | bool b => b
  | whole n => n ≠ 0
  | real q => q ≠ 0
  | nonFinite _ => true
  | text t => !t.isEmpty
  | array items => !items.isEmpty
  | object members => !members.isEmpty

mutual

/-- Data as it is shown inside other data: strings are quoted. -/
def shownInside : Json → Text
  | null => "None"
  | bool b => if b then "True" else "False"
  | whole n => Text.ofInt n
  | real q => (Double.ofRat q).text
  | nonFinite x => x.name
  | text t => Text.quoted t
  | array items => "[" ++ Text.joinWith ", " (shownItems items) ++ "]"
  | object members => "\x7b" ++ Text.joinWith ", " (shownMembers members) ++ "\x7d"

/-- The items of a list as they are shown. -/
def shownItems : List Json → List Text
  | [] => []
  | j :: rest => shownInside j :: shownItems rest

/-- The members of an object as they are shown. -/
def shownMembers : List (Text × Json) → List Text
  | [] => []
  | (key, j) :: rest => (Text.quoted key ++ ": " ++ shownInside j) :: shownMembers rest

end

/-- Data as a text. -/
def asText : Json → Text
  | text t => t
  | j => shownInside j

/-- The name of the sort of data in messages about its use. -/
def sort : Json → Text
  | null => "NoneType"
  | bool _ => "bool"
  | whole _ => "int"
  | real _ => "float"
  | nonFinite _ => "float"
  | text _ => "str"
  | array _ => "list"
  | object _ => "dict"

/-- The parts of data that is gone through: the items of a list, the characters of a text, the keys of
an object. -/
def parts? : Json → Option (List Json)
  | array items => some items
  | text t => some (t.map fun c => .text [c])
  | object members => some (members.map fun (key, _) => .text key)
  | _ => none

end Json

namespace Config

/-- The names of the entries. -/
def keys : List Text :=
  ["load_prelude", "module_paths", "module_extension", "max_call_depth", "log_level", "argv"]

/-- The paths of the entry for modules. -/
def readPaths : Json → Except ConfigError (List Text)
  | .array items => .ok (items.map Json.asText)
  | _ => .error .pathsNotAList

/-- Whether an entry is a depth of calls. -/
def isCallDepth : Json → Bool
  | .whole n => 0 < n
  | .bool b => b
  | _ => false

/-- The extension of the entry for it, with a point in front. -/
def readExtension : Json → Except ConfigError Text
  | .text t => .ok (if t.head? = some (.scalar '.') then t else "." ++ t)
  | j => .error (.host ⟨.missingAttribute,
      "'" ++ j.sort ++ "' object has no attribute 'startswith'"⟩)

/-- The arguments of the entry for them. -/
def readArguments (j : Json) : Except ConfigError (List Text) :=
  match j.parts? with
  | some parts => .ok (parts.map Json.asText)
  | none => .error (.host ⟨.type, "'" ++ j.sort ++ "' object is not iterable"⟩)

/-- Reads a configuration. -/
def ofEntries (entries : List (Text × Json)) : Except ConfigError Config := do
  let unknown := (entries.map Prod.fst).filter fun k => !keys.contains k
  if unknown ≠ [] then
    throw (.unknownKeys (unknown.mergeSort fun a b => !Text.before b a))
  let entry (name : String) (otherwise : Json) : Json :=
    (entries.lookup (Text.ofString name)).getD otherwise
  let paths ← readPaths (entry "module_paths" (.array []))
  let depth := entry "max_call_depth" (.whole 400)
  if !isCallDepth depth then throw .badCallDepth
  let extension ← readExtension (entry "module_extension" (.text ".zr"))
  let arguments ← readArguments (entry "argv" (.array []))
  return { loadPrelude := entry "load_prelude" (.bool true), modulePaths := paths,
           moduleExtension := extension, maxCallDepth := depth,
           logLevel := entry "log_level" .null, arguments := arguments }

/-- The entries of a configuration in order. -/
def toEntries (c : Config) : List (Text × Json) :=
  [("load_prelude", c.loadPrelude), ("module_paths", .array (c.modulePaths.map .text)),
   ("module_extension", .text c.moduleExtension), ("max_call_depth", c.maxCallDepth),
   ("log_level", c.logLevel), ("argv", .array (c.arguments.map .text))]

/-- The limit of the depth of calls. -/
def callLimit (c : Config) : CallLimit :=
  { count := match c.maxCallDepth with
      | .whole n => n.toNat
      | _ => 1,
    shown := c.maxCallDepth.shownInside }

/-- A text with the letters of the first 128 code points in upper case. -/
def upperCase (t : Text) : Text :=
  t.map fun
    | .scalar c => .scalar c.toUpper
    | c => c

/-- The levels of the log by name, with whether errors are written at them. -/
def logLevels : List (Text × Bool) :=
  [("CRITICAL", false), ("FATAL", false), ("ERROR", true), ("WARN", true), ("WARNING", true),
   ("INFO", true), ("DEBUG", true), ("NOTSET", true)]

/-- Whether errors are written to the log. -/
def logsErrors (c : Config) : Except HostFailure Bool :=
  if !c.logLevel.isTruthy then .ok true
  else match c.logLevel with
    | .text t =>
      match logLevels.lookup (upperCase t) with
      | some writes => .ok writes
      | none => .error ⟨.value, "Unknown level: " ++ Text.quoted (upperCase t)⟩
    | j => .error ⟨.missingAttribute, "'" ++ j.sort ++ "' object has no attribute 'upper'"⟩

/-- The settings of a session. -/
def settings (c : Config) (files : FileTree) (probes : Bool) : Except HostFailure Settings := do
  let logsErrors ← c.logsErrors
  return { callLimit := c.callLimit, searchPaths := c.modulePaths.map Path.ofText,
           extension := c.moduleExtension, arguments := c.arguments, logsErrors := logsErrors,
           files := files, probes := probes }

end Config

end ScriptEngine
