import ScriptEngine.Config.Basic
import ScriptEngine.Text.Lines
import ScriptEngine.Yaml.Reader
import ScriptEngine.Yaml.Writer

/-!
# Configuration files

A configuration is kept in a YAML file. Module paths that are not absolute are taken from the directory
of the file.
-/

namespace ScriptEngine.Config

/-- The usual name of a configuration file. -/
def fileName : Text := "zephyr.yaml"

/-- A module path as an absolute one. -/
def anchoredPath (workDir file : Path) (t : Text) : Text :=
  let p := Path.ofText t
  if p.isAbsolute then t else (workDir.canonical (file.parent.join p)).render

/-- The entries with the module paths taken from the directory of the file. An entry that counts as
false is an empty list. -/
def anchored (workDir file : Path) (entries : List (Text × Json)) : List (Text × Json) :=
  let given := (entries.lookup (Text.ofString "module_paths")).getD .null
  let paths := if given.isTruthy then given else .array []
  match paths with
  | .array items =>
    let absolute := Json.array (items.map fun j => .text (anchoredPath workDir file j.asText))
    Yaml.Reader.put "module_paths" absolute entries
  | _ => entries

/-- Reads the text of a configuration file. -/
def ofYaml (workDir file : Path) (text : Text) : Except ConfigError Config := do
  match Yaml.read? text with
  | none => throw .malformed
  | some .null => ofEntries (anchored workDir file [])
  | some (.object entries) => ofEntries (anchored workDir file entries)
  | some _ => throw (.noMapping file)

/-- Reads a configuration file. -/
def load (files : FileTree) (file : Path) : Except ConfigError Config :=
  match files.read? file with
  | some content => ofYaml files.workDir file (Text.newlinesUnified content)
  | none => .error (.host ⟨.fileNotFound,
      "[Errno 2] No such file or directory: " ++ Text.quoted file.render⟩)

/-- The directories from one up to the root. -/
def ancestors (names : List Text) : List (List Text) :=
  ((List.range (names.length + 1)).reverse).map names.take

/-- The nearest configuration file at a place or above it. -/
def find? (files : FileTree) (start : Path) : Option Path :=
  let place := files.workDir.canonical start
  let directory := if files.isFile place then place.parent else place
  (ancestors directory.names).findSome? fun names =>
    let candidate : Path := { directory with names := names ++ [fileName] }
    if files.isFile candidate then some candidate else none

/-- The text of a configuration file. -/
def toYaml (c : Config) : Text := Yaml.write c.toEntries

end ScriptEngine.Config
