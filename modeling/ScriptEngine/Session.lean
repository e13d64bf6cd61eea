import ScriptEngine.Eval.Statement
import ScriptEngine.Prelude.Library

/-!
# Sessions

A session is a machine with the natives, the prelude and what a host provides in its global frame. A
host runs sources and files in the main frame of the session, calls functions, emits events and
loads modules.
-/

namespace ScriptEngine

/-- The name under which scripts find the native functions. -/
def nativeNamespace : Text := "__zephyr_native"

/-- What a host provides to a session besides its settings. -/
structure Provisions where
  loadPrelude : Bool := true
  input : Text := []
  emitters : List (Text × List Text) := []
  chunks : Option (List (List Nat)) := none

/-- A program that failed: the error, its diagnostic with an excerpt of the source if it is from
there, and the value that a handler would have received. -/
structure Failure where
  error : EngineError
  diagnostic : Diagnostic
  thrown : Option Value

namespace Session

/-- The native functions of a session. -/
def natives (s : Settings) : List Native :=
  Native.standard ++ (if s.probes then Native.probes else [])

/-- The names of the native functions in alphabetical order. -/
def nativeNames (s : Settings) : List Text :=
  ((natives s).map Native.name).mergeSort fun a b => !Text.before b a

/-- The native function with a given name. -/
def native? (s : Settings) (name : Text) : Option Native :=
  (natives s).find? (·.name = name)

/-- The place of the global frame. -/
def globalFrame : Nat := 0

/-- The place of the main frame. -/
def mainFrame : Nat := 1

/-- The machine before anything is defined. -/
def blank (s : Settings) (input : Text) : Machine :=
  { settings := s, input := input, globalFrame := globalFrame, mainFrame := mainFrame,
    heap := { Heap.withPrototypes with
      frames := #[{ name := "global", isGlobal := true },
                  { name := "main", isGlobal := true, parent := some globalFrame }] } }

/-- Makes the native functions available. -/
def defineNatives : Eval Unit := do
  let entries := (natives (← get).settings).map fun n => (n.name, Value.plain (.native n))
  let v ← Eval.newObject (.ofList entries)
  Eval.define globalFrame (some nativeNamespace) v true none

/-- Evaluates a library of the prelude and makes its exports global. -/
def loadLibrary (file : Text) (p : Program) : Eval Unit := do
  let frame ← Eval.onHeap (·.newFrame
    { parent := some globalFrame, name := "prelude:" ++ file, isGlobal := true })
  let _ ← Interp.session.runProgram p frame
  let h ← Eval.heap
  (h.exportedNames frame).forM fun name =>
    Eval.define globalFrame name ((h.export? frame name).getD .null) false none

/-- A new emitter as a value: an object with its events. -/
def newEmitter (events : List Text) : Eval (Nat × Value) := do
  let id := (← get).emitters.size
  modify fun m => { m with emitters := m.emitters.push (.ofEvents events) }
  let list ← Eval.newTexts events
  let v ← Eval.newObject (.ofList [("events", list)])
  return (id, v.setTag TagName.emitter (.emitter id))

/-- Makes an emitter available. -/
def defineEmitter (name : Text) (events : List Text) : Eval Unit := do
  let (_, v) ← newEmitter events
  Eval.define globalFrame (some name) v false none

/-- Makes a byte stream available that receives the given chunks. -/
def defineStream (chunks : List (List Nat)) : Eval Unit := do
  let (id, events) ← newEmitter ["receive", "close"]
  modify fun m => { m with stream := { incoming := chunks, emitter := id } }
  let native (n : Native) : Text × Value := (n.name, .plain (.native n))
  let v ← Eval.newObject (.ofList
    [native .streamRead, native .streamWrite, native .streamClose, native .streamListen,
     ("events", events)])
  Eval.define globalFrame (some "stream") v false none

/-- Prepares a session. -/
def prepare (p : Provisions) : Eval Unit := do
  defineNatives
  if p.loadPrelude then Prelude.programs.forM fun (file, program) => loadLibrary file program
  else pure ()
  p.emitters.forM fun (name, events) => defineEmitter name events
  match p.chunks with
  | some chunks => defineStream chunks
  | none => return ()

/-- A session that is ready to run. -/
def start (s : Settings) (p : Provisions) : Except Exit Machine :=
  match (prepare p).run (blank s p.input) with
  | .ok _ m => .ok m
  | .error e _ => .error e

/-- The diagnostic with the line of a source that its span starts in, if it is from that source and
has no line yet. -/
def withExcerpt (d : Diagnostic) (source : Text) (file : Option Text) : Diagnostic :=
  if d.sourceLine.isNone ∧ d.span.start.file = file then
    { d with sourceLine := source.line? d.span.start.line }
  else d

/-- Runs a source in the main frame. -/
def runSource (source : Text) (file : Option Text) : Eval (Except Failure Value) := do
  match Program.parse source file with
  | .error e =>
    match e.exit source with
    | .failed error => return .error ⟨error, error.diagnostic, none⟩
    | other => Eval.exit other
  | .ok program =>
    match ← Eval.attempt (Interp.session.runProgram program mainFrame) with
    | .ok v => return .ok v
    | .error (.failed (.lexical d)) => Eval.exit (.failed (.lexical d))
    | .error (.failed (.grammatical d e)) => Eval.exit (.failed (.grammatical d e))
    | .error (.failed error) =>
      let thrown ← Interp.caught? (.failed error)
      return .error ⟨error, withExcerpt error.diagnostic source file, thrown⟩
    | .error e => Eval.exit e

/-- Runs a file in the main frame. -/
def runFile (path : Text) : Eval (Except Failure Value) := do
  let files := (← get).settings.files
  let p := files.workDir.canonical (Path.ofText path)
  match files.read? p with
  | some content => runSource (Text.newlinesUnified content) (some p.render)
  | none =>
    Eval.crash .fileNotFound ("[Errno 2] No such file or directory: " ++ Text.quoted p.render)

/-- Calls a function of the main frame with plain data. -/
def callNamed (name : Text) (args : List Datum) : Eval Value := do
  let f ← Eval.lookup mainFrame name none
  let values ← Eval.onHeap (·.ofData args)
  Interp.session.call f values none

/-- Emits an event with plain data and tells how many listeners ran. -/
def emitNamed (emitter : Nat) (event : Text) (args : List Datum) : Eval Nat := do
  let values ← Eval.onHeap (·.ofData args)
  Native.emit Interp.session emitter event values

/-- Loads a module and lists what it exports. -/
def loadExports (path : Text) (importer : Option Text) : Eval (List BindingName) := do
  let frame ← Interp.session.loadModule path importer none
  return (← Eval.heap).exportedNames frame

/-- Whether the module of a file has been evaluated. -/
def isLoaded (m : Machine) (path : Text) : Bool :=
  m.modules.loaded.contains (m.settings.files.workDir.canonical (Path.ofText path))

/-- The files of the modules that have been evaluated. -/
def loadedPaths (m : Machine) : List Path := m.modules.loaded.keys

/-- Forgets the modules that have been evaluated. -/
def forgetModules : Eval Unit :=
  modify fun m => { m with modules := { m.modules with loaded := .empty } }

end Session

end ScriptEngine
