import ScriptEngine.Eval.Call
import ScriptEngine.Program.Parser.Statement
import ScriptEngine.Text.Lines

/-!
# Modules

An import names a module by a path, to which the extension of modules is added if it has none. A path
that is not absolute is looked for beside the importing file and then in the search paths. A module
is evaluated in a frame of its own when it is first imported; later imports share that frame.

* `FileTree.resolve` finds the file of a module.
* `Interp.runProgram` runs the statements of a program, and `Interp.loadModule` gives the frame of a
  module.
-/

namespace ScriptEngine

/-- Why a module is not found. -/
inductive ResolveError where
  | namelessPath (p : Path)
  | notFound (candidates : List Path)

/-- The path of a module with the extension added. -/
def withExtension (extension : Text) (p : Path) : Except ResolveError Path :=
  if p.hasExtension then .ok p
  else if p.name.isEmpty then .error (.namelessPath p)
  else .ok { p with names := p.names.dropLast ++ [p.name ++ extension] }

namespace Settings

/-- The files that an import may mean, in the order in which they are tried. -/
def candidates (s : Settings) (p : Path) (importer : Option Text) : List Path :=
  if p.isAbsolute then [p]
  else
    let base := match importer.filter fun f => !f.isEmpty with
      | some file => (Path.ofText file).parent
      | none => s.files.workDir
    base.join p :: s.searchPaths.map (·.join p)

/-- The canonical path of the file of a module. -/
def resolve (s : Settings) (path : Text) (importer : Option Text) : Except ResolveError Path := do
  let requested ← withExtension s.extension (Path.ofText path)
  let tried := s.candidates requested importer
  match tried.find? s.files.isFile with
  | some found => return s.files.workDir.canonical found
  | none => throw (.notFound tried)

end Settings

/-- The error of the engine for a source that is not a program. A numeral without a value and an index
without a token are failures of the host. -/
def SourceError.exit (source : Text) : SourceError → Exit
  | .lexical (.malformed cause span) => .failed (.lexical (cause.diagnostic span source))
  | .lexical (.noValue digits hasPoint) => .crashed ⟨.value, noValueMessage digits hasPoint⟩
  | .grammatical (.rejected e) => .failed (.grammatical (e.diagnostic source) e.cause.expectation?)
  | .grammatical .noToken => .crashed ⟨.index, "list index out of range"⟩
  | .grammatical .unfinished => .exhausted

namespace Eval

/-- Finds the file of a module. -/
def resolveModule (path : Text) (importer : Option Text) (span : Option Span) : Eval Path := do
  match (← get).settings.resolve path importer with
  | .ok p => return p
  | .error (.namelessPath p) => crash .value (p.shown ++ " has an empty name")
  | .error (.notFound tried) =>
    fail { kind := .resolution, span := span, message := "cannot find module '" ++ path ++ "'",
           hints := ["looked in: " ++ Text.joinWith ", " (tried.map fun p => p.parent.render)] }

/-- Parses a source. -/
def parse (source : Text) (file : Option Text) : Eval Program :=
  match Program.parse source file with
  | .ok p => return p
  | .error e => exit (e.exit source)

/-- Marks a module as being evaluated while an action runs, however the action ends. -/
def whileLoading {α : Type} (p : Path) (x : Eval α) : Eval α := do
  modify fun m => { m with modules := { m.modules with loading := m.modules.loading ++ [p] } }
  let outcome ← attempt x
  modify fun m => { m with modules := { m.modules with loading := m.modules.loading.dropLast } }
  resume outcome

end Eval

namespace Interp

variable (I : Interp)

/-- The value of a program by the way its statements ended. -/
def programResult : Except Exit Value → Eval Value
  | .error (.returned v _) => return v
  | .error (.thrown v span) => do
    Eval.exit (.failed (.uncaught v span ("uncaught throw: " ++ (← Eval.quotedForm v))))
  | .error (.broke s) => Eval.outsideLoop "break" s
  | .error (.continued s) => Eval.outsideLoop "continue" s
  | outcome => Eval.resume outcome

/-- Records the file that the code of a frame comes from. The main frame always takes the file of the
latest program, other frames keep theirs. -/
def recordFile (frame : Nat) (file : Option Text) : Eval Unit := do
  let m ← get
  match file.filter fun f => !f.isEmpty with
  | some f =>
    if frame = m.mainFrame ∨ (m.heap.frame frame).file = none then
      Eval.modifyHeap (·.modifyFrame frame fun fr => { fr with file := some f })
    else return ()
  | none => return ()

/-- Runs a program in a frame and gives the value of its last statement. -/
def runProgram (p : Program) (frame : Nat) : Eval Value := do
  recordFile frame p.file
  programResult (← Eval.attempt (I.exec p.statements frame))

/-- Runs the program of a module in a frame of its own. -/
def runModule (p : Path) : Eval Nat := do
  let m ← get
  match m.settings.files.read? p with
  | none =>
    Eval.crash .fileNotFound ("[Errno 2] No such file or directory: " ++ Text.quoted p.render)
  | some content =>
    let program ← Eval.parse (Text.newlinesUnified content) (some p.render)
    let frame ← Eval.onHeap (·.newFrame
      { parent := some m.globalFrame, name := "module:" ++ p.name, isGlobal := true,
        file := some p.render })
    let _ ← I.runProgram program frame
    return frame

/-- Evaluates a module, and notes that its program has been run. -/
def evaluateModule (p : Path) : Eval Nat := do
  let frame ← I.runModule p
  modify fun m => { m with modules := m.modules.noted ⟨p, frame, true⟩ }
  return frame

/-- The frame of a module, which is evaluated if this is its first use. -/
def loadModule (path : Text) (importer : Option Text) (span : Option Span) : Eval Nat := do
  let p ← Eval.resolveModule path importer span
  let modules := (← get).modules
  match modules.loaded.get? p with
  | some frame =>
    modify fun m => { m with modules := m.modules.noted ⟨p, frame, false⟩ }
    return frame
  | none =>
    if p ∈ modules.loading then
      Eval.failWith .resolution ("cyclic import: " ++
        Text.joinWith " -> " ((modules.loading ++ [p]).map Path.name)) span
    else Eval.whileLoading p do
      let frame ← I.evaluateModule p
      modify fun m => { m with modules := m.modules.keeping p frame }
      return frame

end Interp

end ScriptEngine
