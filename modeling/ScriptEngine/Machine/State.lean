import ScriptEngine.Machine.Exit
import ScriptEngine.Module.Path
import ScriptEngine.Value.Display
import ScriptEngine.Value.Equality
import ScriptEngine.Value.Iteration
import ScriptEngine.Value.Scope

/-!
# The machine

The state that evaluation works on, and evaluation itself: a function of the state that gives a value
or an exit together with the new state. An exit keeps the changes made before it.
-/

namespace ScriptEngine

/-- How many calls may be active at a time, and how messages write that number. -/
structure CallLimit where
  count : Nat := 400
  shown : Text := "400"
deriving Inhabited

/-- What stays fixed while a session runs. -/
structure Settings where
  callLimit : CallLimit := {}
  searchPaths : List Path := []
  extension : Text := ".zr"
  arguments : List Text := []
  logsErrors : Bool := true
  files : FileTree := {}
  probes : Bool := false
deriving Inhabited

/-- A fixed set of events with the listeners of each. -/
structure Emitter where
  events : List Text
  listeners : OrderedMap Text (List Value)
deriving Inhabited

namespace Emitter

/-- An emitter without listeners. -/
def ofEvents (events : List Text) : Emitter := ⟨events, .ofList (events.map (·, []))⟩

/-- The emitter as a text. -/
def render (e : Emitter) : Text := "EventEmitter<" ++ Text.joinWith ", " e.events ++ ">"

/-- The listeners of an event, in the order in which they were added. -/
def listenersOf (e : Emitter) (event : Text) : List Value := (e.listeners.get? event).getD []

end Emitter

/-- A byte stream: the chunks still to be received, what was sent, and the emitter of its events. -/
structure Stream where
  incoming : List (List Nat) := []
  sent : List (List Nat) := []
  closed : Bool := false
  listening : Bool := false
  emitter : Nat := 0
deriving Inhabited

/-- An evaluation of a module that came to its end, or a load of a module that was known: the canonical path, the
frame of the module, and whether it was evaluated. -/
structure Load where
  path : Path
  frame : Nat
  evaluated : Bool
deriving DecidableEq

/-- The modules that have been evaluated, by canonical path with their frames, and those that are
being evaluated, the innermost last. The journal tells which modules were evaluated and which loads met one
that was known, the latest first; nothing that is evaluated depends on it. -/
structure Modules where
  loaded : OrderedMap Path Nat := .empty
  loading : List Path := []
  journal : List Load := []
deriving Inhabited

/-- The modules with an entry in the journal. -/
def Modules.noted (m : Modules) (l : Load) : Modules := { m with journal := l :: m.journal }

/-- The modules with one that is kept for later loads. -/
def Modules.keeping (m : Modules) (p : Path) (frame : Nat) : Modules := { m with loaded := m.loaded.insert p frame }

/-- The points of the evaluation of a try with a cleanup: the try is entered, its cleanup begins, and the
try is left. -/
inductive TryStage where
  | entered | cleaning | left
deriving DecidableEq

/-- A point of the evaluation of a try, with the cleanup of the try. -/
structure TryEvent where
  stage : TryStage
  cleanup : Block

/-- The state of a session. Output and log are kept in reverse. The clock and the source of chance
advance when they are read. The variants that have been declared are listed by declaration, the latest
first, and so are the events of tries; nothing that is evaluated depends on these lists. -/
structure Machine where
  settings : Settings := {}
  heap : Heap := {}
  nextTag : Nat := 1
  declared : List (List VariantTag) := []
  tries : List TryEvent := []
  depth : Nat := 0
  emitters : Array Emitter := #[]
  output : List Text := []
  input : Text := []
  log : List Text := []
  threads : Nat := 0
  clock : Nat := 1700000000000000000
  seed : Nat := 1
  stream : Stream := {}
  modules : Modules := {}
  mainFrame : Nat := 0
  globalFrame : Nat := 0
deriving Inhabited

/-- The heap of a machine, and the machine without it. Changes are made to a heap that no machine
holds any more, so that they are made in place. -/
@[noinline] def Machine.detachHeap (m : Machine) : Heap × Machine := (m.heap, { m with heap := {} })

/-- The failure that the host comes to without a text: its stack is used up, or it counts too many digits. -/
def Unprintable.failure : Unprintable → HostFailure
  | endless => ⟨.recursion, "maximum recursion depth exceeded"⟩
  | tooLong => ⟨.value, Text.digitLimitMessage none⟩

/-- An evaluation. -/
abbrev Eval := EStateM Exit Machine

namespace Eval

/-- Ends with an exit. -/
@[inline] def exit {α : Type} (e : Exit) : Eval α := throw e

/-- Ends with a fault. -/
def fail {α : Type} (f : Fault) : Eval α := exit (.failed (.fault f))

/-- Ends with a fault of a kind. -/
def failWith {α : Type} (kind : FaultKind) (message : Text) (span : Option Span) : Eval α :=
  fail { kind := kind, message := message, span := span }

/-- Ends with a failure of the host. -/
def crash {α : Type} (kind : HostFailureKind) (message : Text) : Eval α :=
  exit (.crashed ⟨kind, message⟩)

/-- Runs an evaluation and gives its exit, if it ends by one, as a result. -/
@[inline] def attempt {α : Type} (x : Eval α) : Eval (Except Exit α) := fun m =>
  match x m with
  | .ok a m => .ok (.ok a) m
  | .error e m => .ok (.error e) m

/-- Ends as a result of `attempt` says. -/
@[inline] def resume {α : Type} : Except Exit α → Eval α
  | .ok a => pure a
  | .error e => exit e

/-- The heap. -/
@[inline] def heap : Eval Heap := return (← get).heap

/-- Changes the heap by an operation that gives a result. -/
@[inline] def onHeap {α : Type} (f : Heap → α × Heap) : Eval α :=
  modifyGet fun m =>
    let (h, m) := m.detachHeap
    let (a, h) := f h
    (a, { m with heap := h })

/-- Changes the heap. -/
@[inline] def modifyHeap (f : Heap → Heap) : Eval Unit := onHeap fun h => ((), f h)

/-- A result of the heap, or a fault. -/
@[inline] def readHeap {α : Type} (f : Heap → Except Fault α) : Eval α := do
  match f (← heap) with
  | .ok a => return a
  | .error e => fail e

/-- Ends as the host does that cannot write a text. -/
def unprintable {α : Type} (e : Unprintable) : Eval α := exit (.crashed e.failure)

/-- Ends a recursion that has no end in the way the host does, whose stack it uses up. -/
def endless {α : Type} : Eval α := unprintable .endless

/-- A result of the heap, or the end of a recursion without end if there is none. -/
def readEndless {α : Type} (f : Heap → Option α) : Eval α := do
  match f (← heap) with
  | some a => return a
  | none => endless

/-- A new array. -/
def newArray (items : Array Value) : Eval Value := onHeap (·.newArray items)

/-- A new object. -/
def newObject (entries : OrderedMap Text Value) : Eval Value := onHeap (·.newObject entries)

/-- A new array of texts. -/
def newTexts (ts : List Text) : Eval Value := newArray (ts.map Value.string).toArray

/-- A text of the heap, or the failure of the host that cannot write it. -/
def readText (f : Heap → Except Unprintable Text) : Eval Text := do
  match f (← heap) with
  | .ok t => return t
  | .error e => unprintable e

/-- The text of a value as it is printed. -/
def display (v : Value) : Eval Text := readText (·.display v)

/-- The text of a value with strings quoted. -/
def quotedForm (v : Value) : Eval Text := readText (·.quotedForm v)

/-- Whether two values are equal. -/
def equal (a b : Value) : Eval Bool := return (← heap).equal a b

/-- A new frame inside another. -/
def childFrame (parent : Nat) (name : Text) (isPure : Bool := false) : Eval Nat :=
  onHeap (·.childFrame parent name isPure)

/-- Binds a name in a frame. -/
def define (frame : Nat) (name : BindingName) (value : Value) (constant : Bool)
    (span : Option Span) : Eval Unit := do
  if (← heap).isConstant frame name then fail (Heap.redeclared name span)
  else modifyHeap (·.bind frame name value constant)

/-- The value of a name. -/
def lookup (frame : Nat) (name : Text) (span : Option Span) : Eval Value :=
  readHeap (·.lookup frame name span)

/-- Gives a name a new value where it is bound. -/
def assign (frame : Nat) (name : Text) (value : Value) (span : Option Span) : Eval Unit := do
  let owner ← readHeap (·.assignable frame name span)
  modifyHeap (·.bind owner (some name) value false)

/-- Offers a binding of a frame to importers. -/
def declareExport (frame : Nat) (name : BindingName) (altName : Option Text) (span : Option Span) :
    Eval Unit := do
  let h ← readHeap (·.declareExport frame name altName span)
  modify fun m => { m with heap := h }

/-- A fresh identity for an enum or a variant. -/
def freshTag : Eval Nat := modifyGet fun m => (m.nextTag, { m with nextTag := m.nextTag + 1 })

/-- Writes a text to the console. -/
def write (t : Text) : Eval Unit := modify fun m => { m with output := t :: m.output }

/-- Writes an error to the log, unless the log is quiet. -/
def logError (t : Text) : Eval Unit :=
  modify fun m => if m.settings.logsErrors then { m with log := t :: m.log } else m

/-- Notes an event of a try. -/
def note (stage : TryStage) (cleanup : Block) : Eval Unit :=
  modify fun m => { m with tries := ⟨stage, cleanup⟩ :: m.tries }

/-- The elements of an array as a list. -/
def arrayItems (id : Nat) : Eval (List Value) := return ((← heap).array id).toList

end Eval

end ScriptEngine
