import ScriptEngine.Native.Argument
import ScriptEngine.Native.Collection
import ScriptEngine.Value.Prototype

/-!
# Natives of tags, calls, prototypes, threads and events

**Tags** are not changed in place: each function gives the same payload with other tags. The reserved tags cannot be
set or removed. A **thread** runs to its end when it is started, with a call depth of its own; a failure of it is
written to the log and does not reach the script that started it. The **listeners** of an event are those that it has
when it is emitted; a failure of one is written to the log and the others still run.
-/

namespace ScriptEngine.Native

/-! ## Tags -/

/-- The name of a tag that a script may set. -/
def tagName (f : Native) (span : Option Span) (name : Value) : Eval Text := do
  let key ← f.text 2 span name
  if key ∈ TagName.reserved then f.reject span .value (": tag '" ++ key ++ "' is reserved")
  else return key

/-- Sets a tag that the value does not carry yet. -/
def tagOnce (span : Option Span) (v name content : Value) : Eval Value := do
  let key ← addTag.tagName span name
  let text ← addTag.text 3 span content
  if (v.tag? key).isSome then
    addTag.reject span .value (": value is already tagged '" ++ key ++ "'")
  else return v.setTag key (.text text)

/-- Sets a tag. -/
def tagWith (span : Option Span) (v name content : Value) : Eval Value := do
  let key ← setTag.tagName span name
  return v.setTag key (.text (← setTag.text 3 span content))

/-- Removes a tag. -/
def untag (span : Option Span) (v name : Value) : Eval Value := do
  return v.eraseTag (← deleteTag.tagName span name)

/-- The text of an event emitter. -/
def emitterText (m : Machine) (id : Nat) : Text := (m.emitters.getD id default).render

/-- An object with the tags of a value as texts. -/
def tagsOf (v : Value) : Eval Value := do
  let m ← get
  Eval.newObject (.ofList (v.tags.map fun (k, t) => (k, .string (t.shown (emitterText m)))))

/-! ## Calls, prototypes, threads and events -/

/-- Calls a function with the elements of an array as arguments. -/
def callWith (I : Interp) (span : Option Span) (f args : Value) : Eval Value := do
  I.call f (← callFunction.arrayItems 2 span args) span

/-- The prototype with a given name. -/
def namedPrototype (span : Option Span) (v : Value) : Eval Value := do
  let name ← prototypeNamed.text 1 span v
  match Prototype.named? name with
  | some p => return p
  | none => Eval.failWith .value ("no prototype named '" ++ name ++ "'") span

/-- The same value with a prototype of its own. -/
def withPrototype (span : Option Span) (v proto : Value) : Eval Value := do
  let target ← match proto.payload with
    | .reference id => do pure ((← Eval.heap).reference id)
    | _ => pure proto
  if target.kind = .object then return v.setTag TagName.prototype (.prototype proto)
  else
    setPrototype.reject span .type (" argument 2 must be an object or a reference to one, not a " ++
      target.typeName)

/-- Runs an action whose failures go to the log, each described as `what`. Exits that are no
failures of a script pass. -/
def logged (what : Text → Text) (x : Eval Value) : Eval Unit := do
  match ← Eval.attempt x with
  | .ok _ => return ()
  | .error (.thrown v _) => Eval.logError (what "throw" ++ ": " ++ (← Eval.display v))
  | .error (.failed e) => Eval.logError (what "fault" ++ ": " ++ e.message)
  | .error e => Eval.exit e

/-- Runs an action as a thread: with a call depth of its own, and without an exit except that of
running out of fuel. -/
def asThread (x : Text → Eval Unit) : Eval Unit := do
  let depth := (← get).depth
  modify fun m => { m with threads := m.threads + 1, depth := 0 }
  let outcome ← Eval.attempt (x ("zephyr-" ++ Text.ofNat (← get).threads))
  modify fun m => { m with depth := depth }
  match outcome with
  | .error .exhausted => Eval.exit .exhausted
  | _ => return ()

/-- Starts a thread that calls a function. -/
def spawn (I : Interp) (span : Option Span) (f : Value) : Eval Value := do
  if f.isCallable then
    asThread fun name =>
      logged (fun sort : Text => "uncaught " ++ sort ++ " in thread " ++ name) (I.call f [] span)
    return .null
  else spawnThread.reject span .type " expects a function"

/-- Adds a listener to an event of an emitter. -/
def listenTo (span : Option Span) (emitter event listener : Value) : Eval Value := do
  match emitter.emitter? with
  | none =>
    addEventListener.reject span .type (" argument 1 must be an event emitter, not a " ++
      emitter.typeName)
  | some id =>
    let name ← addEventListener.text 2 span event
    if !listener.isCallable then
      addEventListener.reject span .type " argument 3 must be a function"
    else
      let e := (← get).emitters.getD id default
      match e.listeners.get? name with
      | none => Eval.failWith .value ("event emitter has no '" ++ name ++ "' event (has: " ++
          Text.joinWith ", " e.events ++ ")") span
      | some listeners =>
        let e := { e with listeners := e.listeners.insert name (listeners ++ [listener]) }
        modify fun m => { m with emitters := m.emitters.setIfInBounds id e }
        return .null

/-- Calls the listeners that an event has, and tells how many there were. -/
def emit (I : Interp) (id : Nat) (event : Text) (args : List Value) : Eval Nat := do
  let listeners := ((← get).emitters.getD id default).listenersOf event
  listeners.forM fun listener =>
    logged (fun sort : Text => "uncaught " ++ sort ++ " in '" ++ event ++ "' listener")
      (I.call listener args none)
  return listeners.length

end ScriptEngine.Native
