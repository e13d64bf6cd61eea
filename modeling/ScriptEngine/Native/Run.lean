import ScriptEngine.Native.Chance
import ScriptEngine.Native.Console
import ScriptEngine.Native.Exchange
import ScriptEngine.Native.Strings
import ScriptEngine.Native.Transport

/-!
# Calls of native functions

`Native.run` is what each native function does, and `Native.call` a call of it: the number of arguments
is checked first, a fault without a place gets the place of the call, and a failure of the host becomes
a fault of the script.
-/

namespace ScriptEngine.Native

/-- The fault of a wrong number of arguments. -/
def wrongArity {α : Type} (n : Native) (count : Nat) (span : Option Span) : Eval α :=
  n.reject span .arity (" takes " ++ n.arity.describe ++ " arguments but " ++ Text.ofNat count ++
    " were given")

/-- The failure that a host's probe asks for. -/
def probeFailure (which : Text) : HostFailureKind :=
  if which = "type" then .type
  else if which = "zero" then .zeroDivision
  else if which = "os" then .os
  else .value

/-- What a native function does with its arguments. -/
def run (I : Interp) (n : Native) (args : List Value) (span : Option Span) : Eval Value :=
  match n, args with
  | .print, args => writeValues " " "\n" args
  | .write, args => writeValues [] [] args
  | .readLine, args => readInput args.head?
  | .clearConsole, _ => clearScreen
  | .floor, [v] => floorOf span v
  | .ceil, [v] => ceilOf span v
  | .timeNanos, _ => now
  | .random, _ => fraction
  | .randomRange, [low, high] => between span low high
  | .randomItem, [v] => choice span v
  | .strToNumber, [v] => parseNumber span v
  | .charCode, [v] => codeOf span v
  | .fromCharCode, [v] => ofCode span v
  | .unescape, [v] => unescaped span v
  | .strSplit, [v, sep] => splitString span v sep
  | .toText, [v] => return .string (← Eval.display v)
  | .typeOf, [v] => return .string v.typeName
  | .patternMatches, [pattern, v] => matchPattern span pattern v
  | .patternReplace, [pattern, v, replacement] => replacePattern span pattern v replacement
  | .pushArray, [arr, v] => pushTo span arr v
  | .replaceArray, [arr, other] => replaceItems span arr other
  | .slice, v :: start :: rest => sliceOf span v start rest.head?
  | .reverse, [v] => reversed span v
  | .elements, [v] => elementsOf span v
  | .keys, [v] => keysOf span v
  | .shallowCopy, [v] => Eval.onHeap (·.shallowCopy v)
  | .deepCopy, [v] => Eval.onHeap (·.deepCopy v)
  | .bufferToText, [v] => decodeBuffer span v
  | .textToBuffer, [v] => encodeBuffer span v
  | .parseJson, [v] => readJson span v
  | .toJson, [v] => writeJson span v
  | .error, message :: rest => makeError span message rest[0]? rest[1]?
  | .makeRef, [v] => newRef v
  | .deref, [v] => target span v
  | .refSet, [r, v] => retarget span r v
  | .callFunction, [f, xs] => callWith I span f xs
  | .prototypeNamed, [name] => namedPrototype span name
  | .prototypeOf, [v] => return (← Eval.heap).prototypeOf v
  | .setPrototype, [v, proto] => withPrototype span v proto
  | .args, _ => do Eval.newTexts (← get).settings.arguments
  | .spawnThread, [f] => spawn I span f
  | .addEventListener, [emitter, event, listener] => listenTo span emitter event listener
  | .addTag, [v, name, content] => tagOnce span v name content
  | .setTag, [v, name, content] => tagWith span v name content
  | .deleteTag, [v, name] => untag span v name
  | .getTags, [v] => tagsOf v
  | .createStream, [host, port] => connect span host port
  | .boom, [which] => Eval.crash (probeFailure which.stringText) "bad input"
  | .fault, _ => Eval.failWith .type "host fault without a span" none
  | .nothing, _ => return .null
  | .streamRead, args => readStream span args.head?
  | .streamWrite, [v] => writeStream span v
  | .streamClose, _ => closeStream
  | .streamListen, _ => listenStream I span
  | n, args => n.wrongArity args.length span

/-- Calls a native function. -/
def call (I : Interp) (n : Native) (args : List Value) (span : Option Span) : Eval Value := do
  if !n.arity.accepts args.length then n.wrongArity args.length span
  else match ← Eval.attempt (n.run I args span) with
    | .error (.failed (.fault f)) => Eval.fail (f.locatedAt span)
    | .error (.crashed e) =>
      if e.kind.isBridged then n.reject span .native (": " ++ e.message)
      else Eval.exit (.crashed e)
    | outcome => Eval.resume outcome

end ScriptEngine.Native
