import ScriptEngine.Text.Basic

/-!
# The catalogue of native functions

The functions that the engine itself provides to scripts, with their names and how many arguments
they take. Besides the standard catalogue there are the functions of a byte stream and three probes
that a host can add to see how failures of host functions reach a script.
-/

namespace ScriptEngine

/-- How many arguments a native function takes. -/
structure Arity where
  least : Nat
  most : Option Nat
deriving DecidableEq, Inhabited

namespace Arity

/-- Exactly `n` arguments. -/
def exactly (n : Nat) : Arity := ⟨n, some n⟩

/-- Whether a number of arguments is accepted. -/
def accepts (a : Arity) (count : Nat) : Bool :=
  a.least ≤ count && a.most.all (count ≤ ·)

/-- The arity in words. -/
def describe (a : Arity) : Text :=
  match a.most with
  | none => "at least " ++ Text.ofNat a.least
  | some most =>
    if a.least = most then Text.ofNat a.least
    else Text.ofNat a.least ++ " to " ++ Text.ofNat most

end Arity

/-- The native functions. -/
inductive Native where
  -- console
  | print | write | readLine | clearConsole
  -- numbers, time and chance
  | floor | ceil | timeNanos | random | randomRange | randomItem
  -- strings and patterns
  | strToNumber | charCode | fromCharCode | unescape | strSplit | toText | typeOf
  | patternMatches | patternReplace
  -- arrays and buffers
  | pushArray | replaceArray | slice | reverse | elements | keys | shallowCopy | deepCopy
  | bufferToText | textToBuffer
  -- data, errors and references
  | parseJson | toJson | error | makeRef | deref | refSet
  -- calls, prototypes, threads and events
  | callFunction | prototypeNamed | prototypeOf | setPrototype | args | spawnThread
  | addEventListener
  -- tags
  | addTag | setTag | deleteTag | getTags
  -- streams
  | createStream
  -- probes of a host
  | boom | fault | nothing
  -- the functions of a byte stream
  | streamRead | streamWrite | streamClose | streamListen
deriving DecidableEq, Inhabited

namespace Native

/-- The name and the arity of a native function. -/
def signature : Native → String × Arity
  | print => ("print", ⟨0, none⟩)
  | write => ("write", ⟨0, none⟩)
  | readLine => ("read_line", ⟨0, some 1⟩)
  | clearConsole => ("clear_console", .exactly 0)
  | floor => ("floor", .exactly 1)
  | ceil => ("ceil", .exactly 1)
  | timeNanos => ("get_time_nanos", .exactly 0)
  | random => ("random", .exactly 0)
  | randomRange => ("random_range", .exactly 2)
  | randomItem => ("random_item", .exactly 1)
  | strToNumber => ("str_to_number", .exactly 1)
  | charCode => ("char_code", .exactly 1)
  | fromCharCode => ("from_char_code", .exactly 1)
  | unescape => ("unescape", .exactly 1)
  | strSplit => ("str_split", .exactly 2)
  | toText => ("to_string", .exactly 1)
  | typeOf => ("type_of", .exactly 1)
  | patternMatches => ("rg_is_match", .exactly 2)
  | patternReplace => ("rg_replace", .exactly 3)
  | pushArray => ("push_arr", .exactly 2)
  | replaceArray => ("arr_ref_set", .exactly 2)
  | slice => ("slice", ⟨2, some 3⟩)
  | reverse => ("reverse", .exactly 1)
  | elements => ("iter", .exactly 1)
  | keys => ("keys", .exactly 1)
  | shallowCopy => ("shallow_copy", .exactly 1)
  | deepCopy => ("deep_copy", .exactly 1)
  | bufferToText => ("buff_to_utf8", .exactly 1)
  | textToBuffer => ("utf8_to_buff", .exactly 1)
  | parseJson => ("parse_json", .exactly 1)
  | toJson => ("zephyr_to_json", .exactly 1)
  | error => ("error", ⟨1, some 3⟩)
  | makeRef => ("make_ref", .exactly 1)
  | deref => ("deref", .exactly 1)
  | refSet => ("ref_set", .exactly 2)
  | callFunction => ("call_zephyr_function", .exactly 2)
  | prototypeNamed => ("get_proto_obj", .exactly 1)
  | prototypeOf => ("get_proto_obj_of", .exactly 1)
  | setPrototype => ("set_proto_ref", .exactly 2)
  | args => ("get_args", .exactly 0)
  | spawnThread => ("spawn_thread", .exactly 1)
  | addEventListener => ("add_event_listener", .exactly 3)
  | addTag => ("add_tag", .exactly 3)
  | setTag => ("set_tag", .exactly 3)
  | deleteTag => ("delete_tag", .exactly 2)
  | getTags => ("get_tags", .exactly 1)
  | createStream => ("create_tcp_stream", .exactly 2)
  | boom => ("boom", .exactly 1)
  | fault => ("fault", .exactly 0)
  | nothing => ("nothing", ⟨1, none⟩)
  | streamRead => ("read", ⟨0, some 1⟩)
  | streamWrite => ("write", .exactly 1)
  | streamClose => ("close", .exactly 0)
  | streamListen => ("listen", .exactly 0)

/-- The name of a native function. -/
def name (n : Native) : Text := n.signature.1

/-- The arity of a native function. -/
def arity (n : Native) : Arity := n.signature.2

/-- The standard catalogue in the order in which scripts see it. -/
def standard : List Native :=
  [print, write, readLine, clearConsole, floor, ceil, timeNanos, random, randomRange, randomItem,
   strToNumber, charCode, fromCharCode, unescape, strSplit, toText, typeOf, patternMatches,
   patternReplace, pushArray, replaceArray, slice, reverse, elements, keys, shallowCopy, deepCopy,
   bufferToText, textToBuffer, parseJson, toJson, error, makeRef, deref, refSet, callFunction,
   prototypeNamed, prototypeOf, setPrototype, args, spawnThread, addEventListener, addTag, setTag,
   deleteTag, getTags, createStream]

/-- The probes that a host can add. -/
def probes : List Native := [boom, fault, nothing]

end Native

end ScriptEngine
