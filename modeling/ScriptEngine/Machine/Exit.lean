import ScriptEngine.Value.Fault

/-!
# How an evaluation ends

An evaluation ends with a value or by an exit: a statement that leaves the surrounding construct, an
error of the engine, a failure of the host, or because its fuel is used up.
-/

namespace ScriptEngine

/-- An error of the engine. -/
inductive EngineError where
  | lexical (d : Diagnostic)
  | grammatical (d : Diagnostic) (expectation : Option (Text × Text))
  | fault (f : Fault)
  | uncaught (value : Value) (span : Option Span) (message : Text)

namespace EngineError

/-- The diagnostic of an error. -/
def diagnostic : EngineError → Diagnostic
  | lexical d => d
  | grammatical d _ => d
  | fault f => f.diagnostic
  | uncaught _ span message =>
    { code := "E400", message := message, span := span.getD Span.unknown }

/-- The message of an error. -/
def message (e : EngineError) : Text := e.diagnostic.message

/-- The name of the sort of an error: the kind of a fault, or the part of the engine it is from. -/
def label : EngineError → Text
  | lexical _ => "LexerError"
  | grammatical _ _ => "ParserError"
  | fault f => f.kind.label
  | uncaught _ _ _ => "UncaughtThrow"

/-- The type of the error value that a script catches. -/
def caughtAs : EngineError → Text
  | lexical _ => "LexError"
  | grammatical _ _ => "ParseError"
  | fault f => f.kind.label
  | uncaught _ _ _ => "Error"

end EngineError

/-- The failures of the host. -/
inductive HostFailureKind where
  | value | type | zeroDivision | overflow | os | fileNotFound | index | missingAttribute | recursion
deriving DecidableEq, Inhabited

namespace HostFailureKind

/-- The name of a sort of failure. -/
def label : HostFailureKind → Text
  | value => "ValueError"
  | type => "TypeError"
  | zeroDivision => "ZeroDivisionError"
  | overflow => "OverflowError"
  | os => "OSError"
  | fileNotFound => "FileNotFoundError"
  | index => "IndexError"
  | missingAttribute => "AttributeError"
  | recursion => "RecursionError"

/-- Whether a native function turns a failure of the host into a fault of the script. -/
def isBridged : HostFailureKind → Bool
  | index => false
  | missingAttribute => false
  | recursion => false
  | _ => true

end HostFailureKind

/-- A failure of the host. Scripts cannot catch it. -/
structure HostFailure where
  kind : HostFailureKind
  message : Text

/-- How an evaluation ends without a value. -/
inductive Exit where
  | returned (value : Value) (span : Span)
  | broke (span : Span)
  | continued (span : Span)
  | thrown (value : Value) (span : Option Span)
  | failed (e : EngineError)
  | crashed (e : HostFailure)
  | exhausted

end ScriptEngine
