import ScriptEngine.Diagnostic
import ScriptEngine.Value.Basic

/-!
# Runtime faults

A fault is an error that the engine raises while a script runs. Its kind is what a script sees as
the type of the error it catches.
-/

namespace ScriptEngine

/-- The kinds of faults. -/
inductive FaultKind where
  | runtime | type | name | immutable | index | divisionByZero | arity | argumentType | noMatch
  | scopeViolation | resolution | value | native | recursion
deriving DecidableEq, Inhabited

namespace FaultKind

/-- The name of a kind and the code of its diagnostic. -/
def names : FaultKind → String × String
  | runtime => ("RuntimeError", "E400")
  | type => ("TypeError", "E401")
  | name => ("NameError", "E402")
  | immutable => ("ImmutableError", "E403")
  | index => ("IndexError", "E404")
  | divisionByZero => ("DivisionByZero", "E405")
  | arity => ("ArityError", "E406")
  | argumentType => ("ArgumentTypeError", "E407")
  | noMatch => ("NoMatchError", "E408")
  | scopeViolation => ("ScopeViolation", "E409")
  | resolution => ("ResolutionError", "E410")
  | value => ("ValueError", "E411")
  | native => ("NativeError", "E412")
  | recursion => ("RecursionError", "E413")

/-- The name of a kind. -/
def label (k : FaultKind) : Text := k.names.1

/-- The code of the diagnostic. -/
def code (k : FaultKind) : Text := k.names.2

end FaultKind

/-- A fault. A fault that no source text stands for has no span. -/
structure Fault where
  kind : FaultKind
  message : Text
  span : Option Span := none
  hints : List Text := []
  data : Option Value := none

namespace Fault

/-- The diagnostic of a fault. -/
def diagnostic (f : Fault) : Diagnostic :=
  { code := f.kind.code, message := f.message, span := f.span.getD Span.unknown, hints := f.hints }

/-- Gives a fault without a span the span of the call it came from. -/
def locatedAt (f : Fault) (span : Option Span) : Fault :=
  match f.span with
  | some _ => f
  | none => { f with span := span }

end Fault

end ScriptEngine
