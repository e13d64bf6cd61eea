import ScriptEngine.Source.Span

/-!
# Diagnostics

A diagnostic is what the engine reports of an error: a code, a message, a span, the source line the
span starts in when it is known, and hints. `Diagnostic.format` lays it out for a reader.
-/

namespace ScriptEngine

/-- A report of one error. -/
structure Diagnostic where
  code : Text
  message : Text
  span : Span := Span.unknown
  sourceLine : Option Text := none
  hints : List Text := []
deriving Inhabited

namespace Diagnostic

/-- Whether the span lies in a source. -/
def hasLocation (d : Diagnostic) : Bool := 0 < d.span.start.line

/-- The first line: location, code and message. -/
def header (d : Diagnostic) : Text :=
  (if d.hasLocation then d.span.start.render ++ ": " else []) ++
    "error[" ++ d.code ++ "]: " ++ d.message

/-- The number of carets under an excerpt: up to the end of the span, or of the line when the span
goes on to another line, and never fewer than one. -/
def underlineWidth (d : Diagnostic) (line : Text) : Nat :=
  let stop := if d.span.start.line = d.span.stop.line then d.span.stop.column else line.length + 1
  max 1 (stop - d.span.start.column)

/-- The excerpt: the source line with its number, and carets under the span. -/
def excerpt (d : Diagnostic) (line : Text) : List Text :=
  ["  |",
   Text.padLeft 3 (Text.ofNat d.span.start.line) ++ " | " ++ line,
   "    | " ++ Text.replicate (d.span.start.column - 1) ' ' ++
     Text.replicate (d.underlineWidth line) '^']

/-- The lines of the report joined by line feeds. -/
def format (d : Diagnostic) (showSource : Bool := true) : Text :=
  let shown := match d.sourceLine with
    | some line => if showSource && d.hasLocation then d.excerpt line else []
    | none => []
  Text.joinWith "\n" ([d.header] ++ shown ++ d.hints.map fun hint : Text => "    = hint: " ++ hint)

end Diagnostic

end ScriptEngine
