import ScriptEngine.Native.Argument
import ScriptEngine.Text.Lines

/-!
# Natives of the console

Printing, and reading lines of the input.
-/

namespace ScriptEngine.Native

/-- Writes values with a separator between them. -/
def writeValues (separator ending : Text) (args : List Value) : Eval Value := do
  let texts ← args.mapM Eval.display
  Eval.write (Text.joinWith separator texts ++ ending)
  return .null

/-- A text without the line ends at its end. -/
def withoutLineEnds (t : Text) : Text :=
  (t.reverse.dropWhile fun c : CodePoint => c = '\n' || c = '\r').reverse

/-- Takes the next line of the input, its line feed included. -/
def takeLine : Eval Text :=
  modifyGet fun m =>
    let (line, rest) := Text.firstLine m.input
    (line, { m with input := rest })

/-- Reads a line after showing a prompt. At the end of the input there is none. -/
def readInput (prompt : Option Value) : Eval Value := do
  match prompt with
  | some p => Eval.write (← Eval.display p)
  | none => pure ()
  let line ← takeLine
  return if line.isEmpty then .null else .string (withoutLineEnds line)

/-- Clears the console. -/
def clearScreen : Eval Value := do
  Eval.write "\x1b[2J\x1b[H"
  return .null

end ScriptEngine.Native
