import ScriptEngine.Native.Argument
import ScriptEngine.Number.Reading
import ScriptEngine.Pattern.Template
import ScriptEngine.Text.Escape
import ScriptEngine.Text.Search
import ScriptEngine.Token.Lexer

/-!
# Natives of strings

Conversions between strings, numbers, code points and escapes, and the search for patterns.
-/

namespace ScriptEngine.Native

/-- The number that a string spells. -/
def parseNumber (span : Option Span) (v : Value) : Eval Value := do
  let t ← strToNumber.text 1 span v
  match Number.ofText? t with
  | some q => return .number q
  | none => Eval.failWith .value ("cannot convert " ++ Text.quoted t ++ " to a number") span

/-- The number of the only code point of a string. -/
def codeOf (span : Option Span) (v : Value) : Eval Value := do
  match ← charCode.text 1 span v with
  | [c] => return .number c.toNat
  | _ => charCode.reject span .value " expects a single character"

/-- The string of a code point. -/
def ofCode (span : Option Span) (v : Value) : Eval Value := do
  let n ← fromCharCode.whole 1 span v
  match if 0 ≤ n then CodePoint.ofNat? n.toNat else none with
  | some c => return .string [c]
  | none => Eval.failWith .value ("invalid character code " ++ Text.ofInt n) span

/-- A string with its escape sequences interpreted. -/
def unescaped (span : Option Span) (v : Value) : Eval Value := do
  match Escape.decode (← unescape.text 1 span v) with
  | .ok t => return .string t
  | .error e => unescape.reject span .value (": " ++ (LexCause.invalidEscape e.shown).message)

/-- The pieces of a string between separators; without a separator, its characters. -/
def splitString (span : Option Span) (v separator : Value) : Eval Value := do
  let t ← strSplit.text 1 span v
  let sep ← strSplit.text 2 span separator
  Eval.newTexts (if sep.isEmpty then t.map ([·]) else Text.splitOn sep t)

/-! ## Patterns -/

/-- Ends as an error of a pattern or a template says. -/
def patternError {α : Type} (f : Native) (span : Option Span) (intro source : Text) :
    Pattern.Error → Eval α
  | .malformed cause position =>
    f.reject span .value (": " ++ intro ++ Pattern.located cause position source)
  | .excessiveRepeat => Eval.crash .overflow "the repetition number is too large"
  | .clashingFlags => Eval.crash .value "ASCII and UNICODE flags are incompatible"
  | .unknownGroupName name => Eval.crash .index ("unknown group name " ++ Text.quoted name)

/-- The pattern that is the first argument. -/
def patternOf (f : Native) (span : Option Span) (v : Value) : Eval Pattern.Tree := do
  let source ← f.text 1 span v
  match Pattern.Tree.ofText source with
  | .ok t => return t
  | .error e => patternError f span "invalid pattern: " source e

/-- Whether a pattern occurs in a string. -/
def matchPattern (span : Option Span) (pattern v : Value) : Eval Value := do
  let t ← patternMatches.patternOf span pattern
  return .bool (t.occursIn (← patternMatches.text 2 span v))

/-- A string with the matches of a pattern replaced. -/
def replacePattern (span : Option Span) (pattern v replacement : Value) : Eval Value := do
  let t ← patternReplace.patternOf span pattern
  let text ← patternReplace.text 2 span v
  let source ← patternReplace.text 3 span replacement
  match Pattern.Template.ofText t source with
  | .ok template => return .string (t.replace template text)
  | .error e => patternError patternReplace span [] source e

end ScriptEngine.Native
