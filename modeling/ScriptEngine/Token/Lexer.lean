import ScriptEngine.Diagnostic
import ScriptEngine.Text.Escape
import ScriptEngine.Text.Lines
import ScriptEngine.Token.Basic
import ScriptEngine.Token.Numeral
import ScriptEngine.Token.Trivia

/-!
# Reading tokens

A source is read lexeme by lexeme. Each scanner is a function of the text that is left; it returns
the lexeme and the rest, and the location of a lexeme is the location of the source's start moved
over the text before it.

* `scanLexeme_append`: the lexeme and the rest make up the text, and the lexeme is not empty.
* `Token.stream` gives all tokens up to the first failure, `tokenize` all or none.
-/

namespace ScriptEngine

/-- Why a text is no sequence of tokens. -/
inductive LexCause where
  | unexpectedCharacter (c : CodePoint)
  | unterminatedString
  | unterminatedComment
  | invalidEscape (shown : Text)
  | invalidNumber (lexeme : Text)
  | invalidHex (lexeme : Text)
  | invalidBinary (lexeme : Text)
deriving DecidableEq

namespace LexCause

/-- The code of the diagnostic. -/
def code : LexCause → Text
  | unexpectedCharacter _ => "E001"
  | unterminatedString => "E002"
  | unterminatedComment => "E004"
  | invalidEscape _ => "E005"
  | invalidNumber _ => "E006"
  | invalidHex _ => "E007"
  | invalidBinary _ => "E008"

/-- The message of the diagnostic. -/
def message : LexCause → Text
  | unexpectedCharacter c => "unexpected character '" ++ ([c] : Text) ++ "'"
  | unterminatedString => "unterminated string literal"
  | unterminatedComment => "unterminated multi-line comment (expected closing */)"
  | invalidEscape shown => "invalid escape sequence '\\" ++ shown ++ "'"
  | invalidNumber lexeme => "invalid number literal '" ++ lexeme ++ "'"
  | invalidHex lexeme => "invalid hexadecimal literal '" ++ lexeme ++ "'"
  | invalidBinary lexeme => "invalid binary literal '" ++ lexeme ++ "'"

/-- The hints of the diagnostic. -/
def hints : LexCause → List Text
  | unterminatedString => ["string literals must be closed with matching quotes"]
  | invalidEscape _ => ["valid escapes are \\n \\t \\r \\0 \\\\ \\\" \\' \\xHH \\u\x7bHHHH\x7d"]
  | _ => []

end LexCause

/-- A failure inside a lexeme. `malformed` has the text of the lexeme before the fault and the text
at fault; `noValue` is a decimal numeral with a digit that has no decimal value, or with too many digits. -/
inductive LexemeFailure where
  | malformed (cause : LexCause) (before inside : Text)
  | noValue (digits : Text) (hasPoint : Bool)

/-- A lexeme that was read. -/
structure Lexeme where
  kind : TokenKind
  text : Text
  rest : Text

namespace Lexeme

/-- The lexeme and the rest are the text it was read from, and the lexeme is not empty. -/
def Splits (l : Lexeme) (t : Text) : Prop := t = l.text ++ l.rest ∧ l.text ≠ []

end Lexeme

/-- Reads the rest of a string literal. `read` and `value` are the lexeme and the value so far, both
reversed. -/
def scanString (quote : CodePoint) (read value t : Text) : Except LexemeFailure Lexeme :=
  match t with
  | [] => .error (.malformed .unterminatedString [] read.reverse)
  | c :: rest =>
    if c = quote then .ok ⟨.string value.reverse, (c :: read).reverse, rest⟩
    else if c = '\n' then .error (.malformed .unterminatedString [] read.reverse)
    else if c = '\\' then
      match _h : Escape.read rest with
      | .error e => .error (.malformed (.invalidEscape e.shown) (c :: read).reverse e.consumed)
      | .ok s => scanString quote (s.consumed.reverse ++ c :: read) (s.value :: value) s.rest
    else scanString quote (c :: read) (c :: value) rest
termination_by t.length
decreasing_by
  · have := Escape.length_rest_lt _h; simp; omega
  · simp

/-- Reads a literal in base 16 or 2, given its two leading code points and what follows them. -/
def scanBased (lead : Text) (base : Nat) (cause : Text → LexCause) (t : Text) :
    Except LexemeFailure Lexeme :=
  let word := t.takeWhile CodePoint.isWordPart
  match Numeral.ofBase? base (Numeral.withoutUnderscores word) with
  | some n => .ok ⟨.number n, lead ++ word, t.dropWhile CodePoint.isWordPart⟩
  | none => .error (.malformed (cause (lead ++ word)) [] (lead ++ word))

/-- Reads a decimal literal. -/
def scanDecimal (t : Text) : Except LexemeFailure Lexeme :=
  let d := Numeral.decimalLexeme t
  match d.rest with
  | c :: _ =>
    if c.isWordStart then
      let lexeme := d.lexeme ++ d.rest.takeWhile CodePoint.isWordPart
      .error (.malformed (.invalidNumber lexeme) [] lexeme)
    else finish d
  | [] => finish d
where
  /-- The lexeme of a numeral that no word part follows. -/
  finish (d : Numeral.Decimal) : Except LexemeFailure Lexeme :=
    match d.value? with
    | some q => .ok ⟨.number q, d.lexeme, d.rest⟩
    | none => .error (.noValue (Numeral.withoutUnderscores d.lexeme) (d.fraction ≠ []))

/-- Reads a number literal. -/
def scanNumber (t : Text) : Except LexemeFailure Lexeme :=
  match t with
  | a :: b :: rest =>
    if a = '0' && (b = 'x' || b = 'X') then scanBased [a, b] 16 .invalidHex rest
    else if a = '0' && (b = 'b' || b = 'B') then scanBased [a, b] 2 .invalidBinary rest
    else scanDecimal t
  | _ => scanDecimal t

/-- The mark that may end an identifier: a question mark, or an exclamation mark that is not the
start of `!=`. -/
def nameMark : Text → Text
  | .scalar '?' :: _ => "?"
  | .scalar '!' :: .scalar '=' :: _ => []
  | .scalar '!' :: _ => "!"
  | _ => []

/-- Reads an identifier or a reserved word. -/
def scanWord (t : Text) : Lexeme :=
  let word := t.takeWhile CodePoint.isWordPart
  let rest := t.dropWhile CodePoint.isWordPart
  match Keyword.ofText? word with
  | some k => ⟨.keyword k, word, rest⟩
  | none =>
    let name := word ++ nameMark rest
    ⟨.identifier name, name, rest.drop (nameMark rest).length⟩

/-- Reads one lexeme at the start `c` of a text that no trivia precedes. -/
def scanLexeme (c : CodePoint) (rest : Text) : Except LexemeFailure Lexeme :=
  if c = '"' || c = '\'' then scanString c [c] [] rest
  else if c.isDigit then scanNumber (c :: rest)
  else if c.isWordStart then .ok (scanWord (c :: rest))
  else match Symbol.ofTextStart? (c :: rest) with
    | some (s, k) => .ok ⟨.symbol k, s, (c :: rest).drop s.length⟩
    | none => .error (.malformed (.unexpectedCharacter c) [] [c])

/-! ## Lexemes and the text they are read from -/

theorem scanString_append {quote : CodePoint} {read value t : Text} {l : Lexeme}
    (h : scanString quote read value t = .ok l) :
    read.reverse ++ t = l.text ++ l.rest ∧ l.text ≠ [] := by
  fun_induction scanString quote read value t with
  | case1 => cases h
  | case2 read value rest => cases h; simp
  | case3 => cases h
  | case4 => cases h
  | case5 read value rest s hs _ _ ih =>
    obtain ⟨ht, hn⟩ := ih h
    refine ⟨?_, hn⟩
    rw [← ht, (Escape.read_append hs).1]
    simp
  | case6 read value c rest _ _ _ ih =>
    obtain ⟨ht, hn⟩ := ih h
    exact ⟨by rw [← ht]; simp, hn⟩

theorem scanBased_splits {lead : Text} {base : Nat} {cause : Text → LexCause} {t : Text}
    {l : Lexeme} (hl : lead ≠ []) (h : scanBased lead base cause t = .ok l) :
    l.Splits (lead ++ t) := by
  unfold scanBased at h
  simp only at h
  split at h
  · cases h
    constructor
    · simp
    · simp [hl]
  · cases h

theorem scanDecimal_finish_splits {d : Numeral.Decimal} {l : Lexeme}
    (h : scanDecimal.finish d = .ok l) : l.text = d.lexeme ∧ l.rest = d.rest := by
  unfold scanDecimal.finish at h
  split at h <;> cases h
  exact ⟨rfl, rfl⟩

theorem decimalLexeme_ne_nil {c : CodePoint} {rest : Text} (hc : c.isDigit) :
    (Numeral.decimalLexeme (c :: rest)).lexeme ≠ [] := by
  have hr : (Numeral.digitRun (c :: rest)).1 ≠ [] := by
    unfold Numeral.digitRun; simp [hc]
  unfold Numeral.decimalLexeme Numeral.Decimal.lexeme
  simp only
  split
  · split <;> simp [hr]
  · simp [hr]

theorem scanDecimal_splits {c : CodePoint} {rest : Text} {l : Lexeme} (hc : c.isDigit)
    (h : scanDecimal (c :: rest) = .ok l) : l.Splits (c :: rest) := by
  have finished {d : Numeral.Decimal} (hd : d = Numeral.decimalLexeme (c :: rest))
      (hf : scanDecimal.finish d = .ok l) : l.Splits (c :: rest) := by
    obtain ⟨ht, hr⟩ := scanDecimal_finish_splits hf
    rw [Lexeme.Splits, ht, hr, hd]
    exact ⟨(Numeral.decimalLexeme_append _).symm, decimalLexeme_ne_nil hc⟩
  unfold scanDecimal at h
  simp only at h
  split at h
  · split at h
    · cases h
    · exact finished rfl h
  · exact finished rfl h

theorem scanNumber_splits {c : CodePoint} {rest : Text} {l : Lexeme} (hc : c.isDigit)
    (h : scanNumber (c :: rest) = .ok l) : l.Splits (c :: rest) := by
  unfold scanNumber at h
  split at h
  · next a b rest' he =>
    simp only [List.cons.injEq] at he
    obtain ⟨rfl, rfl⟩ := he
    split at h
    · simpa using scanBased_splits (by simp) h
    · split at h
      · simpa using scanBased_splits (by simp) h
      · exact scanDecimal_splits hc h
  · exact scanDecimal_splits hc h

theorem nameMark_append (t : Text) : nameMark t ++ t.drop (nameMark t).length = t := by
  unfold nameMark
  split <;> simp [Text.ofString]

theorem scanWord_splits {c : CodePoint} {rest : Text} (hc : c.isWordStart) :
    (scanWord (c :: rest)).Splits (c :: rest) := by
  have hp : c.isWordPart := by
    simp only [CodePoint.isWordStart, Bool.or_eq_true] at hc
    simp only [CodePoint.isWordPart, CodePoint.isAlphanumeric, Bool.or_eq_true]
    rcases hc with hc | hc <;> simp [hc]
  have hn : (c :: rest).takeWhile CodePoint.isWordPart ≠ [] := by simp [hp]
  unfold scanWord Lexeme.Splits
  simp only
  split
  · exact ⟨by simp, hn⟩
  · refine ⟨?_, by simp [hp]⟩
    simp only [List.append_assoc]
    rw [nameMark_append, List.takeWhile_append_dropWhile]

theorem ofTextStart?_splits {t s : Text} {k : Symbol} (h : Symbol.ofTextStart? t = some (s, k)) :
    t = s ++ t.drop s.length ∧ s ≠ [] := by
  have hp := List.find?_some h
  have hm := List.mem_of_find?_eq_some h
  constructor
  · obtain ⟨r, hr⟩ := List.isPrefixOf_iff_prefix.1 hp
    rw [← hr]; simp
  · have : ∀ p ∈ Symbol.spellings, p.1 ≠ [] := by decide
    exact this _ hm

/-- A lexeme and the rest make up the text it was read from, and it is not empty. -/
theorem scanLexeme_splits {c : CodePoint} {rest : Text} {l : Lexeme}
    (h : scanLexeme c rest = .ok l) : l.Splits (c :: rest) := by
  unfold scanLexeme at h
  split at h
  · simpa [Lexeme.Splits] using scanString_append h
  · split at h
    · next hc => exact scanNumber_splits hc h
    · split at h
      · next hc => cases h; exact scanWord_splits hc
      · split at h
        · next s k hk => cases h; exact ofTextStart?_splits hk
        · cases h

/-! ## Token streams -/

/-- Why a source is no sequence of tokens: a malformed part of the source, or a decimal numeral that the
host gives no value. -/
inductive LexError where
  | malformed (cause : LexCause) (span : Span)
  | noValue (digits : Text) (hasPoint : Bool)
deriving DecidableEq

/-- The failure of a lexeme that starts at a location. -/
def LexemeFailure.at (start : Location) : LexemeFailure → LexError
  | .malformed cause before inside =>
    .malformed cause ⟨start.after before, (start.after before).after inside⟩
  | .noValue digits hasPoint => .noValue digits hasPoint

/-- The tokens of a text that starts at a location, up to the first failure. A text without failures
ends with the token of the end of file. -/
def Token.stream (start : Location) (t : Text) : List Token × Option LexError :=
  match _ht : trivia t with
  | .error e =>
    let opened := start.after e.before
    ([], some (.malformed .unterminatedComment ⟨opened, opened.after e.comment⟩))
  | .ok (gap, []) =>
    let stop := start.after gap
    ([⟨.endOfFile, [], ⟨stop, stop⟩⟩], none)
  | .ok (gap, c :: rest) =>
    let first := start.after gap
    match _h : scanLexeme c rest with
    | .error e => ([], some (e.at first))
    | .ok l =>
      let stop := first.after l.text
      let (tokens, failure) := Token.stream stop l.rest
      (⟨l.kind, l.text, ⟨first, stop⟩⟩ :: tokens, failure)
termination_by t.length
decreasing_by
  obtain ⟨hs, hn⟩ := scanLexeme_splits _h
  have := List.length_pos_iff.2 hn
  rw [trivia_append _ht, hs]
  simp; omega

/-- The tokens of a source, the end of file last. -/
def tokenize (source : Text) (file : Option Text) : Except LexError (List Token) :=
  match Token.stream (Location.origin file) source with
  | (tokens, none) => .ok tokens
  | (_, some e) => .error e

/-- The diagnostic of a malformed part of a source. -/
def LexCause.diagnostic (cause : LexCause) (span : Span) (source : Text) : Diagnostic :=
  { code := cause.code, message := cause.message, span := span,
    sourceLine := source.line? span.start.line, hints := cause.hints }

/-- The message for a decimal numeral without a value. A whole number is read up to the first digit that has no
decimal value, so that too many digits before it are noticed first; a numeral with a point is looked through for
such digits before it is read. -/
def noValueMessage (digits : Text) (hasPoint : Bool) : Text :=
  if hasPoint then
    let whole := digits.takeWhile (· ≠ .scalar '.')
    let places := digits.drop (whole.length + 1)
    if whole.all CodePoint.isDecimal && places.all CodePoint.isDecimal then
      Text.digitLimitMessage (if Text.isReadable whole then places.length else whole.length)
    else "Invalid literal for Fraction: " ++ digits.quoted
  else
    let leading := digits.takeWhile CodePoint.isDecimal
    if Text.isReadable leading then "invalid literal for int() with base 10: " ++ digits.quoted
    else Text.digitLimitMessage leading.length

end ScriptEngine
