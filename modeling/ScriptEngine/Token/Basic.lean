import ScriptEngine.Source.Span
import ScriptEngine.Text.Quoted

/-!
# Tokens

A token is a lexeme of the source with its kind and span. The kind carries what the parser needs to
know of the lexeme: the value of a number or a string, the name of an identifier, and which keyword
or symbol it is.

* `Keyword.ofText?` and `Symbol.text` are the spellings.
* `TokenKind.label` is the name of the kind in listings.
-/

namespace ScriptEngine

/-- The reserved words. -/
inductive Keyword where
  | kwLet | kwConst | kwFunc | kwIf | kwElse | kwFor | kwIn | kwWhile | kwUntil | kwLoop | kwBreak
  | kwContinue | kwReturn | kwTry | kwCatch | kwFinally | kwThrow | kwMatch | kwIs | kwEnum
  | kwImport | kwExport | kwFrom | kwPure | kwWhere | kwAs | kwTypeof | kwTrue | kwFalse | kwNull
deriving DecidableEq, Inhabited

namespace Keyword

/-- All reserved words. -/
def all : List Keyword :=
  [kwLet, kwConst, kwFunc, kwIf, kwElse, kwFor, kwIn, kwWhile, kwUntil, kwLoop, kwBreak,
   kwContinue, kwReturn, kwTry, kwCatch, kwFinally, kwThrow, kwMatch, kwIs, kwEnum, kwImport,
   kwExport, kwFrom, kwPure, kwWhere, kwAs, kwTypeof, kwTrue, kwFalse, kwNull]

/-- The spelling of a reserved word. -/
def spelling : Keyword → String
  | kwLet => "let" | kwConst => "const" | kwFunc => "func" | kwIf => "if" | kwElse => "else"
  | kwFor => "for" | kwIn => "in" | kwWhile => "while" | kwUntil => "until" | kwLoop => "loop"
  | kwBreak => "break" | kwContinue => "continue" | kwReturn => "return" | kwTry => "try"
  | kwCatch => "catch" | kwFinally => "finally" | kwThrow => "throw" | kwMatch => "match"
  | kwIs => "is" | kwEnum => "enum" | kwImport => "import" | kwExport => "export"
  | kwFrom => "from" | kwPure => "pure" | kwWhere => "where" | kwAs => "as"
  | kwTypeof => "typeof" | kwTrue => "true" | kwFalse => "false" | kwNull => "null"

/-- The spelling as a text. -/
def text (k : Keyword) : Text := k.spelling

/-- The name of a reserved word in listings. -/
def label (k : Keyword) : Text := k.spelling.toUpper

/-- The reserved word with a given spelling. -/
def ofText? (t : Text) : Option Keyword := all.find? (·.text == t)

end Keyword

/-- The operators and punctuation marks. -/
inductive Symbol where
  | plus | minus | star | slash | percent | doubleStar | increment | decrement
  | eq | ne | lt | gt | le | ge | and | or | not
  | assign | plusAssign | minusAssign | starAssign | slashAssign | percentAssign
  | range | rangeInclusive | rangeExclusiveEnd | rangeExclusiveStart
  | lparen | rparen | lbracket | rbracket | lbrace | rbrace
  | comma | colon | semicolon | dot | question | dollar
deriving DecidableEq, Inhabited

namespace Symbol

/-- The symbols of three code points, tried first. -/
def long : List (String × Symbol) := [("..=", rangeInclusive)]

/-- The symbols of two code points, tried before the single ones. -/
def double : List (String × Symbol) :=
  [("..", range), (".<", rangeExclusiveEnd), ("<.", rangeExclusiveStart), ("==", eq), ("!=", ne),
   ("<=", le), (">=", ge), ("&&", and), ("||", or), ("**", doubleStar), ("++", increment),
   ("--", decrement), ("+=", plusAssign), ("-=", minusAssign), ("*=", starAssign),
   ("/=", slashAssign), ("%=", percentAssign)]

/-- The symbols of one code point. -/
def single : List (String × Symbol) :=
  [("+", plus), ("-", minus), ("*", star), ("/", slash), ("%", percent), ("<", lt), (">", gt),
   ("=", assign), ("!", not), ("$", dollar), ("?", question), (":", colon), (";", semicolon),
   (",", comma), (".", dot), ("(", lparen), (")", rparen), ("[", lbracket), ("]", rbracket),
   ("\x7b", lbrace), ("\x7d", rbrace)]

/-- All symbols with their spellings, longer spellings first. -/
def spellings : List (Text × Symbol) := (long ++ double ++ single).map fun (s, k) => (↑s, k)

/-- The symbol that a text starts with, the longest if there are several. -/
def ofTextStart? (t : Text) : Option (Text × Symbol) :=
  spellings.find? fun (s, _) => s.isPrefixOf t

/-- The name of a symbol in listings. -/
def label : Symbol → Text
  | plus => "PLUS" | minus => "MINUS" | star => "STAR" | slash => "SLASH" | percent => "PERCENT"
  | doubleStar => "DOUBLE_STAR" | increment => "INCREMENT" | decrement => "DECREMENT"
  | eq => "EQ" | ne => "NE" | lt => "LT" | gt => "GT" | le => "LE" | ge => "GE"
  | and => "AND" | or => "OR" | not => "NOT" | assign => "ASSIGN"
  | plusAssign => "PLUS_ASSIGN" | minusAssign => "MINUS_ASSIGN" | starAssign => "STAR_ASSIGN"
  | slashAssign => "SLASH_ASSIGN" | percentAssign => "PERCENT_ASSIGN"
  | range => "RANGE" | rangeInclusive => "RANGE_INCLUSIVE"
  | rangeExclusiveEnd => "RANGE_EXCLUSIVE_END" | rangeExclusiveStart => "RANGE_EXCLUSIVE_START"
  | lparen => "LPAREN" | rparen => "RPAREN" | lbracket => "LBRACKET" | rbracket => "RBRACKET"
  | lbrace => "LBRACE" | rbrace => "RBRACE" | comma => "COMMA" | colon => "COLON"
  | semicolon => "SEMICOLON" | dot => "DOT" | question => "QUESTION" | dollar => "DOLLAR"

end Symbol

/-- The kind of a token, with what it stands for. -/
inductive TokenKind where
  | number (value : Rat)
  | string (value : Text)
  | identifier (name : Text)
  | keyword (k : Keyword)
  | symbol (s : Symbol)
  | endOfFile
deriving DecidableEq, Inhabited

/-- The name of a kind in listings. -/
def TokenKind.label : TokenKind → Text
  | number _ => "NUMBER"
  | string _ => "STRING"
  | identifier _ => "IDENTIFIER"
  | keyword k => k.label
  | symbol s => s.label
  | endOfFile => "EOF"

/-- A lexeme of the source with its kind and span. -/
structure Token where
  kind : TokenKind
  lexeme : Text
  span : Span
deriving DecidableEq, Inhabited

/-- Whether a name is reserved. -/
def isKeyword (name : Text) : Bool := (Keyword.ofText? name).isSome

/-- Whether a name is that of a predicate: predicates end with a question mark. -/
def isPredicateName (name : Text) : Bool := name.getLast? == some (.scalar '?')

end ScriptEngine
