import Mathlib.Data.List.Find
import ScriptEngine.Proofs.Token.Reading
namespace ScriptEngine
variable {t rest : Text} {c : CodePoint} {ks : List TokenKind}

/-! ## Reading by the first code point -/

/-- The symbols that start with a code point. -/
def Symbol.starting (c : CodePoint) : List (Text × Symbol) := spellings.filter fun p => p.1.head? = some c

/-- The reserved words that start with a code point. -/
def Keyword.starting (c : CodePoint) : List Keyword := all.filter fun k => k.text.head? = some c

theorem ofTextStart?_cons : Symbol.ofTextStart? (c :: rest) =
    (Symbol.starting c).find? fun p => p.1.isPrefixOf (c :: rest) := by
  have hspelled : ∀ p ∈ Symbol.spellings, p.1 ≠ [] := by decide
  rw [Symbol.starting, List.find?_filter]
  refine List.find?_congr fun p hp => ?_
  obtain ⟨s, k⟩ := p
  cases s with
  | nil => exact absurd rfl (hspelled _ hp)
  | cons d s =>
    by_cases hd : d = c <;> simp [List.isPrefixOf_cons_cons, hd, -List.isPrefixOf_iff_prefix]

theorem ofText?_cons : Keyword.ofText? (c :: rest) = (Keyword.starting c).find? (·.text == c :: rest) := by
  rw [Keyword.starting, List.find?_filter]
  refine List.find?_congr fun k _ => ?_
  by_cases hk : k.text = c :: rest <;> simp [hk]

/-- Reads a lexeme, by the symbols and the reserved words that start as it does. -/
def scanStart (c : CodePoint) (rest : Text) : Except LexemeFailure Lexeme :=
  if c = '"' || c = '\'' then scanString c [c] [] rest
  else if c.isDigit then scanNumber (c :: rest)
  else if c.isWordStart then
    let word := (c :: rest).takeWhile CodePoint.isWordPart
    let after := (c :: rest).dropWhile CodePoint.isWordPart
    .ok (match (Keyword.starting c).find? (·.text == word) with
      | some k => ⟨.keyword k, word, after⟩
      | none => ⟨.identifier (word ++ nameMark after), word ++ nameMark after, after.drop (nameMark after).length⟩)
  else match (Symbol.starting c).find? fun p => p.1.isPrefixOf (c :: rest) with
    | some (s, k) => .ok ⟨.symbol k, s, (c :: rest).drop s.length⟩
    | none => .error (.malformed (.unexpectedCharacter c) [] [c])

theorem scanStart_eq (c : CodePoint) (rest : Text) : scanStart c rest = scanLexeme c rest := by
  rw [scanStart, scanLexeme, ofTextStart?_cons]
  split
  · rfl
  split
  · rfl
  split
  · next hc =>
    have hpart : c.isWordPart := by
      rw [CodePoint.isWordStart, Bool.or_eq_true] at hc
      rw [CodePoint.isWordPart, CodePoint.isAlphanumeric]
      obtain hc | hc := hc <;> simp [hc]
    have hkeyword : Keyword.ofText? (c :: rest.takeWhile CodePoint.isWordPart) = _ := ofText?_cons
    rw [scanWord, List.takeWhile_cons_of_pos hpart]
    generalize Keyword.ofText? (c :: rest.takeWhile CodePoint.isWordPart) = found at hkeyword ⊢
    subst hkeyword
    rfl
  · rfl

/-- The tokens of a text without failures, of which there are fewer than a bound. -/
def tokensBelow : Nat → Location → Text → Option (List Token)
  | 0, _, _ => none
  | bound + 1, start, t =>
    match trivia t with
    | .error _ => none
    | .ok (gap, []) => some [⟨.endOfFile, [], ⟨start.after gap, start.after gap⟩⟩]
    | .ok (gap, c :: rest) =>
      match scanStart c rest with
      | .error _ => none
      | .ok l =>
        (tokensBelow bound ((start.after gap).after l.text) l.rest).map
          (⟨l.kind, l.text, ⟨start.after gap, (start.after gap).after l.text⟩⟩ :: ·)

theorem stream_of_tokensBelow {bound : Nat} {start : Location} {tokens : List Token}
    (h : tokensBelow bound start t = some tokens) : Token.stream start t = (tokens, none) := by
  induction bound generalizing start t tokens with
  | zero => cases h
  | succ bound ih =>
    rw [tokensBelow] at h
    rw [stream_eq_none_iff]
    split at h
    · cases h
    · next gap hgap => 
      cases h
      exact .inl ⟨gap, hgap, rfl⟩
    · next gap c rest hgap =>
      rw [scanStart_eq] at h
      split at h
      · cases h
      · next l hl =>
        obtain ⟨others, hothers, rfl⟩ := Option.map_eq_some_iff.1 h
        exact .inr ⟨gap, c, rest, l, others, hgap, hl, ih hothers, rfl⟩

theorem tokenize_of_tokensBelow {bound : Nat} {file : Option Text} {tokens : List Token}
    (h : tokensBelow bound (.origin file) t = some tokens) : tokenize t file = .ok tokens := by
  rw [tokenize, stream_of_tokensBelow h]

end ScriptEngine
