import ScriptEngine.Proofs.Token.Numeral
import ScriptEngine.Proofs.Token.Tiling

/-!
# How reading tokens ends

Reading tokens takes at least one code point for each, and ends with all of them or by one of two failures: a
malformed part of the source, or a decimal numeral without a value.

* **Numerals** (`value?_eq_none`): a decimal lexeme that has no value has a digit that has none, or too many digits.
* **Streams** (`Tokenizes`): what the tokens of a text are up to the first failure, and what the failure says.
-/

namespace ScriptEngine

variable {c : CodePoint} {t rest : Text}

/-! ## Numerals without a value -/

namespace Numeral

theorem mem_digitRun (hc : c ∈ (digitRun t).1) : c.isDigit ∨ c = '_' := by
  induction t with
  | nil => cases hc
  | cons d t ih =>
    rw [digitRun] at hc
    split at hc
    · next hd =>
      obtain rfl | hc := List.mem_cons.1 hc
      · simp only [Bool.or_eq_true, Bool.and_eq_true, decide_eq_true_eq] at hd
        exact hd.imp_right And.left
      · exact ih hc
    · cases hc

theorem exists_of_not_all_isDecimal (h : (withoutUnderscores (digitRun t).1).all CodePoint.isDecimal = false) :
    ∃ d ∈ (digitRun t).1, d.isDigit ∧ d.isDecimal = false := by
  obtain ⟨d, hd, hv⟩ := List.all_eq_false.1 h
  obtain ⟨hmem, hu⟩ := List.mem_filter.1 hd
  exact ⟨d, hmem, (mem_digitRun hmem).resolve_right (by simpa using hu), by simpa using hv⟩

/-- A decimal lexeme has more digits before its point, or after it, than the host reads. -/
def Decimal.IsLong (d : Decimal) : Prop :=
  Text.digitLimit < (withoutUnderscores d.whole).length ∨
    Text.digitLimit < (withoutUnderscores (d.fraction.drop 1)).length

theorem isReadable_eq_false (h : t.isReadable = false) :
    t.all CodePoint.isDecimal = false ∨ Text.digitLimit < t.length := by
  rw [Text.isReadable, Bool.and_eq_false_iff, decide_eq_false_iff_not, Nat.not_le] at h
  exact h

/-- A decimal lexeme without a value has a digit without a decimal value, or too many digits. -/
theorem value?_eq_none (h : (decimalLexeme t).value? = none) :
    (∃ d ∈ (decimalLexeme t).lexeme, d.isDigit ∧ d.isDecimal = false) ∨ (decimalLexeme t).IsLong := by
  obtain hd | ⟨after, -, hd⟩ := decimalLexeme_cases t
  all_goals
    rw [hd] at h ⊢
    simp only [Decimal.value?, ite_eq_right_iff, reduceCtorEq, imp_false, Bool.and_eq_true, not_and_or,
      Bool.not_eq_true] at h
  · obtain h | h := h
    · obtain h | h := isReadable_eq_false h
      · obtain ⟨d, hmem, hdigit⟩ := exists_of_not_all_isDecimal h
        exact .inl ⟨d, List.mem_append_left _ hmem, hdigit⟩
      · exact .inr (.inl h)
    · cases h
  · obtain h | h := h
    · obtain h | h := isReadable_eq_false h
      · obtain ⟨d, hmem, hdigit⟩ := exists_of_not_all_isDecimal h
        exact .inl ⟨d, List.mem_append_left _ hmem, hdigit⟩
      · exact .inr (.inl h)
    · obtain h | h := isReadable_eq_false h
      · obtain ⟨d, hmem, hdigit⟩ := exists_of_not_all_isDecimal h
        exact .inl ⟨d, List.mem_append_right _ (.tail _ hmem), hdigit⟩
      · exact .inr (.inr h)

end Numeral

/-- A lexeme without a value is a decimal numeral with a digit that has no decimal value, or with too many digits. -/
structure Valueless (t digits : Text) (hasPoint : Bool) : Prop where
  digit : Numeral.startsWithDigit t
  digits : digits = Numeral.withoutUnderscores (Numeral.decimalLexeme t).lexeme
  hasPoint : hasPoint = decide ((Numeral.decimalLexeme t).fraction ≠ [])
  refused : (∃ d ∈ (Numeral.decimalLexeme t).lexeme, d.isDigit ∧ d.isDecimal = false) ∨
    (Numeral.decimalLexeme t).IsLong

theorem scanDecimal_noValue {digits : Text} {hasPoint : Bool} (hd : Numeral.startsWithDigit t)
    (h : scanDecimal t = .error (.noValue digits hasPoint)) : Valueless t digits hasPoint := by
  have hfinished (hf : scanDecimal.finish (Numeral.decimalLexeme t) = .error (.noValue digits hasPoint)) :
      Valueless t digits hasPoint := by
    unfold scanDecimal.finish at hf
    split at hf
    · cases hf
    · next hv =>
      cases hf
      exact ⟨hd, rfl, rfl, Numeral.value?_eq_none hv⟩
  unfold scanDecimal at h
  simp only at h
  split at h
  · split at h
    · cases h
    · exact hfinished h
  · exact hfinished h

theorem scanBased_ne_noValue {lead digits : Text} {base : Nat} {cause : Text → LexCause} {hasPoint : Bool} :
    scanBased lead base cause t ≠ .error (.noValue digits hasPoint) := by
  unfold scanBased
  simp only
  split <;> simp

theorem scanString_ne_noValue {quote : CodePoint} {read value digits : Text} {hasPoint : Bool} :
    scanString quote read value t ≠ .error (.noValue digits hasPoint) := by
  fun_induction scanString quote read value t with
  | case1 | case2 | case3 | case4 => simp
  | case5 read value rest s hs hq hn ih => exact ih
  | case6 read value c rest hq hn hb ih => exact ih

/-- Only decimal numerals fail for lack of a value. -/
theorem scanLexeme_noValue {digits : Text} {hasPoint : Bool}
    (h : scanLexeme c rest = .error (.noValue digits hasPoint)) : Valueless (c :: rest) digits hasPoint := by
  unfold scanLexeme at h
  split at h
  · exact absurd h scanString_ne_noValue
  · split at h
    · next hd =>
      unfold scanNumber at h
      split at h
      · split at h
        · exact absurd h scanBased_ne_noValue
        · split at h
          · exact absurd h scanBased_ne_noValue
          · exact scanDecimal_noValue hd h
      · exact scanDecimal_noValue hd h
    · split at h
      · cases h
      · split at h <;> cases h

/-! ## Streams -/

/-- What a token of a source takes up: it is not the end of file, and goes on over its own lexeme, which is not
empty. -/
structure Token.Consumes (t : Token) : Prop where
  kind : t.kind ≠ .endOfFile
  lexeme : t.lexeme ≠ []
  span : t.span.stop.offset = t.span.start.offset + t.lexeme.length

/-- Where the last of some tokens ends. -/
def lastStop (offset : Nat) (tokens : List Token) : Nat :=
  (tokens.getLast?.map (·.span.stop.offset)).getD offset

/-- A numeral without a value is the first thing behind the tokens that have been read. -/
def LexError.Explained (source : Text) (stop : Nat) : LexError → Prop
  | .malformed _ _ => True
  | .noValue digits hasPoint => ∃ gap t, source.drop stop = gap ++ t ∧ IsTrivia gap ∧ Valueless t digits hasPoint

/-- The end of file as a token. -/
def endOfFileAt (stop : Location) : Token := ⟨.endOfFile, [], ⟨stop, stop⟩⟩

theorem lastStop_cons (offset : Nat) (u : Token) (tokens : List Token) :
    lastStop offset (u :: tokens) = lastStop u.span.stop.offset tokens := by
  cases tokens with
  | nil => rfl
  | cons v tokens => rfl

/-- How the tokens of the rest of a source end: with the end of file, or by a failure behind the last of them. -/
inductive Tokenizes (source : Text) (start : Location) (t : Text) : List Token × Option LexError → Prop
  | done {tokens : List Token} (stop : Location) (hconsumes : ∀ u ∈ tokens, u.Consumes)
      (hlength : tokens.length ≤ t.length) : Tokenizes source start t (tokens ++ [endOfFileAt stop], none)
  | failed {tokens : List Token} {e : LexError} (hconsumes : ∀ u ∈ tokens, u.Consumes)
      (hlength : tokens.length ≤ t.length) (he : e.Explained source (lastStop start.offset tokens)) :
      Tokenizes source start t (tokens, some e)

/-- A token in front of others that have been read. -/
theorem Tokenizes.cons {source gap lexeme : Text} {kind : TokenKind} {start : Location}
    {r : List Token × Option LexError}
    (hkind : kind ≠ .endOfFile) (hne : lexeme ≠ []) (h : Tokenizes source ((start.after gap).after lexeme) rest r) :
    Tokenizes source start (gap ++ (lexeme ++ rest))
      (⟨kind, lexeme, ⟨start.after gap, (start.after gap).after lexeme⟩⟩ :: r.1, r.2) := by
  have hpos := List.length_pos_iff.2 hne
  have hlength {tokens : List Token} (h : tokens.length ≤ rest.length) (u : Token) :
      (u :: tokens).length ≤ (gap ++ (lexeme ++ rest)).length := by
    simp only [List.length_cons, List.length_append]
    omega
  have hfirst : Token.Consumes ⟨kind, lexeme, ⟨start.after gap, (start.after gap).after lexeme⟩⟩ :=
    ⟨hkind, hne, by simp⟩
  cases h with
  | done stop hconsumes hle => exact .done stop (List.forall_mem_cons.2 ⟨hfirst, hconsumes⟩) (hlength hle _)
  | failed hconsumes hle he =>
    refine .failed (List.forall_mem_cons.2 ⟨hfirst, hconsumes⟩) (hlength hle _) ?_
    rwa [lastStop_cons]

/-- However the tokens of the rest of a source end, they take up its text. -/
theorem reads_stream (start : Location) (t : Text) :
    ∀ front : Text, front.length = start.offset → Tokenizes (front ++ t) start t (Token.stream start t) := by
  fun_induction Token.stream start t with
  | case1 start t e he => exact fun front _ => .failed nofun (Nat.zero_le _) trivial
  | case2 start t gap hgap =>
    exact fun front _ => Tokenizes.done (start.after gap) (List.forall_mem_nil _) (Nat.zero_le _)
  | case3 start t gap c rest hgap first e he =>
    refine fun front hfront => .failed nofun (Nat.zero_le _) ?_
    cases e with
    | malformed cause before inside => trivial
    | noValue digits hasPoint =>
      have hdrop : (front ++ t).drop start.offset = gap ++ c :: rest := by
        rw [← hfront, List.drop_left, trivia_append hgap]
      exact ⟨gap, c :: rest, hdrop, isTrivia_of_trivia hgap, scanLexeme_noValue he⟩
  | case4 start t gap c rest hgap first l hl stop tokens failure hstream ih =>
    intro front hfront
    obtain ⟨hsplit, hne⟩ := scanLexeme_splits hl
    have hnext : (front ++ gap ++ l.text).length = stop.offset := by
      simp only [stop, first, List.length_append, Location.offset_after, hfront]
    have hreads := ih (front ++ gap ++ l.text) hnext
    rw [hstream, List.append_assoc, List.append_assoc] at hreads
    rw [trivia_append hgap, hsplit]
    exact hreads.cons (scanLexeme_kind_ne_endOfFile hl) hne

/-- Reading the tokens of a source ends. Every token but the end of file takes up at least one code point, so that
there are no more of them than code points, and the end of file comes last, if nothing fails. What can fail is a
malformed part of the source, or a numeral without a value behind the tokens that have been read: a decimal literal
one of whose digits has no decimal value, or with too many digits before its point or after it. -/
theorem tokenize_ends (source : Text) (file : Option Text) :
    ∃ tokens : List Token, (∀ u ∈ tokens, u.Consumes) ∧ tokens.length ≤ source.length ∧
      ((∃ stop, Token.stream (.origin file) source = (tokens ++ [endOfFileAt stop], none) ∧
          tokenize source file = .ok (tokens ++ [endOfFileAt stop])) ∨
        ∃ e, Token.stream (.origin file) source = (tokens, some e) ∧ tokenize source file = .error e ∧
          ((∃ cause span, e = .malformed cause span) ∨
            ∃ digits hasPoint gap t, e = .noValue digits hasPoint ∧
              source.drop (lastStop 0 tokens) = gap ++ t ∧ IsTrivia gap ∧ Valueless t digits hasPoint)) := by
  have hreads : Tokenizes source (.origin file) source (Token.stream (.origin file) source) :=
    reads_stream (.origin file) source [] rfl
  rw [tokenize]
  cases hstream : Token.stream (.origin file) source with
  | mk tokens failure =>
    rw [hstream] at hreads
    cases hreads with
    | done stop hconsumes hlength => exact ⟨_, hconsumes, hlength, .inl ⟨stop, rfl, rfl⟩⟩
    | @failed tokens e hconsumes hlength he =>
      refine ⟨tokens, hconsumes, hlength, .inr ⟨e, rfl, rfl, ?_⟩⟩
      cases e with
      | malformed cause span => exact .inl ⟨cause, span, rfl⟩
      | noValue digits hasPoint =>
        obtain ⟨gap, t, hdrop, hgap, hvalueless⟩ := he
        exact .inr ⟨digits, hasPoint, gap, t, rfl, hdrop, hgap, hvalueless⟩

/-- Digits are a numeral without a value as soon as they are too many. -/
theorem tokenize_digits (ht : IsDigits t) (hl : Text.digitLimit < t.length) (file : Option Text) :
    tokenize t file = .error (.noValue t false) := by
  have hn : t ≠ [] := List.length_pos_iff.1 (Nat.zero_lt_of_lt hl)
  have hbare := Numeral.withoutUnderscores_digits ht
  have hd : Numeral.decimalLexeme (t ++ []) = ⟨t, [], []⟩ := Numeral.decimalLexeme_whole ht nofun
  have hv : Numeral.Decimal.value? ⟨t, [], []⟩ = none := by
    simp [Numeral.Decimal.value?, hbare, Text.isReadable, Nat.not_le.2 hl]
  have hs : scanNumber (t ++ []) = .error (.noValue t false) := by
    rw [scanNumber_eq_scanDecimal (second_digits_append ht hn (by simp)), scanDecimal, hd]
    simp [scanDecimal.finish, hv, Numeral.Decimal.lexeme, hbare]
  obtain ⟨c, after, rfl, hc, hlex⟩ := scanLexeme_digits ht hn []
  obtain ⟨hy, hne⟩ := not_layout_of_digit hc
  have hscan : scanLexeme c after = .error (.noValue (c :: after) false) := by
    rw [← hs, ← hlex, List.append_nil]
  have htrivia : trivia (c :: after) = .ok ([], c :: after) := trivia_of_not_layout hy hne
  have hstream : Token.stream (.origin file) (c :: after) = ([], some (.noValue (c :: after) false)) := by
    rw [Token.stream]
    split
    · next he => cases htrivia.symm.trans he
    · next he => cases htrivia.symm.trans he
    · next he =>
      cases htrivia.symm.trans he
      split
      · next e he =>
        cases hscan.symm.trans he
        rfl
      · next he => cases hscan.symm.trans he
  rw [tokenize, hstream]

/-- A long numeral has no value although each of its digits has one. -/
theorem long_numeral_valueless : tokenize (Text.replicate 4301 '1') none =
      .error (.noValue (Text.replicate 4301 '1') false) ∧
    ∀ c ∈ Text.replicate 4301 '1', c.isDecimal := by
  have hdigits : IsDigits (Text.replicate 4301 '1') := fun c hc => by
    rw [List.eq_of_mem_replicate hc]
    decide
  refine ⟨tokenize_digits hdigits ?_ none, fun c hc => isDecimal_digit (hdigits c hc)⟩
  rw [Text.replicate, List.length_replicate]
  decide

/-- A superscript is a digit without a decimal value. -/
example : tokenize "1²" none = .error (.noValue "1²" false) := by decide +kernel

end ScriptEngine
