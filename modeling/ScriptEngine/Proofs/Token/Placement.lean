import Mathlib.Data.List.Induction
import ScriptEngine.Proofs.Token.Tiling

/-!
# Locations are where they say

Lines and columns are counted while a source is read. They can be computed from the offset alone.

* **Placement** (`Location.PlacedIn`): the line is one more than the line feeds before the offset, the
  column one more than the code points after the last of them. A location that is reached by reading is
  placed in the source that was read (`Location.placedIn_after`).
* **Failures** (`LexemeFailure.Within`): the text before a fault and the text at fault stand at the front
  of what was read, on every path of the scanners that fails.
* **Reports** (`Reports start t span`): a span of the text `t`, which is read from `start` on.
-/

namespace ScriptEngine

/-! ## Placement -/

/-- A location says where its offset is in a source: the line is one more than the line feeds before
it, and the column is one more than the code points after the last of these. -/
structure Location.PlacedIn (l : Location) (source : Text) : Prop where
  offset_le : l.offset ≤ source.length
  line_eq : l.line = 1 + (source.take l.offset).count (.scalar '\n')
  column_eq : l.column = 1 + ((source.take l.offset).reverse.takeWhile inLine).length

/-- Both ends of a span are placed in a source, and it does not end before its start. -/
structure Span.PlacedIn (s : Span) (source : Text) : Prop where
  start : s.start.PlacedIn source
  stop : s.stop.PlacedIn source
  ordered : s.start.offset ≤ s.stop.offset

namespace Location

theorem after_concat (l : Location) (t : Text) (c : CodePoint) :
    l.after (t ++ [c]) = (l.after t).next c := after_append l t [c]

theorem line_column_after (file : Option Text) (t : Text) :
    ((origin file).after t).line = 1 + t.count (.scalar '\n') ∧
    ((origin file).after t).column = 1 + (t.reverse.takeWhile inLine).length := by
  -- locations move at the end of what was read, so the text is taken apart from there
  induction t using List.reverseRecOn with
  | nil => exact ⟨rfl, rfl⟩
  | append_singleton t c ih =>
    obtain ⟨hline, hcolumn⟩ := ih
    rw [after_concat, next]
    by_cases hc : c = .scalar '\n'
    · simp [hc, hline]
      omega
    · simp [hc, hline, hcolumn]
      omega

/-- The location after a part of a source is placed in the source. -/
theorem placedIn_after (file : Option Text) {read source : Text} (h : read <+: source) :
    ((origin file).after read).PlacedIn source := by
  have hoffset : ((origin file).after read).offset = read.length := by simp [origin]
  have htake : source.take read.length = read := List.prefix_iff_eq_take.1 h |>.symm
  obtain ⟨hline, hcolumn⟩ := line_column_after file read
  constructor
  · rw [hoffset]
    exact h.length_le
  · rw [hoffset, htake, hline]
  · rw [hoffset, htake, hcolumn]

end Location

/-! ## Failures -/

theorem precededBy_eq_error {t : Text} {r : Except OpenComment (Text × Text)} {e : OpenComment}
    (h : Trivia.precededBy t r = .error e) :
    ∃ e', r = .error e' ∧ e.before ++ e.comment = t ++ (e'.before ++ e'.comment) := by
  cases r with
  | ok p => cases h
  | error e' =>
    cases h
    exact ⟨e', rfl, List.append_assoc _ _ _⟩

theorem trivia_error_append {t : Text} {e : OpenComment} (h : trivia t = .error e) :
    t = e.before ++ e.comment := by
  fun_induction trivia t generalizing e with
  | case1 | case6 => cases h
  | case2 rest ih =>
    obtain ⟨e', he', happend⟩ := precededBy_eq_error h
    rw [happend, ← ih he']
    simp
  | case3 rest body left hb ih =>
    obtain ⟨e', he', happend⟩ := precededBy_eq_error h
    rw [happend, ← ih he', (commentBody_append hb).1]
    simp
  | case4 =>
    cases h
    rfl
  | case5 c rest _ _ _ ih =>
    obtain ⟨e', he', happend⟩ := precededBy_eq_error h
    rw [happend, ← ih he']
    rfl

theorem Escape.readByte_error {t : Text} {e : Escape.Malformed} (h : Escape.readByte t = .error e) :
    e.consumed <+: .scalar 'x' :: t := by
  have hx : ("x" : Text) <+: .scalar 'x' :: t := ⟨t, rfl⟩
  unfold Escape.readByte at h
  split at h
  · split at h <;> cases h
    exact hx
  · cases h
    exact hx

theorem Escape.readBraced_error {t : Text} {e : Escape.Malformed}
    (h : Escape.readBraced t = .error e) : e.consumed <+: .scalar 'u' :: .scalar '{' :: t := by
  have hsplit := List.takeWhile_append_dropWhile (p := CodePoint.isHexDigit) (l := t)
  unfold Escape.readBraced at h
  simp only at h
  split at h
  · next rest _ hrest =>
    split at h <;> cases h
    rw [hrest] at hsplit
    refine ⟨rest, ?_⟩
    simp [Text.ofString, hsplit]
  · cases h
    refine ⟨t.dropWhile CodePoint.isHexDigit, ?_⟩
    simp [Text.ofString]

/-- What a malformed sequence takes up stands after the backslash. -/
theorem Escape.read_error {t : Text} {e : Escape.Malformed} (h : Escape.read t = .error e) :
    e.consumed <+: t := by
  unfold Escape.read at h
  split at h
  · cases h
    exact List.prefix_refl _
  · split at h
    · cases h
    · split at h
      · exact readByte_error h
      · exact readBraced_error h
      · cases h
        exact ⟨_, rfl⟩

/-- The text before a fault and the text at fault are at the front of a text. -/
def LexemeFailure.Within (t : Text) : LexemeFailure → Prop
  | .malformed _ before inside => before ++ inside <+: t
  | .noValue _ _ => True

theorem scanString_within {quote : CodePoint} {read value t : Text} {e : LexemeFailure}
    (h : scanString quote read value t = .error e) : e.Within (read.reverse ++ t) := by
  fun_induction scanString quote read value t with
  | case1 read value => cases h; simp [LexemeFailure.Within]
  | case2 => cases h
  | case3 read value c rest => cases h; simp [LexemeFailure.Within]
  | case4 read value rest e' he =>
    cases h
    obtain ⟨left, hleft⟩ := Escape.read_error he
    refine ⟨left, ?_⟩
    simp [hleft]
  | case5 read value rest s hs _ _ ih =>
    have hwithin := ih h
    rw [(Escape.read_append hs).1]
    simpa using hwithin
  | case6 read value c rest _ _ _ ih => simpa using ih h

theorem scanBased_within {lead t : Text} {base : Nat} {cause : Text → LexCause} {e : LexemeFailure}
    (h : scanBased lead base cause t = .error e) : e.Within (lead ++ t) := by
  unfold scanBased at h
  simp only at h
  split at h <;> cases h
  simpa [LexemeFailure.Within] using List.takeWhile_prefix _

theorem scanDecimal_within {t : Text} {e : LexemeFailure} (h : scanDecimal t = .error e) :
    e.Within t := by
  have finished {d : Numeral.Decimal} (hf : scanDecimal.finish d = .error e) : e.Within t := by
    unfold scanDecimal.finish at hf
    split at hf <;> cases hf
    trivial
  unfold scanDecimal at h
  simp only at h
  split at h
  · split at h
    · cases h
      have hprefix := List.takeWhile_prefix (l := (Numeral.decimalLexeme t).rest) CodePoint.isWordPart
      have happend := Numeral.decimalLexeme_append t
      rw [LexemeFailure.Within, List.nil_append]
      conv => rhs; rw [← happend]
      exact (List.prefix_append_right_inj _).2 hprefix
    · exact finished h
  · exact finished h

theorem scanNumber_within {t : Text} {e : LexemeFailure} (h : scanNumber t = .error e) :
    e.Within t := by
  unfold scanNumber at h
  split at h
  · split at h
    · exact scanBased_within h
    · split at h
      · exact scanBased_within h
      · exact scanDecimal_within h
  · exact scanDecimal_within h

/-- However a lexeme fails, its fault is inside the text that it is read from. -/
theorem scanLexeme_within {c : CodePoint} {rest : Text} {e : LexemeFailure}
    (h : scanLexeme c rest = .error e) : e.Within (c :: rest) := by
  unfold scanLexeme at h
  split at h
  · exact scanString_within h
  · split at h
    · exact scanNumber_within h
    · split at h
      · cases h
      · split at h <;> cases h
        exact ⟨rest, rfl⟩

/-! ## Reports -/

/-- A span of a text that is read from a location on. -/
def Reports (start : Location) (t : Text) (span : Span) : Prop :=
  ∃ before inside, before ++ inside <+: t ∧
    span = ⟨start.after before, (start.after before).after inside⟩

/-- What is reported about the rest of a text is reported about the text. -/
theorem Reports.append {start : Location} {front t : Text} {span : Span}
    (h : Reports (start.after front) t span) : Reports start (front ++ t) span := by
  obtain ⟨before, inside, hprefix, rfl⟩ := h
  refine ⟨front ++ before, inside, ?_, ?_⟩
  · rw [List.append_assoc]
    exact (List.prefix_append_right_inj front).2 hprefix
  · rw [Location.after_append]

theorem Reports.placedIn {file : Option Text} {source : Text} {span : Span}
    (h : Reports (.origin file) source span) : span.PlacedIn source := by
  obtain ⟨before, inside, hprefix, rfl⟩ := h
  constructor
  · exact Location.placedIn_after file ((List.prefix_append _ _).trans hprefix)
  · rw [← Location.after_append]
    exact Location.placedIn_after file hprefix
  · simp

/-- The span of an error, unless it is about a numeral without a value. -/
def LexError.span? : LexError → Option Span
  | .malformed _ span => some span
  | .noValue _ _ => none

/-- All tokens of a text and the failure that ends them are reported about the text. -/
theorem reports_of_stream (start : Location) (t : Text) :
    (∀ token ∈ (Token.stream start t).1, Reports start t token.span) ∧
    ∀ e ∈ (Token.stream start t).2, ∀ span ∈ e.span?, Reports start t span := by
  fun_induction Token.stream start t with
  | case1 start t e he =>
    refine ⟨by simp, ?_⟩
    rintro _ ⟨rfl⟩ _ ⟨rfl⟩
    exact ⟨e.before, e.comment, (trivia_error_append he).symm ▸ List.prefix_refl _, rfl⟩
  | case2 start t gap hgap =>
    refine ⟨?_, by simp⟩
    rintro _ ⟨⟩
    · exact ⟨gap, [], by simp [trivia_append hgap], rfl⟩
    · contradiction
  | case3 start t gap c rest hgap _ e he =>
    refine ⟨by simp, ?_⟩
    rintro _ ⟨rfl⟩ span hspan
    rw [trivia_append hgap]
    refine .append ?_
    cases e with
    | noValue => cases hspan
    | malformed cause before inside =>
      cases hspan
      exact ⟨before, inside, scanLexeme_within he, rfl⟩
  | case4 start t gap c rest hgap first l hl stop tokens failure hstream ih =>
    have ht : t = gap ++ (l.text ++ l.rest) := by rw [trivia_append hgap, (scanLexeme_splits hl).1]
    rw [hstream] at ih
    rw [ht]
    refine ⟨?_, fun e he span hspan => .append (.append (ih.2 e he span hspan))⟩
    intro token htoken
    obtain rfl | htoken := List.mem_cons.1 htoken
    · exact .append ⟨[], l.text, by simp, rfl⟩
    · exact .append (.append (ih.1 token htoken))

/-- Every location that the reading of a source reports is the true one: in the spans of its tokens,
and in the span of the error when there is one. -/
theorem reported_locations_true (source : Text) (file : Option Text) :
    (∀ tokens, tokenize source file = .ok tokens → ∀ t ∈ tokens, t.span.PlacedIn source) ∧
    (∀ cause span, tokenize source file = .error (.malformed cause span) → span.PlacedIn source) := by
  obtain ⟨htokens, hfailure⟩ := reports_of_stream (.origin file) source
  unfold tokenize
  split
  · next tokens hstream =>
    rw [hstream] at htokens
    refine ⟨?_, by simp⟩
    rintro _ ⟨rfl⟩ t ht
    exact (htokens t ht).placedIn
  · next e hstream =>
    rw [hstream] at hfailure
    refine ⟨by simp, ?_⟩
    rintro cause span ⟨rfl⟩
    exact (hfailure _ rfl span rfl).placedIn

/-- A string with a backslash at the end of a line, where the string is not closed. -/
def brokenSource : Text := "x\n'y\\\n"

theorem reported_locations_true_broken :
    tokenize brokenSource none =
      .error (.malformed (.invalidEscape "\n") ⟨⟨2, 4, 5, none⟩, ⟨3, 1, 6, none⟩⟩) ∧
    (⟨⟨2, 4, 5, none⟩, ⟨3, 1, 6, none⟩⟩ : Span).PlacedIn brokenSource := by
  have hread : tokenize brokenSource none =
      .error (.malformed (.invalidEscape "\n") ⟨⟨2, 4, 5, none⟩, ⟨3, 1, 6, none⟩⟩) := by
    decide +kernel
  exact ⟨hread, (reported_locations_true brokenSource none).2 _ _ hread⟩

end ScriptEngine
