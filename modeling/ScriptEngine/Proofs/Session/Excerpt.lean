import ScriptEngine.Proofs.Eval.Run
import ScriptEngine.Proofs.Program.Parsed
import ScriptEngine.Proofs.Source.Rows
import ScriptEngine.Session

/-!
# Excerpts

The excerpt of a failure is the line of the source with the number that the failure says
(`Session.excerpt_of_runSource`), so that it is the row of the failure where lines and rows agree
(`Session.excerpt_shows_row`), and `Session.excerpt_of_broken_row` is a source where they do not.
-/

namespace ScriptEngine

/-- Whether an error arises while a program runs. -/
def EngineError.isRuntime : EngineError → Bool
  | .lexical _ => false
  | .grammatical _ _ => false
  | .fault _ => true
  | .uncaught _ _ _ => true

theorem EngineError.sourceLine_of_isRuntime {e : EngineError} (h : e.isRuntime) :
    e.diagnostic.sourceLine = none := by
  cases e with
  | lexical d => cases h
  | grammatical d expectation => cases h
  | fault f => rfl
  | uncaught v span message => rfl

namespace Session

variable {source line : Text} {file : Option Text} {m m' : Machine} {failure : Failure}

/-- A source fails because it is no program, or because its program fails. -/
theorem runSource_failed (h : runSource source file m = .ok (.error failure) m') :
    (∃ e, Program.parse source file = .error e ∧ e.exit source = .failed failure.error ∧
      failure.diagnostic = failure.error.diagnostic) ∨
    failure.error.isRuntime ∧ failure.diagnostic = withExcerpt failure.error.diagnostic source file := by
  unfold runSource at h
  cases hparse : Program.parse source file with
  | error e =>
    simp only [hparse] at h
    cases hexit : e.exit source with
    | failed error =>
      simp only [hexit] at h
      cases h
      exact .inl ⟨e, rfl, hexit, rfl⟩
    | _ =>
      simp only [hexit] at h
      cases h
  | ok program =>
    simp only [hparse] at h
    cases hrun : Interp.session.runProgram program mainFrame m with
    | ok v m₁ =>
      rw [Eval.bind_ok (Eval.attempt_ok hrun)] at h
      cases h
    | error x m₁ =>
      rw [Eval.bind_ok (Eval.attempt_error hrun)] at h
      cases x with
      | failed error =>
        cases error with
        | lexical d => cases h
        | grammatical d expectation => cases h
        | _ =>
          cases h
          exact .inr ⟨rfl, rfl⟩
      | _ => cases h

/-- An error in a source is about a place of the source, and its excerpt is from there. -/
theorem exit_eq_failed {e : SourceError} {error : EngineError} (h : e.exit source = .failed error) :
    error.diagnostic.span ∈ e.span? ∧
    ∀ line, error.diagnostic.sourceLine = some line →
      source.line? error.diagnostic.span.start.line = some line := by
  unfold SourceError.exit at h
  split at h
  · cases h
    exact ⟨rfl, fun _ => id⟩
  · cases h
  · next rejected =>
    cases h
    refine ⟨rfl, fun line hline => ?_⟩
    simp only [EngineError.diagnostic, ParseError.diagnostic] at hline ⊢
    split at hline
    · exact hline
    · cases hline
  · cases h
  · cases h

/-- The excerpt of a failure is the line of the source with the number that the failure says, and unless the
failure is of a running program, the line number is that of a place of the source. -/
theorem excerpt_of_runSource (h : runSource source file m = .ok (.error failure) m')
    (hline : failure.diagnostic.sourceLine = some line) :
    source.line? failure.diagnostic.span.start.line = some line ∧
    (failure.error.isRuntime = false → failure.diagnostic.span.start.PlacedIn source) := by
  obtain ⟨e, hparse, hexit, hsame⟩ | ⟨hruntime, hexcerpt⟩ := runSource_failed h
  · obtain ⟨hspan, hshown⟩ := exit_eq_failed hexit
    rw [hsame] at hline ⊢
    exact ⟨hshown line hline, fun _ => (Program.placedIn_of_parse_error hparse hspan).start⟩
  · refine ⟨?_, fun hfalse => absurd (hfalse.symm.trans hruntime) Bool.false_ne_true⟩
    have hnone := EngineError.sourceLine_of_isRuntime hruntime
    rw [hexcerpt, withExcerpt] at hline ⊢
    split at hline
    · next hfile => simpa [hfile] using hline
    · rw [hnone] at hline
      cases hline

/-- The excerpt of an error on a source is the row that the span of the error starts in as long as no row up to
this one is broken by a line boundary other than a line feed, with a carriage return at its end left out. If
only this row is broken, the excerpt is what comes before its first boundary, which is not the row. If a
row before it is broken, the excerpt is a piece of such a row. -/
theorem excerpt_shows_row (hrun : runSource source file m = .ok (.error failure) m')
    (hline : failure.diagnostic.sourceLine = some line)
    (hspan : failure.error.isRuntime → failure.diagnostic.span.start.PlacedIn source) :
    let start := failure.diagnostic.span.start
    let row := source.rowAround start.offset
    let before := source.rows.take (start.line - 1)
    source.rows[start.line - 1]? = some row ∧
    ((∀ r ∈ before, r.Unbroken) → line = row.beforeBreak ∧ (line.Shows row ↔ row.Unbroken)) ∧
    ((¬ ∀ r ∈ before, r.Unbroken) → ∃ r ∈ before, line ∈ r.pieces) := by
  intro start row before
  obtain ⟨hshown, hplaced⟩ := excerpt_of_runSource hrun hline
  have hstart : start.PlacedIn source := by
    cases hruntime : failure.error.isRuntime with
    | true => exact hspan hruntime
    | false => exact hplaced hruntime
  have hline' : source.lines[start.line - 1]? = some line := by
    rw [hstart.line_eq, Nat.add_comm] at hshown ⊢
    exact hshown
  obtain ⟨hunbroken, hbroken⟩ := Text.line_cases hstart.row hline'
  refine ⟨hstart.row, fun h => ?_, hbroken⟩
  obtain rfl := hunbroken h
  exact ⟨rfl, Text.beforeBreak_shows_iff⟩

/-- The failure that a host is told about. -/
def failure? (source : Text) (file : Option Text) (m : Machine) : Option Failure :=
  match runSource source file m with
  | .ok (.error failure) _ => some failure
  | _ => none

theorem runSource_of_failure? (h : failure? source file m = some failure) :
    ∃ m', runSource source file m = .ok (.error failure) m' := by
  rw [failure?] at h
  cases hrun : runSource source file m with
  | error e m' =>
    rw [hrun] at h
    cases h
  | ok result m' =>
    rw [hrun] at h
    cases result <;> cases h
    exact ⟨m', rfl⟩

/-- Rows with carriage returns at their ends. The name in the second one is not defined. -/
def returnedSource : Text := "1\r\nx\r\n"

theorem excerpt_shows_row_returned :
    ∃ failure m', runSource returnedSource none (blank {} []) = .ok (.error failure) m' ∧
      failure.error.isRuntime ∧ failure.diagnostic.span.start.PlacedIn returnedSource ∧
      failure.diagnostic.sourceLine = some (Text.ofString "x") ∧
      returnedSource.rowAround failure.diagnostic.span.start.offset = "x\r" ∧ Text.Shows "x" "x\r" := by
  have hreport : (failure? returnedSource none (blank {} [])).map
      (fun f => (f.error.isRuntime, f.diagnostic.sourceLine, f.diagnostic.span.start)) =
        some (true, some (Text.ofString "x"), ⟨2, 1, 3, none⟩) := by
    decide +kernel
  obtain ⟨failure, hfailure, hvalues⟩ := Option.map_eq_some_iff.1 hreport
  obtain ⟨m', hrun⟩ := runSource_of_failure? hfailure
  obtain ⟨hruntime, hline, hstart⟩ : failure.error.isRuntime = true ∧
      failure.diagnostic.sourceLine = some (Text.ofString "x") ∧
      failure.diagnostic.span.start = ⟨2, 1, 3, none⟩ := by
    simpa using hvalues
  have hplaced : failure.diagnostic.span.start.PlacedIn returnedSource := by
    rw [hstart]
    exact ⟨by decide, by decide, by decide⟩
  have hrow : returnedSource.rowAround 3 = "x\r" := by decide
  have hbefore : returnedSource.rows.take (2 - 1) = [Text.ofString "1\r"] := by decide
  have hfirst : Text.Unbroken "1\r" := ⟨"1", .inr rfl, by decide⟩
  have hsecond : Text.Unbroken "x\r" := ⟨"x", .inr rfl, by decide⟩
  obtain ⟨-, hshows, -⟩ := excerpt_shows_row hrun hline fun _ => hplaced
  simp only [hstart, hrow, hbefore, List.forall_mem_singleton] at hshows
  exact ⟨failure, m', hrun, hruntime, hplaced, hline, hstart ▸ hrow, (hshows hfirst).2.2 hsecond⟩

/-- A control character between the quotes of a text, and a row that no token can be made of. -/
def shiftedSource : Text := "\"a\x0bb\"\n@"

/-- A row with a boundary inside moves the excerpts of the rows after it. -/
theorem excerpt_of_broken_row :
    ∃ failure : Failure,
      (∀ m, runSource shiftedSource none m = .ok (.error failure) m) ∧
      failure.diagnostic.span.PlacedIn shiftedSource ∧
      failure.diagnostic.sourceLine = some (Text.ofString "b\"") ∧
      shiftedSource.rowAround failure.diagnostic.span.start.offset = "@" ∧
      ¬ Text.Shows "b\"" "@" := by
  let span : Span := ⟨⟨2, 1, 6, none⟩, ⟨2, 2, 7, none⟩⟩
  let diagnostic := (LexCause.unexpectedCharacter '@').diagnostic span shiftedSource
  have hread : tokenize shiftedSource none = .error (.malformed (.unexpectedCharacter '@') span) := by
    decide +kernel
  have hparse : Program.parse shiftedSource none =
      .error (.lexical (.malformed (.unexpectedCharacter '@') span)) := by
    rw [Program.parse, hread]
    rfl
  have hexcerpt : diagnostic.sourceLine = some (Text.ofString "b\"") := by decide
  have hrow : shiftedSource.rowAround span.start.offset = "@" := by decide
  have hother : ¬ Text.Shows "b\"" "@" := by rintro (h | h) <;> cases h
  refine ⟨⟨.lexical diagnostic, diagnostic, none⟩, fun m => ?_, Program.placedIn_of_parse_error hparse rfl,
    hexcerpt, hrow, hother⟩
  rw [runSource, hparse]
  rfl

end Session

end ScriptEngine
