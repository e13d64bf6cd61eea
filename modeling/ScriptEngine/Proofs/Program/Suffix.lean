import ScriptEngine.Proofs.Program.Taking

/-!
# Tokens before a position

What a parser does depends on the tokens from the one before its position on, and not on how many there are before that.

* **Shifts** (`Parse.Shifts p`): the parser `p` does the same where more tokens stand before its position, and leaves a
  position that is moved with them. There is a rule for each way to build a parser, and one lemma for each construct.
* **Repetitions** (`Parse.many_of_manyFrom`): items can be read one by one, each from the tokens that are left.
* **Programs** (`Program.parse_of_statementsFrom`): so can the statements of a program.
-/

namespace ScriptEngine

/-! ## Parsers -/

namespace Parse

variable {α β : Type} {p q : Parse α} {f : α → Parse β} {bound : Nat}

/-- An outcome at a position that is moved. -/
def shifted (k : Nat) : Except ParseStop (α × Nat) → Except ParseStop (α × Nat)
  | .ok (a, j) => .ok (a, k + j)
  | .error stop => .error stop

/-- Behind the first token, a parser does the same if more tokens stand before, and stays behind the first token. -/
def Shifts (p : Parse α) : Prop :=
  ∀ (before ts : Array Token) (i : Nat), 0 < i → 0 < ts.size →
    p (before ++ ts) (before.size + i) = shifted before.size (p ts i) ∧ ∀ a j, p ts i = .ok (a, j) → 0 < j

theorem shifts_pure {a : α} : (pure a : Parse α).Shifts := by
  refine fun before ts i hi _ => ⟨rfl, ?_⟩
  rintro _ _ ⟨⟩
  exact hi

theorem Shifts.bind (hp : p.Shifts) (hf : ∀ a, (f a).Shifts) : (p >>= f).Shifts := by
  intro before ts i hi hts
  obtain ⟨hsame, hpos⟩ := hp before ts i hi hts
  cases hfirst : p ts i with
  | ok r =>
    obtain ⟨a, j⟩ := r
    rw [hfirst] at hsame
    rw [bind_ok hfirst, bind_ok hsame]
    exact hf a before ts j (hpos a j hfirst) hts
  | error stop =>
    rw [hfirst] at hsame
    rw [bind_error hfirst, bind_error hsame]
    exact ⟨rfl, nofun⟩

theorem Shifts.ite {c : Prop} [Decidable c] (hp : p.Shifts) (hq : q.Shifts) : (if c then p else q).Shifts := by
  split
  · exact hp
  · exact hq

theorem tokenAt_run_eq (i : Nat) (ts : Array Token) (j : Nat) :
    tokenAt i ts j = (ts[i]?).elim (.error .noToken) fun t => .ok (t, j) := by
  have hread : (read : Parse (Array Token)) ts j = .ok (ts, j) := rfl
  rw [tokenAt, bind_ok hread]
  cases ts[i]? <;> rfl

/-- A token is found at a place that is moved with the position. -/
theorem tokenAt_shifted {before ts : Array Token} {i place place' : Nat} (hplace : place' = before.size + place) :
    tokenAt place' (before ++ ts) (before.size + i) = shifted before.size (tokenAt place ts i) := by
  rw [tokenAt_run_eq, tokenAt_run_eq, hplace, Array.getElem?_append_right (Nat.le_add_right _ _),
    Nat.add_sub_cancel_left]
  cases ts[place]? <;> rfl

theorem pos_of_tokenAt {ts : Array Token} {i place j : Nat} {t : Token} (hi : 0 < i)
    (h : tokenAt place ts i = .ok (t, j)) : 0 < j := by
  rw [tokenAt_run_eq] at h
  cases hplace : ts[place]? <;> rw [hplace] at h <;> cases h
  exact hi

theorem shifts_lookAhead {places : Nat} : (lookAhead places).Shifts := by
  intro before ts i hi hts
  rw [lookAhead_run, lookAhead_run]
  refine ⟨tokenAt_shifted ?_, fun _ _ => pos_of_tokenAt hi⟩
  rw [Array.size_append]
  split <;> split <;> omega

theorem shifts_peek : peek.Shifts := shifts_lookAhead

theorem shifts_peekSecond : peekSecond.Shifts := shifts_lookAhead

theorem shifts_next : next.Shifts := by
  have hadvance : (modify (· + 1) : Parse PUnit).Shifts := by
    refine fun before ts i _ _ => ⟨rfl, ?_⟩
    rintro _ _ ⟨⟩
    exact Nat.succ_pos i
  exact shifts_peek.bind fun _ => .ite (hadvance.bind fun _ => shifts_pure) shifts_pure

/-- The token before the position. -/
theorem shifts_last : (do tokenAt ((← get) - 1) : Parse Token).Shifts := by
  intro before ts i hi _
  have hrun (ts : Array Token) (i : Nat) : (do tokenAt ((← get) - 1) : Parse Token) ts i = tokenAt (i - 1) ts i := rfl
  rw [hrun, hrun]
  exact ⟨tokenAt_shifted (by omega), fun _ _ => pos_of_tokenAt hi⟩

theorem shifts_previous : previous.Shifts := by
  intro before ts i hi hts
  have hrun (ts : Array Token) {i : Nat} (hi : 0 < i) :
      previous ts i = (do tokenAt ((← get) - 1) : Parse Token) ts i := by
    obtain ⟨k, rfl⟩ : ∃ k, i = k + 1 := ⟨i - 1, by omega⟩
    rfl
  rw [hrun _ hi, hrun _ (by omega)]
  exact shifts_last before ts i hi hts

theorem shifts_spanFrom {start : Token} : (spanFrom start).Shifts := by
  have hlast : spanFrom start =
      ((do tokenAt ((← get) - 1) : Parse Token) >>= fun last => pure ⟨start.span.start, last.span.stop⟩) := by
    rw [bind_assoc]
    rfl
  rw [hlast]
  exact shifts_last.bind fun _ => shifts_pure

theorem shifts_exhausted : (exhausted : Parse α).Shifts := fun _ _ _ _ _ => ⟨rfl, nofun⟩

theorem shifts_failAt {cause : ParseCause} {s : Span} : (failAt cause s : Parse α).Shifts :=
  fun _ _ _ _ _ => ⟨rfl, nofun⟩

theorem shifts_failExpected {expected : Text} : (failExpected expected : Parse α).Shifts := by
  refine shifts_peek.bind fun token => ?_
  split <;> exact shifts_failAt

theorem shifts_looksAt {k : TokenKind} : (looksAt k).Shifts := shifts_peek.bind fun _ => shifts_pure

theorem shifts_accept {k : TokenKind} : (accept k).Shifts :=
  shifts_looksAt.bind fun _ => .ite (shifts_next.bind fun _ => shifts_pure) shifts_pure

theorem shifts_expect {k : TokenKind} {expected : Text} : (expect k expected).Shifts :=
  shifts_looksAt.bind fun _ => .ite shifts_next shifts_failExpected

theorem shifts_expectName {expected : Text} : (expectName expected).Shifts := by
  refine shifts_peek.bind fun token => ?_
  split
  · exact shifts_next.bind fun _ => shifts_pure
  · exact shifts_failExpected

theorem shifts_acceptName : acceptName.Shifts := by
  refine shifts_peek.bind fun token => ?_
  split
  · exact shifts_next.bind fun _ => shifts_pure
  · exact shifts_pure

/-! ### Repetition -/

theorem shifts_iterate {σ : Type} {step : σ → Parse (Option σ)} (hstep : ∀ s, (step s).Shifts) (s : σ) :
    (iterate step bound s).Shifts := by
  induction bound generalizing s with
  | zero => exact shifts_exhausted
  | succ bound ih =>
    refine (hstep s).bind fun r => ?_
    cases r with
    | none => exact shifts_pure
    | some s' => exact ih s'

theorem shifts_many {item : Parse (Option α)} (hitem : item.Shifts) : (many item bound).Shifts := by
  induction bound with
  | zero => exact shifts_exhausted
  | succ bound ih =>
    refine hitem.bind fun r => ?_
    cases r with
    | none => exact shifts_pure
    | some a => exact ih.bind fun _ => shifts_pure

theorem shifts_separated {close : Symbol} {item : Parse α} (hitem : item.Shifts) :
    (separated close item bound).Shifts := by
  induction bound with
  | zero => exact shifts_exhausted
  | succ bound ih =>
    refine shifts_looksAt.bind fun _ => .ite shifts_pure (hitem.bind fun a => shifts_accept.bind fun _ => ?_)
    exact .ite (ih.bind fun _ => shifts_pure) shifts_pure

theorem shifts_commaList {item : Parse α} (hitem : item.Shifts) : (commaList item bound).Shifts := by
  induction bound with
  | zero => exact shifts_exhausted
  | succ bound ih =>
    exact hitem.bind fun a => shifts_accept.bind fun _ => .ite (ih.bind fun _ => shifts_pure) shifts_pure

theorem shifts_skipSemicolons : (skipSemicolons bound).Shifts :=
  (shifts_many (shifts_accept.bind fun _ => .ite shifts_pure shifts_pure)).bind fun _ => shifts_pure

end Parse

/-- Every parser of a grammar shifts. -/
structure Grammar.Shifts (g : Grammar) : Prop where
  expression : g.expression.Shifts
  ternary : g.ternary.Shifts
  binary : ∀ least, (g.binary least).Shifts
  unary : g.unary.Shifts
  operand : g.operand.Shifts
  ifElse : g.ifElse.Shifts
  statement : g.statement.Shifts

namespace Grammar

open Parse

variable {g : Grammar}

section

variable (hg : g.Shifts)

include hg

/-! ## Constructs that start with a token of their own -/

theorem shifts_block : g.block.Shifts := by
  have hstatements : g.blockStatements.Shifts := by
    refine shifts_many (shifts_looksAt.bind fun _ => .ite shifts_pure (shifts_looksAt.bind fun _ => ?_))
    refine .ite (shifts_failExpected.bind fun _ => ?_) ?_
    all_goals exact hg.statement.bind fun _ => shifts_skipSemicolons.bind fun _ => shifts_pure
  exact shifts_expect.bind fun _ => shifts_skipSemicolons.bind fun _ => hstatements.bind fun _ =>
    shifts_expect.bind fun _ => shifts_spanFrom.bind fun _ => shifts_pure

theorem shifts_arrayLiteral : g.arrayLiteral.Shifts :=
  shifts_next.bind fun _ => (shifts_separated hg.expression).bind fun _ => shifts_expect.bind fun _ =>
    shifts_spanFrom.bind fun _ => shifts_pure

theorem shifts_objectEntry : g.objectEntry.Shifts := by
  refine shifts_peek.bind fun token => ?_
  split
  · exact shifts_next.bind fun _ => shifts_expect.bind fun _ => hg.expression.bind fun _ =>
      shifts_spanFrom.bind fun _ => shifts_pure
  · exact shifts_next.bind fun _ => shifts_accept.bind fun _ => .ite
      (hg.expression.bind fun _ => shifts_spanFrom.bind fun _ => shifts_pure)
      (shifts_spanFrom.bind fun _ => shifts_pure)
  · exact shifts_failExpected

theorem shifts_objectLiteral : g.objectLiteral.Shifts :=
  shifts_next.bind fun _ => shifts_next.bind fun _ => (shifts_separated (shifts_objectEntry hg)).bind fun _ =>
    shifts_expect.bind fun _ => shifts_spanFrom.bind fun _ => shifts_pure

theorem shifts_conditional : g.conditional.Shifts := by
  have helse : g.elseBranch.Shifts := by
    refine shifts_accept.bind fun _ => .ite (shifts_looksAt.bind fun _ => ?_) shifts_pure
    exact .ite (hg.ifElse.bind fun _ => shifts_pure) ((shifts_block hg).bind fun _ => shifts_pure)
  exact shifts_next.bind fun _ => hg.expression.bind fun _ => (shifts_block hg).bind fun _ => helse.bind fun _ =>
    shifts_spanFrom.bind fun _ => shifts_pure

theorem shifts_matchArm : g.matchArm.Shifts := by
  have htest : g.armTest.Shifts := by
    refine shifts_accept.bind fun _ => .ite shifts_pure (shifts_accept.bind fun _ => .ite ?_ ?_)
    · exact (hg.binary _).bind fun _ => shifts_pure
    · refine shifts_peek.bind fun token => ?_
      split
      · exact shifts_next.bind fun _ => (hg.binary _).bind fun _ => shifts_pure
      · exact (hg.binary _).bind fun _ => shifts_pure
  exact shifts_peek.bind fun _ => htest.bind fun _ => (shifts_block hg).bind fun _ =>
    shifts_spanFrom.bind fun _ => shifts_pure

theorem shifts_matchExpr : g.matchExpr.Shifts := by
  have harms : g.matchArms.Shifts := by
    refine shifts_iterate (fun arms => shifts_looksAt.bind fun _ => .ite shifts_pure ?_) _
    refine .ite (shifts_peek.bind fun _ => shifts_failAt.bind fun _ => ?_) ?_
    all_goals exact (shifts_matchArm hg).bind fun _ => shifts_accept.bind fun _ => shifts_pure
  exact shifts_next.bind fun _ => hg.expression.bind fun _ => shifts_expect.bind fun _ => harms.bind fun _ =>
    shifts_expect.bind fun _ => shifts_spanFrom.bind fun _ => shifts_pure

theorem shifts_tryExpr : g.tryExpr.Shifts := by
  have hcatch : g.catchPart.Shifts := shifts_accept.bind fun _ => .ite
    (shifts_acceptName.bind fun _ => (shifts_block hg).bind fun _ => shifts_pure) shifts_pure
  have hfinally : g.finallyPart.Shifts :=
    shifts_accept.bind fun _ => .ite ((shifts_block hg).bind fun _ => shifts_pure) shifts_pure
  refine shifts_next.bind fun _ => (shifts_block hg).bind fun _ => hcatch.bind fun r => hfinally.bind fun _ => ?_
  refine .ite (shifts_failExpected.bind fun _ => ?_) ?_
  all_goals exact shifts_spanFrom.bind fun _ => shifts_pure

theorem shifts_whileExpr {negate : Bool} : (g.whileExpr negate).Shifts :=
  shifts_next.bind fun _ => hg.expression.bind fun _ => (shifts_block hg).bind fun _ =>
    shifts_spanFrom.bind fun _ => shifts_pure

theorem shifts_loopExpr : g.loopExpr.Shifts :=
  shifts_next.bind fun _ => (shifts_block hg).bind fun _ => shifts_spanFrom.bind fun _ => shifts_pure

theorem shifts_forExpr : g.forExpr.Shifts := by
  have hnames : loopNames.Shifts := shifts_expectName.bind fun _ => shifts_accept.bind fun _ =>
    .ite (shifts_expectName.bind fun _ => shifts_pure) shifts_pure
  exact shifts_next.bind fun _ => hnames.bind fun _ => shifts_expect.bind fun _ => hg.expression.bind fun _ =>
    (shifts_block hg).bind fun _ => shifts_spanFrom.bind fun _ => shifts_pure

theorem shifts_arguments : g.arguments.Shifts :=
  shifts_expect.bind fun _ => (shifts_separated hg.expression).bind fun _ => shifts_expect.bind fun _ => shifts_pure

theorem shifts_parameter : g.parameter.Shifts := by
  refine shifts_expectName.bind fun _ => shifts_accept.bind fun _ => .ite ?_ ?_
  · exact hg.operand.bind fun _ => shifts_spanFrom.bind fun _ => shifts_pure
  · exact shifts_spanFrom.bind fun _ => shifts_pure

theorem shifts_functionDef : g.functionDef.Shifts := by
  have hhead : functionHead.Shifts := shifts_accept.bind fun _ =>
    .ite (shifts_expect.bind fun _ => shifts_pure) (shifts_expect.bind fun _ => shifts_accept)
  have hwhere : g.whereClauses.Shifts := shifts_accept.bind fun _ => .ite (shifts_commaList hg.expression) shifts_pure
  refine shifts_peek.bind fun _ => hhead.bind fun _ => shifts_acceptName.bind fun _ => shifts_expect.bind fun _ => ?_
  refine (shifts_separated (shifts_parameter hg)).bind fun _ => shifts_expect.bind fun _ => ?_
  split
  · exact shifts_failAt.bind fun _ => hwhere.bind fun _ => (shifts_block hg).bind fun _ =>
      shifts_spanFrom.bind fun _ => shifts_pure
  · exact hwhere.bind fun _ => (shifts_block hg).bind fun _ => shifts_spanFrom.bind fun _ => shifts_pure

/-! ## Expressions -/

theorem shifts_primary : g.primary.Shifts := by
  have hfunction : (do return .function (← g.functionDef) : Parse Expr).Shifts :=
    (shifts_functionDef hg).bind fun _ => shifts_pure
  refine shifts_peek.bind fun token => ?_
  split
  · exact shifts_next.bind fun _ => shifts_pure
  · split
    · exact shifts_next.bind fun _ => shifts_pure
    · exact shifts_next.bind fun _ => hg.expression.bind fun _ => shifts_expect.bind fun _ => shifts_pure
    · exact shifts_arrayLiteral hg
    · exact shifts_peekSecond.bind fun _ => .ite (shifts_objectLiteral hg) shifts_failExpected
    · exact (shifts_block hg).bind fun _ => shifts_pure
    · exact shifts_conditional hg
    · exact shifts_matchExpr hg
    · exact shifts_tryExpr hg
    · exact shifts_whileExpr hg
    · exact shifts_whileExpr hg
    · exact shifts_loopExpr hg
    · exact shifts_forExpr hg
    · exact hfunction
    · exact hfunction
    · exact shifts_failExpected

theorem shifts_operandTail (e : Expr) : (g.operandTail e).Shifts := by
  refine shifts_peek.bind fun token => ?_
  split
  · exact (shifts_arguments hg).bind fun _ => shifts_previous.bind fun _ => shifts_pure
  · refine shifts_peekSecond.bind fun _ => .ite shifts_pure (shifts_next.bind fun _ => ?_)
    exact shifts_expectName.bind fun _ => shifts_pure
  · exact shifts_next.bind fun _ => hg.expression.bind fun _ => shifts_expect.bind fun _ => shifts_pure
  · split
    · exact .ite (shifts_next.bind fun _ => shifts_pure) shifts_pure
    · exact shifts_pure

theorem shifts_operandExpr : g.operandExpr.Shifts :=
  (shifts_primary hg).bind fun _ => shifts_iterate (shifts_operandTail hg) _

omit hg in
theorem shifts_checkAssignable {e : Expr} : (checkAssignable e).Shifts := .ite shifts_pure shifts_failAt

theorem shifts_unaryExpr : g.unaryExpr.Shifts := by
  refine shifts_peek.bind fun token => ?_
  split
  · exact shifts_next.bind fun _ => hg.unary.bind fun _ => shifts_pure
  · split
    · exact shifts_next.bind fun _ => hg.unary.bind fun _ => shifts_checkAssignable.bind fun _ => shifts_pure
    · exact shifts_operandExpr hg

theorem shifts_infixTail (least : Nat) (l : Expr) : (g.infixTail least l).Shifts := by
  have happly (op : InfixOp) (r : Expr) : (g.applyInfix l op r).Shifts := by
    cases op with
    | binary op => exact shifts_pure
    | logical op => exact shifts_pure
    | range withStart withStop =>
      have hstep : g.rangeStep.Shifts := shifts_looksAt.bind fun _ =>
        .ite (shifts_next.bind fun _ => (hg.binary _).bind fun _ => shifts_pure) shifts_pure
      exact hstep.bind fun _ => shifts_pure
  refine shifts_peek.bind fun token => ?_
  split
  · exact shifts_pure
  · refine .ite shifts_pure (shifts_next.bind fun _ => (hg.binary _).bind fun r => ?_)
    exact (happly _ r).bind fun _ => shifts_pure

theorem shifts_binaryExpr (least : Nat) : (g.binaryExpr least).Shifts :=
  (shifts_unaryExpr hg).bind fun _ => shifts_iterate (shifts_infixTail hg least) _

theorem shifts_ternaryExpr : g.ternaryExpr.Shifts := by
  refine (shifts_binaryExpr hg 1).bind fun _ => shifts_accept.bind fun _ => .ite ?_ shifts_pure
  exact hg.ternary.bind fun _ => shifts_expect.bind fun _ => hg.ternary.bind fun _ => shifts_pure

theorem shifts_expressionExpr : g.expressionExpr.Shifts := by
  refine (shifts_ternaryExpr hg).bind fun _ => shifts_peek.bind fun token => ?_
  split
  · exact shifts_pure
  · exact shifts_next.bind fun _ => shifts_checkAssignable.bind fun _ => hg.expression.bind fun _ => shifts_pure

/-! ## Statements -/

theorem shifts_varDecl : g.varDecl.Shifts := by
  have hdeclared : g.declared.Shifts := by
    refine shifts_accept.bind fun _ => .ite ?_ (shifts_expectName.bind fun _ => shifts_pure)
    refine (shifts_separated (shifts_expectName.bind fun _ => shifts_pure)).bind fun _ => ?_
    exact shifts_expect.bind fun _ => shifts_pure
  have hinitializer (needed : Bool) : (g.initializer needed).Shifts := by
    refine shifts_accept.bind fun _ => .ite ((shifts_expressionExpr hg).bind fun _ => shifts_pure) ?_
    exact .ite shifts_failExpected shifts_pure
  exact shifts_next.bind fun _ => hdeclared.bind fun _ => (hinitializer _).bind fun _ =>
    shifts_spanFrom.bind fun _ => shifts_pure

omit hg in
theorem shifts_enumDecl : g.enumDecl.Shifts := by
  refine shifts_next.bind fun _ => shifts_expectName.bind fun _ => shifts_expect.bind fun _ => ?_
  refine (shifts_separated (shifts_expectName.bind fun _ => shifts_pure)).bind fun _ => ?_
  exact shifts_expect.bind fun _ => shifts_spanFrom.bind fun _ => shifts_pure

omit hg in
theorem shifts_exchangedName : exchangedName.Shifts := by
  have halias : altName.Shifts :=
    shifts_accept.bind fun _ => .ite (shifts_expectName.bind fun _ => shifts_pure) shifts_pure
  exact shifts_expectName.bind fun _ => halias.bind fun _ => shifts_spanFrom.bind fun _ => shifts_pure

omit hg in
theorem shifts_importStmt : g.importStmt.Shifts := by
  have hpath : modulePath.Shifts := by
    refine shifts_peek.bind fun token => ?_
    split
    · exact shifts_next.bind fun _ => shifts_pure
    · exact shifts_failExpected
  have hnames : g.importedNames.Shifts := shifts_accept.bind fun _ =>
    .ite shifts_pure ((shifts_commaList shifts_exchangedName).bind fun _ => shifts_pure)
  have hend (start : Token) (i : Span → Import) : (do return i (← spanFrom start) : Parse Import).Shifts :=
    shifts_spanFrom.bind fun _ => shifts_pure
  refine shifts_next.bind fun _ => hpath.bind fun _ => .ite ?_ (shifts_looksAt.bind fun _ => .ite ?_ (hend _ _))
  · exact shifts_expect.bind fun _ => hnames.bind fun _ => hend _ _
  · exact shifts_next.bind fun _ => hnames.bind fun _ => hend _ _

theorem shifts_exportStmt : g.exportStmt.Shifts := by
  have hfunction : g.exportedFunction.Shifts :=
    (shifts_functionDef hg).bind fun _ => .ite (shifts_failAt.bind fun _ => shifts_pure) shifts_pure
  refine shifts_next.bind fun _ => shifts_peek.bind fun token => ?_
  split
  · exact (shifts_varDecl hg).bind fun _ => shifts_spanFrom.bind fun _ => shifts_pure
  · exact (shifts_varDecl hg).bind fun _ => shifts_spanFrom.bind fun _ => shifts_pure
  · exact shifts_enumDecl.bind fun _ => shifts_spanFrom.bind fun _ => shifts_pure
  · exact hfunction.bind fun _ => shifts_spanFrom.bind fun _ => shifts_pure
  · exact hfunction.bind fun _ => shifts_spanFrom.bind fun _ => shifts_pure
  · exact (shifts_commaList shifts_exchangedName).bind fun _ => shifts_spanFrom.bind fun _ => shifts_pure

theorem shifts_stmt : g.stmt.Shifts := by
  have hreturned : g.returnedValue.Shifts := by
    have hend : atStatementEnd.Shifts :=
      shifts_looksAt.bind fun _ => shifts_looksAt.bind fun _ => shifts_looksAt.bind fun _ => shifts_pure
    exact hend.bind fun _ => .ite shifts_pure ((shifts_expressionExpr hg).bind fun _ => shifts_pure)
  refine shifts_peek.bind fun token => ?_
  split
  · exact (shifts_varDecl hg).bind fun _ => shifts_pure
  · exact (shifts_varDecl hg).bind fun _ => shifts_pure
  · exact shifts_next.bind fun _ => hreturned.bind fun _ => shifts_spanFrom.bind fun _ => shifts_pure
  · exact shifts_next.bind fun _ => shifts_pure
  · exact shifts_next.bind fun _ => shifts_pure
  · exact shifts_next.bind fun _ => (shifts_expressionExpr hg).bind fun _ => shifts_spanFrom.bind fun _ => shifts_pure
  · exact shifts_enumDecl.bind fun _ => shifts_pure
  · exact shifts_importStmt.bind fun _ => shifts_pure
  · exact shifts_importStmt.bind fun _ => shifts_pure
  · exact shifts_exportStmt hg
  · exact (shifts_expressionExpr hg).bind fun _ => shifts_pure

end

/-! ## Levels -/

theorem shifts_ofLevel (n : Nat) : (ofLevel n).Shifts := by
  induction n with
  | zero =>
    exact ⟨shifts_exhausted, shifts_exhausted, fun _ => shifts_exhausted, shifts_exhausted, shifts_exhausted,
      shifts_exhausted, shifts_exhausted⟩
  | succ n ih =>
    exact ⟨shifts_expressionExpr ih, shifts_ternaryExpr ih, shifts_binaryExpr ih, shifts_unaryExpr ih,
      shifts_operandExpr ih, shifts_conditional ih, shifts_stmt ih⟩

/-! ## Programs from the statements that are left -/

/-- The next statement, if the end of file is not reached. -/
def nextStatement (g : Grammar) : Parse (Option Stmt) := do
  if ← looksAt .endOfFile then return none
  let s ← g.statement
  skipSemicolons g.bound
  return some s

theorem shifts_nextStatement (hg : g.Shifts) : g.nextStatement.Shifts :=
  shifts_looksAt.bind fun _ =>
    .ite shifts_pure (hg.statement.bind fun _ => shifts_skipSemicolons.bind fun _ => shifts_pure)

end Grammar

namespace Parse

variable {α : Type} {item : Parse (Option α)}

/-- Collects items until there is none, each from the tokens that are left and the one before them. -/
def manyFrom (item : Parse (Option α)) : Nat → List Token → Except ParseStop (List α)
  | 0, _ => .error .unfinished
  | _ + 1, [] => .error .noToken
  | bound + 1, t :: ts =>
    match item (t :: ts).toArray 1 with
    | .ok (some a, j) => (manyFrom item bound ((t :: ts).drop (j - 1))).map (a :: ·)
    | .ok (none, 1) => .ok []
    | .ok (none, _) => .error .unfinished
    | .error stop => .error stop

/-- What is collected from the tokens that are left is collected from all of them. -/
theorem many_of_manyFrom (hitem : item.Shifts) {bound i : Nat} {ts : List Token} {as : List α} (hi : 0 < i)
    (h : manyFrom item bound (ts.drop (i - 1)) = .ok as) :
    ∃ j, many item bound ts.toArray i = .ok (as, j) ∧ j - 1 < ts.length := by
  induction bound generalizing i as with
  | zero => cases h
  | succ bound ih =>
    cases hleft : ts.drop (i - 1) with
    | nil =>
      rw [hleft] at h
      cases h
    | cons t rest =>
      rw [hleft, manyFrom] at h
      have hlt : i - 1 < ts.length := by
        rw [← Nat.not_le, ← List.drop_eq_nil_iff, hleft]
        exact List.cons_ne_nil _ _
      have hsize : (ts.take (i - 1)).toArray.size = i - 1 := by simp; omega
      have hts : ts.toArray = (ts.take (i - 1)).toArray ++ (t :: rest).toArray := by
        rw [← hleft, List.append_toArray, List.take_append_drop]
      obtain ⟨hsame, hpos⟩ := hitem (ts.take (i - 1)).toArray (t :: rest).toArray 1 Nat.one_pos (by simp)
      rw [← hts, hsize, show i - 1 + 1 = i by omega] at hsame
      split at h
      · next a j hrun =>
        cases hrest : manyFrom item bound ((t :: rest).drop (j - 1)) with
        | error stop =>
          rw [hrest] at h
          cases h
        | ok as' =>
          rw [hrest] at h
          cases h
          rw [hrun, shifted] at hsame
          have hj := hpos _ _ hrun
          rw [← hleft, List.drop_drop, show i - 1 + (j - 1) = i - 1 + j - 1 by omega] at hrest
          obtain ⟨k, hk, hlast⟩ := ih (by omega) hrest
          exact ⟨k, by rw [many, bind_ok hsame]; exact bind_ok hk, hlast⟩
      · next hrun =>
        cases h
        rw [hrun, shifted] at hsame
        exact ⟨_, by rw [many, bind_ok hsame]; rfl, by omega⟩
      · cases h
      · cases h

end Parse

namespace Program

open Parse

/-- The statements of a program, each from the tokens that are left. -/
def statementsFrom : List Token → Except ParseStop (List Stmt)
  | [] => .error .noToken
  | t :: ts =>
    let g := Grammar.ofLevel (ts.length + 3)
    match skipSemicolons g.bound (t :: ts).toArray 0 with
    | .ok (_, i) =>
      match g.nextStatement (t :: ts).toArray i with
      | .ok (some s, j + 1) => (manyFrom g.nextStatement (ts.length + 2) ((t :: ts).drop j)).map (s :: ·)
      | .ok _ => .error .unfinished
      | .error stop => .error stop
    | .error stop => .error stop

theorem ofTokens_of_statementsFrom {ts : List Token} {ss : List Stmt} (file : Option Text)
    (h : statementsFrom ts = .ok ss) : ∃ span, ofTokens ts file = .ok ⟨span, ss, file⟩ := by
  cases ts with
  | nil => cases h
  | cons t ts =>
    obtain ⟨g, hg⟩ : ∃ g, g = Grammar.ofLevel (ts.length + 3) := ⟨_, rfl⟩
    have hitem : g.nextStatement.Shifts := Grammar.shifts_nextStatement (hg ▸ Grammar.shifts_ofLevel _)
    have hbound : g.bound = ts.length + 3 := hg ▸ Grammar.bound_ofLevel _
    rw [statementsFrom, ← hg] at h
    split at h
    · next i hskip =>
      split at h
      · next s j hfirst =>
        cases hrest : manyFrom g.nextStatement (ts.length + 2) ((t :: ts).drop j) with
        | error stop =>
          rw [hrest] at h
          cases h
        | ok ss' =>
          rw [hrest] at h
          cases h
          obtain ⟨k, hk, hlast⟩ := many_of_manyFrom hitem (i := j + 1) (Nat.succ_pos j) hrest
          have hall : g.programStatements (t :: ts).toArray i = .ok (s :: ss', k) := by
            show many g.nextStatement g.bound _ _ = _
            rw [hbound, many, bind_ok hfirst]
            exact bind_ok hk
          have hspan (start : Token) : spanFrom start (t :: ts).toArray k =
              .ok (⟨start.span.start, (tokenIn (t :: ts).toArray (k - 1)).span.stop⟩, k) := by
            have hget : (get : Parse Nat) (t :: ts).toArray k = .ok (k, k) := rfl
            rw [spanFrom, bind_ok hget]
            exact bind_ok (tokenAt_run hlast k)
          refine ⟨⟨t.span.start, (tokenIn (t :: ts).toArray (k - 1)).span.stop⟩, ?_⟩
          rw [ofTokens, List.length_cons, ← hg, runOn, Grammar.program, bind_ok (peek_run (by simp)), bind_ok hskip,
            bind_ok hall, bind_ok (hspan _)]
          rfl
      · cases h
      · cases h
    · cases h

/-- A source is parsed to the statements that are read of its tokens. -/
theorem parse_of_statementsFrom {source : Text} {file : Option Text} {ts : List Token} {ss : List Stmt}
    (hts : tokenize source file = .ok ts) (hss : statementsFrom ts = .ok ss) :
    ∃ span, parse source file = .ok ⟨span, ss, file⟩ := by
  obtain ⟨span, hspan⟩ := ofTokens_of_statementsFrom file hss
  exact ⟨span, by rw [parse, hts]; exact congrArg (Except.mapError _) hspan⟩

end Program

end ScriptEngine
